import ShellCompletion.Proofs.Text.Joined
import ShellCompletion.Proofs.Text.Numeral
import ShellCompletion.Text.Literal

/-! Texts on one line. Numbers are written by digits, and the literal of a text has an escape for
every character that is not printable, which all line breaks are. The main statement says that
the literal of any text is on one line. -/
namespace ShellCompletion.Text

/-- The characters at which a text is split into lines. -/
def lineBreaks : List Char :=
  ['\n', '\x0b', '\x0c', '\r', '\x1c', '\x1d', '\x1e', '\u0085', '\u2028', '\u2029']

/-- The characters stand on one line. -/
def OneLine (s : List Char) : Prop := ∀ c ∈ s, c ∉ lineBreaks

instance (s : List Char) : Decidable (OneLine s) :=
  decidable_of_iff (s.all fun c => !lineBreaks.contains c) (by simp [OneLine])

@[simp] theorem oneLine_nil : OneLine [] := by simp [OneLine]

@[simp] theorem oneLine_cons {c : Char} {s : List Char} :
    OneLine (c :: s) ↔ c ∉ lineBreaks ∧ OneLine s := List.forall_mem_cons

@[simp] theorem oneLine_append {s t : List Char} : OneLine (s ++ t) ↔ OneLine s ∧ OneLine t :=
  List.forall_mem_append

theorem OneLine.of_subset {s t : List Char} (h : OneLine t) (hs : s ⊆ t) : OneLine s :=
  fun c hc => h c (hs hc)

/-- A literal is its characters, so whether it is on one line need not decode it. -/
theorem oneLine_ofList {s : List Char} (h : OneLine s := by decide) :
    OneLine (String.ofList s).toList := by
  rwa [String.toList_ofList]

theorem oneLine_flatMap {α : Type} {f : α → List Char} {xs : List α}
    (h : ∀ x ∈ xs, OneLine (f x)) : OneLine (xs.flatMap f) := by
  intro c hc
  obtain ⟨x, hx, hc⟩ := List.mem_flatMap.1 hc
  exact h x hx c hc

theorem oneLine_replicate {c : Char} (h : c ∉ lineBreaks) (n : Nat) :
    OneLine (List.replicate n c) := fun _ hd => List.eq_of_mem_replicate hd ▸ h

theorem oneLine_intercalate {sep : String} {ts : List String} (hs : OneLine sep.toList)
    (h : ∀ t ∈ ts, OneLine t.toList) : OneLine (sep.intercalate ts).toList :=
  forall_mem_intercalate hs h

/-- Characters of a kind that has no line breaks. -/
theorem not_mem_lineBreaks {kind : Char → Bool} (h : lineBreaks.any kind = false) {c : Char}
    (hc : kind c = true) : c ∉ lineBreaks := fun hm => List.any_eq_false.1 h c hm hc

/-! ### Numbers -/

theorem oneLine_toDigits {base : Nat} (hb : 1 < base) (hl : base ≤ 16) (n : Nat) :
    OneLine (Nat.toDigits base n) := by
  have hd : ∀ d < 16, Nat.digitChar d ∉ lineBreaks := by decide
  induction n using Nat.strongRecOn with
  | ind n ih =>
    rw [Nat.toDigits_eq_if hb]
    split
    · next h => simpa using hd n (by omega)
    · next h =>
      have hn : n % base < base := Nat.mod_lt n (by omega)
      simpa using ⟨ih (n / base) (Nat.div_lt_self (by omega) hb), hd (n % base) (by omega)⟩

theorem oneLine_decimal (n : Nat) : OneLine (Nat.toDigits 10 n) :=
  oneLine_toDigits (by decide) (by decide) n

theorem oneLine_padded (width n : Nat) : OneLine (padded width n) := by
  rw [padded, oneLine_append]
  exact ⟨oneLine_replicate (by decide) _, oneLine_decimal n⟩

theorem oneLine_hex (width n : Nat) : OneLine (hex width n) := by
  rw [hex, oneLine_append]
  exact ⟨oneLine_replicate (by decide) _, oneLine_toDigits (by decide) (by decide) n⟩

theorem oneLine_toString (n : Nat) : OneLine (toString n).toList := by
  rw [toList_toString]
  exact oneLine_decimal n

theorem oneLine_toString_int (n : Int) : OneLine (toString n).toList := by
  rw [toList_toString_int, oneLine_append]
  refine ⟨?_, oneLine_decimal _⟩
  split <;> decide

/-! ### Literals -/

/-- No line break is printable. -/
theorem not_mem_lineBreaks_of_isPrintable {c : Char} (h : isPrintable c = true) :
    c ∉ lineBreaks := by
  have hb : lineBreaks.any isPrintable = false := by decide +kernel
  exact not_mem_lineBreaks hb h

theorem oneLine_escapeCode (n : Nat) : OneLine (escapeCode n) := by
  have hm : '\\' ∉ lineBreaks ∧ 'x' ∉ lineBreaks ∧ 'u' ∉ lineBreaks ∧ 'U' ∉ lineBreaks := by decide
  rw [escapeCode]
  split
  · simp [hm, oneLine_hex]
  · split <;> simp [hm, oneLine_hex]

theorem oneLine_escapeChar {quote : Char} (hq : quote ∉ lineBreaks) (c : Char) :
    OneLine (escapeChar quote c) := by
  have hb : '\\' ∉ lineBreaks := by decide
  rw [escapeChar]
  split
  · next h =>
    rw [Bool.or_eq_true, beq_iff_eq, beq_iff_eq] at h
    rcases h with rfl | rfl <;> simp [hb, hq]
  split
  · decide
  split
  · decide
  split
  · decide
  split
  · next h => simpa using not_mem_lineBreaks_of_isPrintable h
  · exact oneLine_escapeCode _

theorem literalQuote_not_mem (s : List Char) : literalQuote s ∉ lineBreaks := by
  rw [literalQuote]
  split <;> decide

/-- The literal of any text is on one line. -/
theorem oneLine_literal (s : String) : OneLine (literal s).toList := by
  have hq := literalQuote_not_mem s.toList
  rw [literal, String.toList_ofList, literalChars, oneLine_append, oneLine_cons]
  exact ⟨⟨hq, oneLine_flatMap fun c _ => oneLine_escapeChar hq c⟩, by simpa using hq⟩

end ShellCompletion.Text
