import Mathlib.Data.List.Basic
import ShellCompletion.Document.Yaml.Tokens
import ShellCompletion.Proofs.Document.Yaml.Cursor

/-! Blanks between the tokens of a text in YAML. Whatever reads on over blanks stops at what comes
after them, and a word before blanks is taken for a plain scalar. -/
namespace ShellCompletion.Document.Yaml

open Text Cursor

variable {c : Cursor} {t : List Char}

/-- Spaces and what ends a line. -/
def isGap (x : Char) : Bool := x == ' ' || isBreak x

/-- What holds of the space and of the five characters that end lines holds of every blank. -/
theorem of_isGap {P : Char → Prop} (h : " \n\r\x85\u2028\u2029".toList.Forall P) {x : Char}
    (hx : isGap x = true) : P x := by
  refine List.forall_iff_forall_mem.1 h x ?_
  simp only [isGap, isBreak, Bool.or_eq_true, beq_iff_eq] at hx
  obtain rfl | (((rfl | rfl) | rfl) | rfl) | rfl := hx <;> simp

/-- Nothing but blanks stands in front of a text. -/
def GapThen (t : List Char) (c : Cursor) : Prop := ∃ b, (∀ x ∈ b, isGap x = true) ∧ c.rest = b ++ t

theorem gapThen_of_rest (h : c.rest = t) : GapThen t c := ⟨[], by simp, h⟩

theorem GapThen.next (h : GapThen t c) (ht : Stops isGap t) (hc : isGap c.peek = true) :
    GapThen t c.next := by
  obtain ⟨b, hb, hr⟩ := h
  cases b with
  | nil =>
    cases t with
    | nil =>
      rw [peek_of_nil hr] at hc
      exact absurd hc (by decide)
    | cons x t =>
      rw [peek_of_rest hr, stops_cons.1 ht] at hc
      cases hc
  | cons x b => exact ⟨b, fun y hy => hb y (List.mem_cons_of_mem x hy), rest_next hr⟩

theorem lineBreak_eq (c : Cursor) (hc : isBreak c.peek = true) :
    (c.lineBreak.2 = c.next ∨ c.peek = '\r' ∧ c.next.peek = '\n' ∧ c.lineBreak.2 = c.next.next) := by
  unfold lineBreak
  split
  · next r hr =>
    exact .inr ⟨peek_of_rest hr, peek_of_rest (rest_next hr), rfl⟩
  · next x r _ hr =>
    rw [peek_of_rest hr] at hc
    refine .inl ?_
    split <;> rfl
  · next hr =>
    rw [peek_of_nil hr] at hc
    exact absurd hc (by decide)

theorem length_lineBreak_lt (hc : isBreak c.peek = true) :
    c.lineBreak.2.rest.length < c.rest.length := by
  have hr : c.rest ≠ [] := by
    intro hr
    rw [peek_of_nil hr] at hc
    exact absurd hc (by decide)
  have := List.length_pos_iff.2 hr
  obtain he | ⟨-, -, he⟩ := lineBreak_eq c hc <;> rw [he]
  · rw [next_rest, List.length_tail]
    omega
  · rw [next_rest, next_rest, List.length_tail, List.length_tail]
    omega

theorem length_skip_le (p : Char → Bool) (c : Cursor) : (c.skip p).rest.length ≤ c.rest.length := by
  simp [skip, span, forward_rest]

theorem isGap_of_isBreak {x : Char} (h : isBreak x = true) : isGap x = true := by simp [isGap, h]

theorem GapThen.lineBreak (h : GapThen t c) (ht : Stops isGap t) (hc : isBreak c.peek = true) :
    GapThen t c.lineBreak.2 := by
  have next := h.next ht (isGap_of_isBreak hc)
  obtain he | ⟨-, hn, he⟩ := lineBreak_eq c hc <;> rw [he]
  · exact next
  · exact next.next ht (by rw [hn]; decide)

theorem GapThen.skipSpaces (h : GapThen t c) (ht : Stops isGap t) :
    GapThen t (c.skip (· == ' ')) ∧ Stops (· == ' ') (c.skip (· == ' ')).rest := by
  obtain ⟨b, hb, hr⟩ := h
  obtain ⟨s, b, rfl, hs, hstop⟩ := exists_run (· == ' ') b
  rw [List.append_assoc] at hr
  have stop : Stops (· == ' ') (b ++ t) :=
    hstop.append fun _ => ht.mono fun x hx => by simp [isGap] at hx; simp [hx]
  rw [skip_run hr hs stop]
  exact ⟨⟨b, fun x hx => hb x (List.mem_append_right s hx), rest_forward hr⟩, rest_forward hr ▸ stop⟩

/-- At blanks there is a blank, the end, or the front of what comes after them. -/
theorem GapThen.peek {p : Char → Bool} (h : GapThen t c) (hgap : ∀ x, isGap x = true → p x = false)
    (hend : p endChar = false) (ht : Stops p t) : p c.peek = false := by
  obtain ⟨b, hb, hr⟩ := h
  cases b with
  | cons x b =>
    rw [peek_of_rest hr]
    exact hgap x (hb x List.mem_cons_self)
  | nil =>
    cases t with
    | nil => rwa [peek_of_nil hr]
    | cons x t =>
      rw [peek_of_rest hr]
      exact stops_cons.1 ht

/-- Where no blank stands, the blanks are over. -/
theorem GapThen.rest_eq (h : GapThen t c) (hc : isGap c.peek = false) : c.rest = t := by
  obtain ⟨b, hb, hr⟩ := h
  cases b with
  | nil => exact hr
  | cons x b =>
    rw [peek_of_rest hr, hb x List.mem_cons_self] at hc
    cases hc

/-! ### Plain scalars -/

theorem GapThen.plainBreaks (h : GapThen t c) (ht : Stops isGap t) (fuel : Nat) (done : List Char) :
    GapThen t (plainBreaks fuel done c).2 := by
  induction fuel generalizing done c with
  | zero => exact h
  | succ fuel ih =>
    rw [Yaml.plainBreaks]
    split
    · next hs => exact ih (h.next ht (by simp [isGap, eq_of_beq hs])) done
    · split
      · next hb =>
        have after := h.lineBreak ht hb
        simp only
        split
        · exact after
        · exact ih after _
      · exact h

theorem GapThen.plainBlanks (h : GapThen t c) (ht : Stops isGap t) : GapThen t (plainBlanks c).2 := by
  have spaces : GapThen t (c.span (· == ' ')).2 := (h.skipSpaces ht).1
  unfold Yaml.plainBlanks
  simp only
  split
  · next hb =>
    have after := spaces.lineBreak ht hb
    have breaks := after.plainBreaks ht ((c.span (· == ' ')).2.lineBreak.2.rest.length + 1) []
    split
    · exact after
    · split
      · next he => rwa [he] at breaks
      · next he => rwa [he] at breaks
  · exact spaces

/-- The characters of a word that is a plain scalar wherever it stands. -/
def isWordChar (x : Char) : Bool :=
  !(isBlankOrEnd x || x == ',' || x == '[' || x == ']' || x == '{' || x == '}' || x == '?' ||
    x == ':' || x == '#')

/-- What may come after a plain scalar: the end of the text or, in flow, what separates or ends
the items of a collection. -/
def Ends (flow : Bool) (t : List Char) : Prop :=
  t = [] ∨ flow = true ∧ ∃ x r, t = x :: r ∧ (x = ',' ∨ x = ']' ∨ x = '}')

theorem Ends.stops {flow : Bool} (h : Ends flow t) : Stops isGap t := by
  obtain rfl | ⟨-, x, r, rfl, hx⟩ := h
  · exact stops_nil
  · obtain rfl | rfl | rfl := hx <;> exact stops_cons.2 rfl

theorem plainSpan_ends {flow : Bool} {b : List Char} (hb : ∀ x ∈ b, isGap x = true)
    (ht : Ends flow t) : plainSpan flow (b ++ t) = [] := by
  cases b with
  | nil =>
    obtain rfl | ⟨rfl, x, r, rfl, hx⟩ := ht
    · rfl
    · obtain rfl | rfl | rfl := hx <;> simp [plainSpan]
  | cons x b =>
    have hx : isBlankOrEnd x = true := by
      have := hb x List.mem_cons_self
      simp only [isGap, Bool.or_eq_true] at this
      obtain h | h := this <;> simp [isBlankOrEnd, isSpaceOrEnd, isBreakOrEnd, h]
    simp [plainSpan, hx]

theorem plainSpan_word {flow : Bool} {w s : List Char} (hw : ∀ x ∈ w, isWordChar x = true)
    (hs : plainSpan flow s = []) : plainSpan flow (w ++ s) = w := by
  induction w with
  | nil => exact hs
  | cons x w ih =>
    simp only [List.mem_cons, forall_eq_or_imp] at hw
    have hx := hw.1
    simp only [isWordChar, Bool.not_eq_true', Bool.or_eq_false_iff] at hx
    simp [plainSpan, hx, ih hw.2]

theorem GapThen.plainParts {flow : Bool} (h : GapThen t c) (ht : Ends flow t) (column : Int)
    (fuel : Nat) (blanks : List Char) (p : Plain) : plainParts flow column fuel blanks p c = (p, c) := by
  cases fuel with
  | zero => rfl
  | succ fuel =>
    obtain ⟨b, hb, hr⟩ := h
    simp [Yaml.plainParts, hr, plainSpan_ends hb ht]

/-- A word before blanks is taken off a text as a plain scalar. -/
theorem readPlain_word {flow : Bool} {w : List Char} (hw : ∀ x ∈ w, isWordChar x = true)
    (hne : w ≠ []) (ht : Ends flow t) {b : List Char} (hb : ∀ x ∈ b, isGap x = true)
    (h : c.rest = w ++ (b ++ t)) (indent : Int) :
    (readPlain flow indent c).1.text = w ∧ GapThen t (readPlain flow indent c).2 := by
  have span : plainSpan flow c.rest = w := h ▸ plainSpan_word hw (plainSpan_ends hb ht)
  have after : GapThen t (plainBlanks (c.forward w.length)).2 :=
    GapThen.plainBlanks ⟨b, hb, rest_forward h⟩ ht.stops
  have first : (c.peek == '#') = false := by
    obtain ⟨x, w, rfl⟩ := List.exists_cons_of_ne_nil hne
    rw [peek_of_rest h]
    have := hw x List.mem_cons_self
    simp only [isWordChar, Bool.not_eq_true', Bool.or_eq_false_iff] at this
    exact this.2
  have nonempty : w.isEmpty = false := by simpa using hne
  simp only [readPlain, Yaml.plainParts, span, first, nonempty, Bool.or_self, Bool.false_eq_true, if_false]
  split
  · exact ⟨by simp, after⟩
  · rw [after.plainParts ht]
    exact ⟨by simp, after⟩

end ShellCompletion.Document.Yaml
