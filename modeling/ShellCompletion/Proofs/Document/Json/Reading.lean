import ShellCompletion.Proofs.Document.Json.Numeral
import ShellCompletion.Proofs.Document.Json.Strings

/-! Reading texts in JSON. The main statement says that a text is read as a value just when it is
the text of a tree which stands for the value. -/
namespace ShellCompletion.Document.Json

open Text Numeral

variable {t : List Char}

/-! ### Blanks -/

theorem skipSpace_run {b : List Char} (hb : IsBlank b) (ht : Stops isSpace t) (o : Nat) :
    skipSpace ⟨o, b ++ t⟩ = ⟨o + b.length, t⟩ :=
  Rest.skip_run o hb ht

theorem exists_skipSpace (r : Rest) : ∃ b, IsBlank b ∧ r.chars = b ++ (skipSpace r).chars := by
  obtain ⟨o, s⟩ := r
  obtain ⟨b, t, rfl, hb, ht⟩ := exists_run isSpace s
  exact ⟨b, hb, by rw [skipSpace_run hb ht]⟩

theorem IsBlank.stops_continues {b : List Char} (hb : IsBlank b) (ht : Stops continues t) :
    Stops continues (b ++ t) := by
  have space : ∀ c, isSpace c = true → continues c = false := by
    intro c hc
    simp only [isSpace, Bool.or_eq_true, beq_iff_eq] at hc
    obtain ((rfl | rfl) | rfl) | rfl := hc <;> decide
  cases b with
  | nil => exact ht
  | cons c b => exact stops_cons.2 (space c (hb c List.mem_cons_self))

/-! ### Names and numbers -/

theorem scalar_name {entry : List Char × Value} (h : entry ∈ names) (o : Nat) (t : List Char) :
    ∃ o', scalar ⟨o, entry.1 ++ t⟩ = .ok (entry.2, ⟨o', t⟩) := by
  simp only [names, List.mem_cons, List.not_mem_nil, or_false] at h
  obtain rfl | rfl | rfl | rfl | rfl | rfl := h <;> exact ⟨_, rfl⟩

theorem scalar_number {n : Numeral} (hn : n.IsJson) (o : Nat) (ht : Stops continues t) :
    scalar ⟨o, n.text ++ t⟩ = .ok (n.value, ⟨o + n.text.length, t⟩) := by
  have unnamed : (names.find? fun e => e.1.isPrefixOf (n.text ++ t)) = none := by
    obtain ⟨c, r, hc⟩ := List.exists_cons_of_ne_nil hn.whole_ne_nil
    have hd : c ≠ 'n' ∧ c ≠ 't' ∧ c ≠ 'f' ∧ c ≠ 'N' ∧ c ≠ 'I' ∧ c ≠ '-' :=
      of_isDigit (P := fun c => c ≠ 'n' ∧ c ≠ 't' ∧ c ≠ 'f' ∧ c ≠ 'N' ∧ c ≠ 'I' ∧ c ≠ '-')
        (by decide) (hn.whole_digits (hc ▸ List.mem_cons_self))
    cases hneg : n.negative <;> simp [names, Numeral.text, Numeral.sign, hneg, hc, hd, Ne.symm]
  rw [scalar, unnamed]
  simp only [hn.number?_text ht, Rest.drop_run o rfl]

theorem exists_of_scalar {r r' : Rest} {v : Value} (h : scalar r = .ok (v, r')) :
    ∃ s : Source, s.IsJson ∧ r.chars = s.text ++ r'.chars ∧ s.value = v := by
  unfold scalar at h
  split at h
  · next name v hfind =>
    cases h
    have front : name.isPrefixOf r.chars = true := by simpa using List.find?_some hfind
    obtain ⟨t, ht⟩ := List.isPrefixOf_iff_prefix.1 front
    refine ⟨.name (name, v), List.mem_of_find?_eq_some hfind, ?_, rfl⟩
    simp [Source.text, Rest.drop, ← ht]
  · split at h
    · next v size hnum =>
      cases h
      obtain ⟨n, t, hn, hr, rfl, rfl⟩ := exists_of_number? hnum
      exact ⟨.number n, hn, by simp [Source.text, Rest.drop, hr], rfl⟩
    · cases h

/-! ### Fronts -/

/-- The characters that names and numbers begin with. -/
def scalarFronts : List Char := "-0123456789ntfNI".toList

/-- The characters that values begin with. -/
def fronts : List Char := '"' :: '[' :: '{' :: scalarFronts

theorem exists_front_of_name {entry : List Char × Value} (h : entry ∈ names) :
    ∃ c r, entry.1 = c :: r ∧ c ∈ scalarFronts := by
  simp only [names, List.mem_cons, List.not_mem_nil, or_false] at h
  obtain rfl | rfl | rfl | rfl | rfl | rfl := h <;> exact ⟨_, _, rfl, by decide⟩

theorem Numeral.IsJson.exists_front {n : Numeral} (hn : n.IsJson) :
    ∃ c r, n.text = c :: r ∧ c ∈ scalarFronts := by
  obtain ⟨c, r, hc⟩ := List.exists_cons_of_ne_nil hn.whole_ne_nil
  have hd : c ∈ scalarFronts :=
    of_isDigit (P := (· ∈ scalarFronts)) (by decide) (hn.whole_digits (hc ▸ List.mem_cons_self))
  cases hneg : n.negative with
  | false => exact ⟨c, _, by simp [Numeral.text, Numeral.sign, hneg, hc]; rfl, hd⟩
  | true => exact ⟨'-', _, by simp [Numeral.text, Numeral.sign, hneg]; rfl, by decide⟩

theorem Source.IsJson.exists_front {s : Source} (hs : s.IsJson) :
    ∃ c r, s.text = c :: r ∧ c ∈ fronts := by
  have scalar {c : Char} (h : c ∈ scalarFronts) : c ∈ fronts := by simp [fronts, h]
  cases s with
  | name entry =>
    obtain ⟨c, r, he, hc⟩ := exists_front_of_name hs
    exact ⟨c, r, he, scalar hc⟩
  | number n =>
    obtain ⟨c, r, he, hc⟩ := Numeral.IsJson.exists_front hs
    exact ⟨c, r, he, scalar hc⟩
  | string ps => exact ⟨'"', _, rfl, by decide⟩
  | emptyList blank => exact ⟨'[', _, rfl, by decide⟩
  | list items => exact ⟨'[', _, rfl, by decide⟩
  | emptyMap blank => exact ⟨'{', _, rfl, by decide⟩
  | map members => exact ⟨'{', _, rfl, by decide⟩

theorem Source.IsJson.stops {kind : Char → Bool} {s : Source} (hs : s.IsJson)
    (hk : ∀ c ∈ fronts, kind c = false) : Stops kind (s.text ++ t) := by
  obtain ⟨c, r, he, hc⟩ := hs.exists_front
  rw [he]
  exact stops_cons.2 (hk c hc)

theorem Source.IsJson.stops_isSpace {s : Source} (hs : s.IsJson) : Stops isSpace (s.text ++ t) :=
  hs.stops (List.forall_iff_forall_mem.1 (by decide))

/-- The first value of a list comes after blanks. -/
theorem Items.IsJson.exists_front {xs : Items} (hxs : xs.IsJson) (o : Nat) (t : List Char) :
    ∃ c r, (skipSpace ⟨o, xs.text ++ t⟩).chars = c :: r ∧ c ≠ ']' := by
  have main (before : List Char) (item : Source) (t : List Char) (hb : IsBlank before)
      (hitem : item.IsJson) :
      ∃ c r, (skipSpace ⟨o, before ++ (item.text ++ t)⟩).chars = c :: r ∧ c ≠ ']' := by
    obtain ⟨c, r, he, hc⟩ := hitem.exists_front
    rw [skipSpace_run hb hitem.stops_isSpace, he]
    refine ⟨c, r ++ t, rfl, ?_⟩
    rintro rfl
    exact absurd hc (by decide)
  cases xs with
  | last before item after => simpa [Items.text] using main before item _ hxs.1 hxs.2.1
  | more before item after rest => simpa [Items.text] using main before item _ hxs.1.1 hxs.1.2.1

/-- The first key of a mapping comes after blanks. -/
theorem Members.IsJson.exists_front {ms : Members} (hms : ms.IsJson) (o : Nat) (t : List Char) :
    ∃ r, (skipSpace ⟨o, ms.text ++ t⟩).chars = '"' :: r := by
  have main (before : List Char) (key : List Piece) (t : List Char) (hb : IsBlank before) :
      ∃ r, (skipSpace ⟨o, before ++ (quoted key ++ t)⟩).chars = '"' :: r := by
    rw [quoted_append, skipSpace_run hb (stops_cons.2 rfl)]
    exact ⟨_, rfl⟩
  cases ms with
  | last before key gap inner value after =>
    simpa [Members.text] using main before key _ hms.1.1
  | more before key gap inner value after rest =>
    simpa [Members.text] using main before key _ hms.1.1.1

/-! ### Trees are read -/

theorem readValue_scalar {s : List Char} (h : ∃ c r, s = c :: r ∧ c ∈ scalarFronts) (fuel o : Nat) :
    readValue (fuel + 1) ⟨o, s ++ t⟩ = scalar ⟨o, s ++ t⟩ := by
  obtain ⟨c, r, rfl, hc⟩ := h
  have hne : ∀ c ∈ scalarFronts, c ≠ '"' ∧ c ≠ '{' ∧ c ≠ '[' :=
    List.forall_iff_forall_mem.1 (by decide)
  simp [readValue, hne c hc]

/-- An item of a list is read; what becomes of the rest depends on the character after it. -/
theorem readItems_item {before after : List Char} {item : Source}
    (h : IsBlank before ∧ item.IsJson ∧ IsBlank after) {c : Char} (hc : isSpace c = false) (fuel : Nat)
    (read : ∀ o, ∃ o', readValue fuel ⟨o, item.text ++ (after ++ c :: t)⟩ =
      .ok (item.value, ⟨o', after ++ c :: t⟩)) (done : List Value) (o : Nat) :
    ∃ o', readItems (fuel + 1) done (skipSpace ⟨o, before ++ (item.text ++ (after ++ c :: t))⟩) =
      if c = ']' then .ok ((item.value :: done).reverse, ⟨o', t⟩)
      else if c = ',' then readItems fuel (item.value :: done) (skipSpace ⟨o', t⟩)
      else fault .comma o' := by
  obtain ⟨hb, hitem, ha⟩ := h
  obtain ⟨o₁, h₁⟩ := read (o + before.length)
  have skip := skipSpace_run (t := c :: t) ha (stops_cons.2 hc) o₁
  refine ⟨if c = ']' ∨ c = ',' then o₁ + after.length + 1 else o₁ + after.length, ?_⟩
  rw [skipSpace_run hb hitem.stops_isSpace, readItems]
  simp only [h₁, skip, Except.bind, bind, Rest.drop, List.drop_succ_cons, List.drop_zero]
  split
  · next he =>
    cases he
    rfl
  · next he =>
    cases he
    rfl
  · next hne₁ hne₂ =>
    have h1 : c ≠ ']' := fun he => hne₁ t (by rw [he])
    have h2 : c ≠ ',' := fun he => hne₂ t (by rw [he])
    simp [h1, h2]

/-- A member of a mapping is read; what becomes of the rest depends on the character after it. -/
theorem readEntries_member {before gap inner after : List Char} {key : List Piece} {value : Source}
    (h : IsBlank before ∧ PiecesJson key ∧ IsBlank gap)
    (hv : IsBlank inner ∧ value.IsJson ∧ IsBlank after) {c : Char} (hc : isSpace c = false) (fuel : Nat)
    (read : ∀ o, ∃ o', readValue fuel ⟨o, value.text ++ (after ++ c :: t)⟩ =
      .ok (value.value, ⟨o', after ++ c :: t⟩)) (done : Entries) (o : Nat) :
    ∃ o', readEntries (fuel + 1) done (skipSpace ⟨o, before ++ (quoted key ++
        (gap ++ ':' :: (inner ++ (value.text ++ (after ++ c :: t)))))⟩) =
      if c = '}' then .ok (done.insert (.str (piecesMeaning key)) value.value, ⟨o', t⟩)
      else if c = ',' then
        readEntries fuel (done.insert (.str (piecesMeaning key)) value.value) (skipSpace ⟨o', t⟩)
      else fault .comma o' := by
  obtain ⟨hb, hkey, hg⟩ := h
  obtain ⟨hi, hvalue, ha⟩ := hv
  obtain ⟨o₁, h₁⟩ := readString_quoted hkey (o + before.length)
    (gap ++ ':' :: (inner ++ (value.text ++ (after ++ c :: t))))
  have skip₁ := skipSpace_run (t := ':' :: (inner ++ (value.text ++ (after ++ c :: t)))) hg
    (stops_cons.2 rfl) o₁
  have skip₂ := skipSpace_run (t := value.text ++ (after ++ c :: t)) hi hvalue.stops_isSpace
    (o₁ + gap.length + 1)
  obtain ⟨o₂, h₂⟩ := read (o₁ + gap.length + 1 + inner.length)
  have skip₃ := skipSpace_run (t := c :: t) ha (stops_cons.2 hc) o₂
  refine ⟨if c = '}' ∨ c = ',' then o₂ + after.length + 1 else o₂ + after.length, ?_⟩
  rw [quoted_append] at h₁ ⊢
  rw [skipSpace_run hb (stops_cons.2 rfl), readEntries]
  simp only [h₁, skip₁, Except.bind, bind]
  simp only [Rest.drop, List.drop_succ_cons, List.drop_zero, skip₂, h₂, skip₃]
  split
  · next he =>
    cases he
    rfl
  · next he =>
    cases he
    rfl
  · next hne₁ hne₂ =>
    have h1 : c ≠ '}' := fun he => hne₁ t (by rw [he])
    have h2 : c ≠ ',' := fun he => hne₂ t (by rw [he])
    simp [h1, h2]

mutual

/-- A value is read off the front of a text that does not continue it. -/
theorem readValue_source (s : Source) (hs : s.IsJson) (fuel : Nat) (hf : s.text.length ≤ fuel)
    (o : Nat) (t : List Char) (ht : Stops continues t) :
    ∃ o', readValue fuel ⟨o, s.text ++ t⟩ = .ok (s.value, ⟨o', t⟩) := by
  obtain ⟨fuel, rfl⟩ : ∃ n, fuel = n + 1 := by
    obtain ⟨c, r, he, -⟩ := hs.exists_front
    exact Nat.exists_eq_succ_of_ne_zero (by rw [he] at hf; exact Nat.ne_zero_of_lt hf)
  cases s with
  | name entry =>
    rw [Source.text, readValue_scalar (exists_front_of_name hs)]
    exact scalar_name hs o t
  | number n =>
    rw [Source.text, readValue_scalar (Numeral.IsJson.exists_front hs)]
    exact ⟨_, scalar_number hs o ht⟩
  | string ps =>
    obtain ⟨o', ho'⟩ := readString_quoted hs o t
    rw [quoted_append] at ho'
    refine ⟨o', ?_⟩
    rw [Source.text, quoted_append, readValue]
    simp only [ho']
    rfl
  | emptyList blank =>
    have skip := skipSpace_run (t := ']' :: t) hs (stops_cons.2 rfl) (o + 1)
    refine ⟨o + 1 + blank.length + 1, ?_⟩
    rw [Source.text, List.cons_append, List.append_assoc, readValue]
    simp only [Rest.drop, List.drop_succ_cons, List.drop_zero, List.singleton_append, skip]
    rfl
  | list items =>
    have hitems : items.IsJson := hs
    have hl : items.text.length < fuel := by simp [Source.text] at hf; omega
    obtain ⟨o', ho'⟩ := readItems_items items hitems fuel hl [] (o + 1) t
    obtain ⟨c, r, hc, hne⟩ := hitems.exists_front (o + 1) (']' :: t)
    refine ⟨o', ?_⟩
    rw [Source.text, List.cons_append, List.append_assoc, readValue]
    simp only [Rest.drop, List.drop_succ_cons, List.drop_zero, List.singleton_append, hc, ho']
    split
    · next he => exact absurd (List.cons.inj he).1 hne
    · rfl
  | emptyMap blank =>
    have skip := skipSpace_run (t := '}' :: t) hs (stops_cons.2 rfl) (o + 1)
    refine ⟨o + 1 + blank.length + 1, ?_⟩
    rw [Source.text, List.cons_append, List.append_assoc, readValue]
    simp only [Rest.drop, List.drop_succ_cons, List.drop_zero, List.singleton_append, skip]
    rfl
  | map members =>
    have hmembers : members.IsJson := hs
    have hl : members.text.length < fuel := by simp [Source.text] at hf; omega
    obtain ⟨o', ho'⟩ := readEntries_members members hmembers fuel hl [] (o + 1) t
    obtain ⟨r, hr⟩ := hmembers.exists_front (o + 1) ('}' :: t)
    refine ⟨o', ?_⟩
    rw [Source.text, List.cons_append, List.append_assoc, readValue]
    simp only [Rest.drop, List.drop_succ_cons, List.drop_zero, List.singleton_append, hr, ho']
    rfl

/-- The items of a list are read up to its end. -/
theorem readItems_items (xs : Items) (hxs : xs.IsJson) (fuel : Nat) (hf : xs.text.length < fuel)
    (done : List Value) (o : Nat) (t : List Char) :
    ∃ o', readItems fuel done (skipSpace ⟨o, xs.text ++ ']' :: t⟩) =
      .ok (done.reverse ++ xs.values, ⟨o', t⟩) := by
  obtain ⟨fuel, rfl⟩ := Nat.exists_eq_succ_of_ne_zero (Nat.ne_zero_of_lt hf)
  cases xs with
  | last before item after =>
    simp only [Items.text, List.length_append] at hf
    obtain ⟨o', ho'⟩ := readItems_item (t := t) (c := ']') hxs rfl fuel (fun o =>
      readValue_source item hxs.2.1 fuel (by omega) o (after ++ ']' :: t)
        (hxs.2.2.stops_continues (stops_cons.2 rfl))) done o
    refine ⟨o', ?_⟩
    simpa [Items.text, Items.values] using ho'
  | more before item after rest =>
    obtain ⟨hitem, hrest⟩ := hxs
    simp only [Items.text, List.length_append, List.length_cons] at hf
    obtain ⟨o₁, h₁⟩ := readItems_item (t := rest.text ++ ']' :: t) (c := ',') hitem rfl fuel (fun o =>
      readValue_source item hitem.2.1 fuel (by omega) o (after ++ ',' :: (rest.text ++ ']' :: t))
        (hitem.2.2.stops_continues (stops_cons.2 rfl))) done o
    obtain ⟨o', ho'⟩ := readItems_items rest hrest fuel (by omega) (item.value :: done) o₁ t
    refine ⟨o', ?_⟩
    rw [if_neg (by decide), if_pos rfl, ho'] at h₁
    simpa [Items.text, Items.values] using h₁

/-- The members of a mapping are read up to its end. -/
theorem readEntries_members (ms : Members) (hms : ms.IsJson) (fuel : Nat)
    (hf : ms.text.length < fuel) (done : Entries) (o : Nat) (t : List Char) :
    ∃ o', readEntries fuel done (skipSpace ⟨o, ms.text ++ '}' :: t⟩) =
      .ok (ms.entries done, ⟨o', t⟩) := by
  obtain ⟨fuel, rfl⟩ := Nat.exists_eq_succ_of_ne_zero (Nat.ne_zero_of_lt hf)
  cases ms with
  | last before key gap inner value after =>
    obtain ⟨hkey, hvalue⟩ := hms
    simp only [Members.text, List.length_append, List.length_cons] at hf
    obtain ⟨o', ho'⟩ := readEntries_member (t := t) (c := '}') hkey hvalue rfl fuel (fun o =>
      readValue_source value hvalue.2.1 fuel (by omega) o (after ++ '}' :: t)
        (hvalue.2.2.stops_continues (stops_cons.2 rfl))) done o
    refine ⟨o', ?_⟩
    simpa [Members.text, Members.entries] using ho'
  | more before key gap inner value after rest =>
    obtain ⟨⟨hkey, hvalue⟩, hrest⟩ := hms
    simp only [Members.text, List.length_append, List.length_cons] at hf
    obtain ⟨o₁, h₁⟩ := readEntries_member (t := rest.text ++ '}' :: t) (c := ',') hkey hvalue rfl
      fuel (fun o => readValue_source value hvalue.2.1 fuel (by omega) o
        (after ++ ',' :: (rest.text ++ '}' :: t))
        (hvalue.2.2.stops_continues (stops_cons.2 rfl))) done o
    obtain ⟨o', ho'⟩ := readEntries_members rest hrest fuel (by omega)
      (done.insert (.str (piecesMeaning key)) value.value) o₁ t
    refine ⟨o', ?_⟩
    rw [if_neg (by decide), if_pos rfl, ho'] at h₁
    simpa [Members.text, Members.entries] using h₁

end

/-! ### What is read is a tree -/

theorem exists_of_bind {ε α β : Type} {x : Except ε α} {f : α → Except ε β} {b : β}
    (h : x >>= f = .ok b) : ∃ a, x = .ok a ∧ f a = .ok b := by
  cases x with
  | error e => cases h
  | ok a => exact ⟨a, rfl, h⟩

theorem chars_drop_one {r : Rest} {c : Char} {s : List Char} (h : r.chars = c :: s) :
    (r.drop 1).chars = s := by
  simp [Rest.drop, h]

theorem exists_quoted {start fuel : Nat} {r r' : Rest} {s : List Char} {str : String}
    (hr : r.chars = '"' :: s) (h : readString start fuel [] (r.drop 1) = .ok (str, r')) :
    ∃ ps, PiecesJson ps ∧ r.chars = quoted ps ++ r'.chars ∧ str = piecesMeaning ps := by
  obtain ⟨ps, hps, hchars, rfl⟩ := exists_of_readString h
  rw [chars_drop_one hr] at hchars
  exact ⟨ps, hps, by rw [hr, hchars, quoted_append], rfl⟩

mutual

/-- What is read as a value is the text of a tree. -/
theorem exists_of_readValue (fuel : Nat) {r r' : Rest} {v : Value}
    (h : readValue fuel r = .ok (v, r')) :
    ∃ s : Source, s.IsJson ∧ r.chars = s.text ++ r'.chars ∧ s.value = v := by
  cases fuel with
  | zero => cases h
  | succ fuel =>
    rw [readValue] at h
    split at h
    · next s hr =>
      obtain ⟨⟨str, r₁⟩, hs, h⟩ := exists_of_bind h
      cases h
      obtain ⟨ps, hps, hchars, rfl⟩ := exists_quoted hr hs
      exact ⟨.string ps, hps, hchars, rfl⟩
    · next s hr =>
      obtain ⟨b, hb, hblank⟩ := exists_skipSpace (r.drop 1)
      rw [chars_drop_one hr] at hblank
      simp only at h
      split at h
      · next s' hs' =>
        cases h
        exact ⟨.emptyMap b, hb, by simp [Source.text, hr, hblank, hs', chars_drop_one hs'], rfl⟩
      · obtain ⟨⟨es, r₁⟩, hm, h⟩ := exists_of_bind h
        cases h
        obtain ⟨ms, hms, hchars, rfl⟩ := exists_of_readEntries fuel hm hb
        exact ⟨.map ms, hms, by simp [Source.text, hr, hblank, hchars], rfl⟩
    · next s hr =>
      obtain ⟨b, hb, hblank⟩ := exists_skipSpace (r.drop 1)
      rw [chars_drop_one hr] at hblank
      simp only at h
      split at h
      · next s' hs' =>
        cases h
        exact ⟨.emptyList b, hb, by simp [Source.text, hr, hblank, hs', chars_drop_one hs'], rfl⟩
      · obtain ⟨⟨vs, r₁⟩, hi, h⟩ := exists_of_bind h
        cases h
        obtain ⟨xs, hxs, hchars, rfl⟩ := exists_of_readItems fuel hi hb
        exact ⟨.list xs, hxs, by simp [Source.text, hr, hblank, hchars], rfl⟩
    · exact exists_of_scalar h

/-- What is read as the items of a list, after some blanks, is the text of items. -/
theorem exists_of_readItems (fuel : Nat) {done vs : List Value} {r r' : Rest}
    (h : readItems fuel done r = .ok (vs, r')) {before : List Char} (hb : IsBlank before) :
    ∃ xs : Items, xs.IsJson ∧ before ++ r.chars = xs.text ++ ']' :: r'.chars ∧
      done.reverse ++ xs.values = vs := by
  cases fuel with
  | zero => cases h
  | succ fuel =>
    rw [readItems] at h
    obtain ⟨⟨v, r₁⟩, hv, h⟩ := exists_of_bind h
    obtain ⟨item, hitem, hr, rfl⟩ := exists_of_readValue fuel hv
    obtain ⟨after, ha, hr₁⟩ := exists_skipSpace r₁
    simp only at h
    split at h
    · next s hs =>
      cases h
      refine ⟨.last before item after, ⟨hb, hitem, ha⟩, ?_, by simp [Items.values]⟩
      simp [Items.text, hr, hr₁, hs, chars_drop_one hs]
    · next s hs =>
      obtain ⟨b, hb', hblank⟩ := exists_skipSpace ((skipSpace r₁).drop 1)
      obtain ⟨xs, hxs, hchars, rfl⟩ := exists_of_readItems fuel h hb'
      rw [chars_drop_one hs] at hblank
      refine ⟨.more before item after xs, ⟨⟨hb, hitem, ha⟩, hxs⟩, ?_, by simp [Items.values]⟩
      simp [Items.text, hr, hr₁, hs, hblank, hchars]
    · cases h

/-- What is read as the entries of a mapping, after some blanks, is the text of members. -/
theorem exists_of_readEntries (fuel : Nat) {done es : Entries} {r r' : Rest}
    (h : readEntries fuel done r = .ok (es, r')) {before : List Char} (hb : IsBlank before) :
    ∃ ms : Members, ms.IsJson ∧ before ++ r.chars = ms.text ++ '}' :: r'.chars ∧
      ms.entries done = es := by
  cases fuel with
  | zero => cases h
  | succ fuel =>
    rw [readEntries] at h
    split at h
    · next s hr =>
      obtain ⟨⟨k, r₁⟩, hk, h⟩ := exists_of_bind h
      obtain ⟨key, hkey, hr, rfl⟩ := exists_quoted hr hk
      obtain ⟨gap, hg, hr₁⟩ := exists_skipSpace r₁
      simp only at h
      split at h
      · next s₁ hs₁ =>
        obtain ⟨inner, hi, hinner⟩ := exists_skipSpace ((skipSpace r₁).drop 1)
        rw [chars_drop_one hs₁] at hinner
        obtain ⟨⟨v, r₂⟩, hv, h⟩ := exists_of_bind h
        obtain ⟨value, hvalue, hr₂, rfl⟩ := exists_of_readValue fuel hv
        obtain ⟨after, ha, hafter⟩ := exists_skipSpace r₂
        simp only at h
        split at h
        · next s₂ hs₂ =>
          cases h
          refine ⟨.last before key gap inner value after, ⟨⟨hb, hkey, hg⟩, hi, hvalue, ha⟩, ?_, rfl⟩
          simp [Members.text, hr, hr₁, hs₁, hinner, hr₂, hafter, hs₂, chars_drop_one hs₂]
        · next s₂ hs₂ =>
          obtain ⟨b, hb', hblank⟩ := exists_skipSpace ((skipSpace r₂).drop 1)
          obtain ⟨ms, hms, hchars, rfl⟩ := exists_of_readEntries fuel h hb'
          rw [chars_drop_one hs₂] at hblank
          refine ⟨.more before key gap inner value after ms,
            ⟨⟨⟨hb, hkey, hg⟩, hi, hvalue, ha⟩, hms⟩, ?_, rfl⟩
          simp [Members.text, hr, hr₁, hs₁, hinner, hr₂, hafter, hs₂, hblank, hchars]
        · cases h
      · cases h
    · cases h

end

/-- A text is read as a value just when it is the text of a tree which stands for the value. -/
theorem read_eq_ok_iff {text : List Char} {v : Value} :
    read text = .ok v ↔ ∃ p : Page, p.IsJson ∧ p.text = text ∧ p.value = v := by
  constructor
  · intro h
    obtain ⟨⟨v', r⟩, hv, h⟩ := exists_of_bind h
    obtain ⟨root, hroot, hr, rfl⟩ := exists_of_readValue _ hv
    obtain ⟨before, hb, hbefore⟩ := exists_skipSpace (.ofText text)
    obtain ⟨after, ha, hafter⟩ := exists_skipSpace r
    simp only at h
    split at h
    · next hend =>
      cases h
      refine ⟨⟨before, root, after⟩, ⟨hb, hroot, ha⟩, ?_, rfl⟩
      rw [List.isEmpty_iff.1 hend, List.append_nil] at hafter
      rw [Page.text, ← hafter, ← hr]
      exact hbefore.symm
    · cases h
  · rintro ⟨p, ⟨hb, hroot, ha⟩, rfl, rfl⟩
    have skip : skipSpace (.ofText p.text) = ⟨0 + p.before.length, p.root.text ++ p.after⟩ :=
      skipSpace_run hb hroot.stops_isSpace 0
    have hlen : p.root.text.length ≤ 2 * p.text.length + 2 := by
      simp only [Page.text, List.length_append]
      omega
    obtain ⟨o, ho⟩ := readValue_source p.root hroot (2 * p.text.length + 2) hlen
      (0 + p.before.length) p.after (by simpa using ha.stops_continues stops_nil)
    have done := skipSpace_run (t := []) ha stops_nil o
    rw [List.append_nil] at done
    rw [read, skip, ho]
    simp only [bind, Except.bind, done]
    rfl

/-- The same of parsing, which tells the place of a fault. -/
theorem parse_eq_ok_iff {text : List Char} {v : Value} :
    parse text = .ok v ↔ ∃ p : Page, p.IsJson ∧ p.text = text ∧ p.value = v := by
  rw [← read_eq_ok_iff, parse]
  cases read text with
  | ok v' => simp
  | error f => simp

end ShellCompletion.Document.Json
