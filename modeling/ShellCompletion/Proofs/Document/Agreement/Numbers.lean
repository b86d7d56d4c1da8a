import ShellCompletion.Proofs.Document.Json.Plain
import ShellCompletion.Proofs.Document.Yaml.Standing
import ShellCompletion.Proofs.Number.Decimal

/-! Names and numbers in JSON as plain scalars in YAML. A numeral without a power of ten looks the
same in both, and one with a power does if it has a point and a sign of the power. The main
statements say that the tag which a word gets by its looks gives it the value that it has in JSON. -/
namespace ShellCompletion.Document

open Text

/-! ### Looks -/

namespace Yaml

theorem plainTag_of_looks {s : List Char} (h : '\n' ∉ s) :
    plainTag s = ((looks.find? fun l => l.1 s).map (·.2)).getD .str := by
  have same : dropLastNewline s = s := by
    rw [dropLastNewline, if_neg]
    intro hl
    simp only [Bool.and_eq_true, beq_iff_eq] at hl
    exact h (List.mem_of_getLast? hl.1)
  rw [plainTag, same]
  simp only [Bool.or_self]
  cases looks.find? fun l => l.1 s <;> rfl

theorem spanLinedDigits_run {w t : List Char} (hw : ∀ c ∈ w, isDigit c = true) (hne : w ≠ [])
    (ht : Stops isDigitOrLine t) : spanLinedDigits (w ++ t) = some t := by
  obtain ⟨c, r, rfl⟩ := List.exists_cons_of_ne_nil hne
  have hr : ∀ x ∈ r, isDigitOrLine x = true := fun x hx => by
    simp [isDigitOrLine, hw x (List.mem_cons_of_mem c hx)]
  rw [List.cons_append, spanLinedDigits, if_pos (hw c List.mem_cons_self), dropWhile_run hr ht]

end Yaml

namespace Json.Numeral

open Yaml

variable {n : Numeral}

/-- A word with a character that is in no numeral is no part of a numeral. -/
theorem not_contains {s : List Char} (hs : ∀ c ∈ s, c ∈ numeralChars) {ws : List String}
    (hws : ∀ w ∈ ws, w.toList.any (!numeralChars.contains ·) = true) : ws.contains (String.ofList s) = false := by
  rw [List.contains_eq_mem, decide_eq_false_iff_not]
  intro hmem
  obtain ⟨c, hc, hc'⟩ := List.any_eq_true.1 (hws _ hmem)
  rw [String.toList_ofList] at hc
  simp [hs c hc] at hc'

theorem no_colon {s : List Char} (hs : ∀ c ∈ s, c ∈ numeralChars) : s.contains ':' = false := by
  rw [List.contains_eq_mem, decide_eq_false_iff_not]
  exact fun h => absurd (hs ':' h) (by decide)

/-- A numeral without its sign. -/
def body (n : Numeral) : List Char := n.whole ++ (n.fraction ++ n.exponent)

theorem IsJson.exists_body (hn : n.IsJson) : ∃ c r, n.body = c :: r ∧ isDigit c = true := by
  obtain ⟨c, r, he⟩ := List.exists_cons_of_ne_nil hn.whole_ne_nil
  exact ⟨c, r ++ (n.fraction ++ n.exponent), by rw [body, he]; rfl,
    hn.whole_digits (he ▸ List.mem_cons_self)⟩

theorem text_eq (n : Numeral) : n.text = if n.negative then '-' :: n.body else n.body := by
  cases h : n.negative <;> simp [text, sign, body, h]

theorem IsJson.dropSign_text (hn : n.IsJson) : dropSign n.text = n.body := by
  obtain ⟨c, r, hc, hd⟩ := hn.exists_body
  rw [text_eq]
  split
  · rfl
  · have hs : Yaml.isSign c = false := of_isDigit (P := fun c => Yaml.isSign c = false) (by decide) hd
    rw [hc, dropSign, if_neg (by simp [hs])]

/-! ### Whole numbers -/

theorem IsJson.body_of_isWhole (hw : n.IsWhole) : n.body = n.whole := by
  simp [body, fraction, exponent, hw.1, hw.2]

theorem IsJson.newline_not_mem (hn : n.IsJson) : '\n' ∉ n.text := fun h =>
  absurd (hn.mem_numeralChars h) (by decide)

/-- A numeral does not begin with a point. -/
theorem IsJson.point_ne (hn : n.IsJson) (r : List Char) : n.text ≠ '.' :: r := by
  obtain ⟨c, r', hc, hd⟩ := hn.exists_body
  rw [text_eq]
  split
  · simp
  · rw [hc]
    rintro h
    rw [(List.cons.inj h).1] at hd
    exact absurd hd (by decide)

theorem IsJson.isBool_text (hn : n.IsJson) : isBool n.text = false :=
  not_contains (fun _ => hn.mem_numeralChars) (by decide)

theorem IsJson.isFloat_whole (hn : n.IsJson) (hw : n.IsWhole) : isFloat n.text = false := by
  have lined := spanLinedDigits_run (t := []) (fun _ => hn.whole_digits) hn.whole_ne_nil stops_nil
  rw [List.append_nil] at lined
  have noNaN : [".nan", ".NaN", ".NAN"].contains (String.ofList n.text) = false :=
    not_contains (fun _ => hn.mem_numeralChars) (by decide)
  have noInf : [".inf", ".Inf", ".INF"].contains (String.ofList n.whole) = false :=
    not_contains (fun _ hc => mem_numeralChars_of_isDigit (hn.whole_digits hc)) (by decide)
  unfold isFloat
  simp only [hn.dropSign_text, IsJson.body_of_isWhole hw, lined, noNaN, noInf, Option.bind_some,
    Bool.or_false, Bool.false_or]
  split
  · next r he => exact absurd he (hn.point_ne r)
  · rfl

/-- A whole part is zero, or it does not begin as a number of another base. -/
theorem IsJson.whole_eq_or_ne (hn : n.IsJson) : n.whole = ['0'] ∨ ∀ r, n.whole ≠ '0' :: r := by
  obtain he | ⟨c, r, he, hc⟩ := hn.whole
  · exact .inl he
  · exact .inr fun r' h => hc (List.cons.inj (he.symm.trans h)).1

theorem IsJson.isInt_whole (hn : n.IsJson) (hw : n.IsWhole) : isInt n.text = true := by
  have lined := spanLinedDigits_run (t := []) (fun _ => hn.whole_digits) hn.whole_ne_nil stops_nil
  rw [List.append_nil] at lined
  unfold isInt
  simp only [hn.dropSign_text, IsJson.body_of_isWhole hw]
  obtain he | based := hn.whole_eq_or_ne
  · rw [he]
    rfl
  · split
    · rfl
    · next h => exact absurd h (based _)
    · next h => exact absurd h (based _)
    · next h => exact absurd h (based _)
    · simp [lined]

theorem digitsOf?_run {w : List Char} (hw : ∀ c ∈ w, isDigit c = true) :
    digitsOf? 10 w = some (w.filterMap digitValue?) := by
  induction w with
  | nil => rfl
  | cons c w ih =>
    simp only [List.mem_cons, forall_eq_or_imp] at hw
    have same : baseDigit? 10 c = digitValue? c :=
      of_isDigit (P := fun c => baseDigit? 10 c = digitValue? c) (by decide) hw.1
    obtain ⟨k, hk⟩ := Option.isSome_iff_exists.1 (digitValue?_isSome hw.1)
    have rest := ih hw.2
    rw [digitsOf?] at rest
    rw [digitsOf?, List.mapM_cons, rest, List.filterMap_cons, same, hk]
    rfl

theorem dropBaseMark_ten (s : List Char) : dropBaseMark 10 s = s := by
  unfold dropBaseMark
  split <;> rfl

/-- Digits are read as the number that they stand for. -/
theorem readInt?_run {w : List Char} (hw : ∀ c ∈ w, isDigit c = true) (hne : w ≠ []) :
    readInt? 10 w = some (valueOf 10 (w.filterMap digitValue?) : Nat) := by
  have solid (c : Char) (hc : c ∈ w) : isOuterBlank c = false :=
    of_isDigit (P := fun c => isOuterBlank c = false) (by decide) (hw c hc)
  have unsigned := splitSign_digits hw hne []
  rw [List.append_nil] at unsigned
  simp [readInt?, trimBy_of_forall solid, unsigned, dropBaseMark_ten, hne, digitsOf?_run hw]

theorem IsJson.unsignedInt_whole (hn : n.IsJson) :
    unsignedInt n.whole = .ok (valueOf 10 (n.whole.filterMap digitValue?) : Nat) := by
  have digits (c : Char) (hc : c ∈ n.whole) : isDigit c = true := hn.whole_digits hc
  obtain he | based := hn.whole_eq_or_ne
  · rw [he]
    rfl
  · have colon := no_colon fun c hc => mem_numeralChars_of_isDigit (digits c hc)
    unfold unsignedInt
    split
    · next h => exact absurd h hn.whole_ne_nil
    · next h => exact absurd h (based _)
    · next h => exact absurd h (based _)
    · next h => exact absurd h (based _)
    · next h => exact absurd h (based _)
    · rw [if_neg (by rw [colon]; exact Bool.false_ne_true), readBase, readInt?_run digits hn.whole_ne_nil]
      rfl

theorem IsJson.withoutLines_text (hn : n.IsJson) : withoutLines n.text = n.text := by
  have all : ∀ c ∈ numeralChars, (c != '_') = true := List.forall_iff_forall_mem.1 (by decide)
  exact List.filter_eq_self.2 fun c hc => all c (hn.mem_numeralChars hc)

/-- The first character of a numeral is its sign, or a digit. -/
theorem IsJson.exists_front_text (hn : n.IsJson) : ∃ c r, n.text = c :: r ∧
    (if Yaml.isSign c then r else c :: r) = n.body ∧ (c == '-') = n.negative := by
  obtain ⟨c, r, hc, hd⟩ := hn.exists_body
  cases h : n.negative with
  | true => exact ⟨'-', n.body, by simp [text_eq, h], rfl, rfl⟩
  | false =>
    have hs : Yaml.isSign c = false ∧ (c == '-') = false :=
      of_isDigit (P := fun c => Yaml.isSign c = false ∧ (c == '-') = false) (by decide) hd
    exact ⟨c, r, by simp [text_eq, h, hc], by rw [hs.1, hc]; rfl, hs.2⟩

theorem IsJson.intValue_whole (hn : n.IsJson) (hw : n.IsWhole) : intValue n.text = .ok n.wholeValue := by
  obtain ⟨c, r, ht, hb, hneg⟩ := hn.exists_front_text
  rw [intValue, hn.withoutLines_text, ht]
  simp only [hb, IsJson.body_of_isWhole hw, hn.unsignedInt_whole, bind, Except.bind, hneg]
  rfl

theorem IsJson.means_whole (hn : n.IsJson) (hw : n.IsWhole) : (plainTag n.text).Means n.text n.value := by
  have tag : plainTag n.text = .int := by
    rw [plainTag_of_looks hn.newline_not_mem]
    simp [looks, List.find?, hn.isBool_text, hn.isFloat_whole hw, hn.isInt_whole hw]
  rw [tag, value, if_pos hw]
  exact ⟨n.wholeValue, hn.intValue_whole hw, rfl⟩

/-! ### Numbers with a point -/

theorem IsPlain.places_ne_nil (h : n.IsPlain) (hw : ¬n.IsWhole) : n.places ≠ [] := by
  intro hp
  cases hpow : n.power with
  | none => exact hw ⟨hp, hpow⟩
  | some p => exact (h p hpow).1 hp

/-- The power of ten at the end of a plain numeral has the look of one. -/
theorem IsJson.isPower_exponent (hn : n.IsJson) (h : n.IsPlain) : isPower n.exponent = true := by
  cases hp : n.power with
  | none => rw [exponent_none hp]; rfl
  | some p =>
    obtain ⟨hl, hs, hd, hne⟩ := hn.power p hp
    obtain ⟨c, hc⟩ := Option.ne_none_iff_exists'.1 (h p hp).2
    have letter : (p.letter == 'e' || p.letter == 'E') = true := by simpa using hl
    have sign : Yaml.isSign c = true := by
      obtain rfl | rfl := hs c hc <;> rfl
    rw [exponent_some hp, Power.text, hc]
    simpa [isPower, letter, sign, hne] using hd

theorem IsJson.isFloat_text (hn : n.IsJson) (h : n.IsPlain) (hw : ¬n.IsWhole) :
    isFloat n.text = true := by
  have hplaces := h.places_ne_nil hw
  have point : n.fraction = '.' :: n.places := by simp [fraction, hplaces]
  have lined := spanLinedDigits_run (t := n.fraction ++ n.exponent) (fun _ => hn.whole_digits)
    hn.whole_ne_nil (by rw [point]; exact stops_cons.2 rfl)
  have places : (n.places ++ n.exponent).dropWhile isDigitOrLine = n.exponent := by
    refine dropWhile_run (fun c hc => by simp [isDigitOrLine, hn.places_digits hc]) ?_
    have stops : Stops isDigitOrLine (n.exponent ++ []) := hn.stops_exponent rfl rfl stops_nil
    simpa using stops
  unfold isFloat
  simp only [hn.dropSign_text, body, lined]
  simp only [point, List.cons_append, places, hn.isPower_exponent h, Bool.true_or]

/-- A numeral with a small letter before its power of ten. -/
def lowered (n : Numeral) : Numeral := { n with power := n.power.map fun p => { p with letter := 'e' } }

theorem IsJson.lowered (hn : n.IsJson) : n.lowered.IsJson := by
  refine ⟨hn.whole, hn.digits, fun p hp => ?_⟩
  obtain ⟨q, hq, rfl⟩ := Option.map_eq_some_iff.1 hp
  exact ⟨.inl rfl, (hn.power q hq).sign, (hn.power q hq).digits, (hn.power q hq).written⟩

theorem nearest_lowered (n : Numeral) : n.lowered.nearest = n.nearest := by
  cases h : n.power <;> simp [nearest, Numeral.lowered, h, Power.value]

theorem flatMap_lowerChar_digits {w : List Char} (hw : ∀ c ∈ w, isDigit c = true) :
    w.flatMap lowerChar = w := by
  induction w with
  | nil => rfl
  | cons c w ih =>
    simp only [List.mem_cons, forall_eq_or_imp] at hw
    rw [List.flatMap_cons, lowerChar_of_isDigit hw.1, ih hw.2]
    rfl

theorem IsJson.flatMap_lowerChar_exponent (hn : n.IsJson) :
    n.exponent.flatMap lowerChar = n.lowered.exponent := by
  cases hp : n.power with
  | none => simp [exponent, Numeral.lowered, hp]
  | some p =>
    obtain ⟨hl, hs, hd, -⟩ := hn.power p hp
    have letter : lowerChar p.letter = ['e'] := by obtain h | h := hl <;> rw [h] <;> rfl
    have sign : p.sign.toList.flatMap lowerChar = p.sign.toList := by
      cases hsign : p.sign with
      | none => rfl
      | some c => obtain rfl | rfl := hs c hsign <;> rfl
    simp [exponent, Numeral.lowered, hp, Power.text, letter, sign, flatMap_lowerChar_digits hd]

theorem IsJson.lower_text (hn : n.IsJson) : lower n.text = n.lowered.text := by
  have sigma : 'Σ' ∉ n.text := fun h => absurd (hn.mem_numeralChars h) (by decide)
  have sign : n.sign.flatMap lowerChar = n.sign := by cases h : n.negative <;> simp [Numeral.sign, h]; rfl
  have fraction : n.fraction.flatMap lowerChar = n.fraction := by
    unfold Numeral.fraction
    split
    · rfl
    · rw [List.flatMap_cons, flatMap_lowerChar_digits fun _ => hn.places_digits]
      rfl
  rw [lower_of_not_mem sigma, text, List.flatMap_append, List.flatMap_append, List.flatMap_append, sign,
    flatMap_lowerChar_digits fun _ => hn.whole_digits, fraction, hn.flatMap_lowerChar_exponent]
  rfl

/-- A numeral in small letters is the floating-point number nearest to it. -/
theorem IsJson.floatValue_of_lower (hn : n.IsJson) {s : List Char} (hs : lower (withoutLines s) = n.text)
    (k : Nat) : floatValue k s = .ok n.nearest := by
  obtain ⟨c, r, ht, hb, hneg⟩ := hn.exists_front_text
  obtain ⟨d, q, hd, hdigit⟩ := hn.exists_body
  have read : Binary64.read? n.body =
      some (.ofDecimal false (valueOf 10 ((n.whole ++ n.places).filterMap digitValue?))
        ((n.power.map Power.value).getD 0 - n.places.length)) := by
    have unsigned : ({ n with negative := false } : Numeral).IsJson := ⟨hn.whole, hn.digits, hn.power⟩
    have h := unsigned.read?_text
    rwa [text_eq, if_neg Bool.false_ne_true] at h
  have colon : n.body.contains ':' = false := no_colon fun c hc =>
    hn.mem_numeralChars (by rw [text_eq]; split <;> simp [hc])
  have point : d ≠ '.' := of_isDigit (P := (· ≠ '.')) (by decide) hdigit
  have unsigned : unsignedFloat n.body = .ok (.ofDecimal false
      (valueOf 10 ((n.whole ++ n.places).filterMap digitValue?))
      ((n.power.map Power.value).getD 0 - n.places.length)) := by
    rw [unsignedFloat, if_neg (by simp [hd, point]), if_neg (by simp [hd, nanName, point]),
      if_neg (by rw [colon]; exact Bool.false_ne_true), readPart, read]
  rw [floatValue, hs, ht]
  simp only [hb, unsigned, bind, Except.bind, Binary64.isNaN_ofDecimal, Bool.false_eq_true, if_false, hneg]
  cases h : n.negative with
  | false => simp [nearest, h, pure, Except.pure]
  | true => simp [nearest, h, pure, Except.pure, Binary64.neg_ofDecimal]

theorem IsJson.means_float (hn : n.IsJson) (h : n.IsPlain) (hw : ¬n.IsWhole) :
    (plainTag n.text).Means n.text n.value := by
  have tag : plainTag n.text = .float := by
    rw [plainTag_of_looks hn.newline_not_mem]
    simp [looks, List.find?, hn.isBool_text, hn.isFloat_text h hw]
  rw [tag, value, if_neg hw]
  refine ⟨n.nearest, fun k => ?_, rfl⟩
  rw [hn.lowered.floatValue_of_lower (by rw [hn.withoutLines_text, hn.lower_text]), nearest_lowered]

/-- A plain numeral gets the value that it has in JSON. -/
theorem IsJson.means (hn : n.IsJson) (h : n.IsPlain) : (plainTag n.text).Means n.text n.value := by
  by_cases hw : n.IsWhole
  · exact hn.means_whole hw
  · exact hn.means_float h hw

end Json.Numeral

/-- A name other than that of a floating-point number gets the value that it has in JSON. -/
theorem Json.means_name {entry : List Char × Value} (h : entry ∈ names) (hp : ∀ x, entry.2 ≠ .float x) :
    (Yaml.plainTag entry.1).Means entry.1 entry.2 := by
  simp only [names, List.mem_cons, List.not_mem_nil, or_false] at h
  obtain rfl | rfl | rfl | rfl | rfl | rfl := h
  · have tag : Yaml.plainTag "null".toList = .null := by decide +kernel
    rw [tag]
    rfl
  · have tag : Yaml.plainTag "true".toList = .bool := by decide +kernel
    rw [tag]
    exact ⟨true, by decide +kernel, rfl⟩
  · have tag : Yaml.plainTag "false".toList = .bool := by decide +kernel
    rw [tag]
    exact ⟨false, by decide +kernel, rfl⟩
  all_goals exact absurd rfl (hp _)

end ShellCompletion.Document
