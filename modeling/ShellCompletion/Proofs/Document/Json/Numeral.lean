import Mathlib.Data.List.Basic
import ShellCompletion.Proofs.Document.Json.Source
import ShellCompletion.Proofs.Text.Blank
import ShellCompletion.Proofs.Text.Spans

/-! Numbers at the front of a text in JSON. A number is read as long as it goes, and the main
statements say that it gets the value of its digits: what is read is a numeral, and a numeral is
read whole where the text does not continue it. -/
namespace ShellCompletion

namespace Text

/-! ### Digits -/

theorem isDigit_iff {c : Char} : isDigit c = true ↔ 0x30 ≤ c.toNat ∧ c.toNat ≤ 0x39 := by
  simp only [isDigit, Bool.and_eq_true, decide_eq_true_eq]
  exact Iff.rfl

/-- What holds of the ten digits holds of every digit. -/
theorem of_isDigit {P : Char → Prop} (h : ∀ k < 10, P (Char.ofNat (0x30 + k))) {c : Char}
    (hc : isDigit c = true) : P c := by
  rw [isDigit_iff] at hc
  have := h (c.toNat - 0x30) (by omega)
  rwa [Nat.add_sub_cancel' hc.1, Char.ofNat_toNat] at this

theorem digitValue?_isSome {c : Char} (hc : isDigit c = true) : (digitValue? c).isSome = true :=
  of_isDigit (P := fun c => (digitValue? c).isSome = true) (by decide) hc

theorem lowerChar_of_isDigit {c : Char} (hc : isDigit c = true) : lowerChar c = [c] :=
  of_isDigit (P := fun c => lowerChar c = [c]) (by decide) hc

/-- What begins with a digit has no sign. -/
theorem splitSign_digits {w : List Char} (hw : ∀ c ∈ w, isDigit c = true) (hne : w ≠ []) (t : List Char) :
    splitSign (w ++ t) = (false, w ++ t) := by
  obtain ⟨c, r, rfl⟩ := List.exists_cons_of_ne_nil hne
  have hc : c ≠ '-' ∧ c ≠ '+' :=
    of_isDigit (P := fun c => c ≠ '-' ∧ c ≠ '+') (by decide) (hw c List.mem_cons_self)
  rw [List.cons_append, splitSign]
  · exact fun r he => hc.1 (List.cons.inj he).1
  · exact fun r he => hc.2 (List.cons.inj he).1

theorem trimBy_of_forall {kind : Char → Bool} {s : List Char} (h : ∀ c ∈ s, kind c = false) :
    trimBy kind s = s := by
  have keep {s : List Char} (h : ∀ c ∈ s, kind c = false) : s.dropWhile kind = s := by
    cases s with
    | nil => rfl
    | cons c s => rw [List.dropWhile_cons_of_neg (by simp [h])]
  rw [trimBy, keep h, keep (fun c hc => h c (List.mem_reverse.1 hc)), List.reverse_reverse]

end Text

namespace Binary64

open Text

theorem spanDigits_run {s t : List Char} (hs : ∀ c ∈ s, isDigit c = true)
    (ht : Stops (fun c => (digitValue? c).isSome) t) :
    spanDigits (s ++ t) = (s.filterMap digitValue?, t) := by
  have hs' (c : Char) (hc : c ∈ s) := digitValue?_isSome (hs c hc)
  rw [spanDigits, takeWhile_run hs' ht, dropWhile_run hs' ht]

end Binary64

namespace Document.Json

open Text

theorem filterMap_digits_ne_nil {s : List Char} (hs : ∀ c ∈ s, isDigit c = true) (hne : s ≠ []) :
    s.filterMap digitValue? ≠ [] := by
  obtain ⟨c, r, rfl⟩ := List.exists_cons_of_ne_nil hne
  obtain ⟨d, hd⟩ := Option.isSome_iff_exists.1 (digitValue?_isSome (hs c List.mem_cons_self))
  simp [hd]

theorem length_filterMap_digits {s : List Char} (hs : ∀ c ∈ s, isDigit c = true) :
    (s.filterMap digitValue?).length = s.length := by
  rw [List.length_filterMap_eq_countP, List.countP_eq_length]
  exact fun c hc => digitValue?_isSome (hs c hc)

/-! ### The characters of numerals -/

/-- The characters that numerals are made of. -/
def numeralChars : List Char := "0123456789.eE+-".toList

theorem mem_numeralChars_of_isDigit {c : Char} (hc : isDigit c = true) : c ∈ numeralChars :=
  of_isDigit (P := (· ∈ numeralChars)) (by decide) hc

theorem Power.IsJson.mem_numeralChars {p : Power} (hp : p.IsJson) {c : Char} (hc : c ∈ p.text) :
    c ∈ numeralChars := by
  simp only [Power.text, List.mem_cons, List.mem_append, Option.mem_toList] at hc
  obtain rfl | hc | hc := hc
  · obtain h | h := hp.letter <;> rw [h] <;> decide
  · obtain rfl | rfl := hp.sign c hc <;> decide
  · exact mem_numeralChars_of_isDigit (hp.digits c hc)

namespace Numeral

variable {n : Numeral}

theorem exponent_none (h : n.power = none) : n.exponent = [] := by simp [exponent, h]

theorem exponent_some {p : Power} (h : n.power = some p) : n.exponent = p.text := by
  simp [exponent, h]

theorem IsJson.whole_ne_nil (hn : n.IsJson) : n.whole ≠ [] := by
  obtain h | ⟨c, r, h, -⟩ := hn.whole <;> simp [h]

theorem IsJson.whole_digits (hn : n.IsJson) {c : Char} (hc : c ∈ n.whole) : isDigit c = true :=
  hn.digits c (List.mem_append_left _ hc)

theorem IsJson.places_digits (hn : n.IsJson) {c : Char} (hc : c ∈ n.places) : isDigit c = true :=
  hn.digits c (List.mem_append_right _ hc)

theorem IsJson.mem_numeralChars (hn : n.IsJson) {c : Char} (hc : c ∈ n.text) :
    c ∈ numeralChars := by
  simp only [text, List.mem_append] at hc
  obtain hc | hc | hc | hc := hc
  · unfold sign at hc
    split at hc
    · rw [List.mem_singleton.1 hc]
      decide
    · cases hc
  · exact mem_numeralChars_of_isDigit (hn.whole_digits hc)
  · unfold fraction at hc
    split at hc
    · cases hc
    · obtain rfl | hc := List.mem_cons.1 hc
      · decide
      · exact mem_numeralChars_of_isDigit (hn.places_digits hc)
  · cases hp : n.power with
    | none => simp [exponent_none hp] at hc
    | some p => exact (hn.power p hp).mem_numeralChars (exponent_some hp ▸ hc)

/-- A test that fails for the letters of a power fails at the front of a power. -/
theorem IsJson.stops_exponent {kind : Char → Bool} {t : List Char} (hn : n.IsJson)
    (he : kind 'e' = false) (hE : kind 'E' = false) (ht : Stops kind t) :
    Stops kind (n.exponent ++ t) := by
  cases hp : n.power with
  | none => rwa [exponent_none hp, List.nil_append]
  | some p =>
    rw [exponent_some hp]
    refine stops_cons.2 ?_
    obtain h | h := (hn.power p hp).letter <;> rwa [h]

/-- A test that fails for the point fails at the front of a fraction. -/
theorem stops_fraction {kind : Char → Bool} {t : List Char} (hd : kind '.' = false)
    (ht : Stops kind t) : Stops kind (n.fraction ++ t) := by
  unfold fraction
  split
  · exact ht
  · exact stops_cons.2 hd

/-! ### The value of a numeral -/

theorem IsJson.readPower?_exponent (hn : n.IsJson) :
    Binary64.readPower? n.exponent = some ((n.power.map Power.value).getD 0) := by
  cases hp : n.power with
  | none => rw [exponent_none hp]; rfl
  | some p =>
    obtain ⟨hl, hs, hd, hne⟩ := hn.power p hp
    have letter : (p.letter == 'e' || p.letter == 'E') = true := by simpa using hl
    have digits := Binary64.spanDigits_run (t := []) hd stops_nil
    have split : splitSign (p.sign.toList ++ p.digits) = (p.sign == some '-', p.digits) := by
      cases hsign : p.sign with
      | none =>
        have unsigned := splitSign_digits hd hne []
        rwa [List.append_nil] at unsigned
      | some c => obtain rfl | rfl := hs c hsign <;> rfl
    rw [List.append_nil] at digits
    rw [exponent_some hp, Power.text, Binary64.readPower?, if_pos letter]
    simp only [split, digits, List.isEmpty_nil, Bool.not_true, Bool.or_false]
    rw [if_neg (by simpa using filterMap_digits_ne_nil hd hne)]
    simp [Power.value]

theorem IsJson.readUnsigned?_text (hn : n.IsJson) (negative : Bool) :
    Binary64.readUnsigned? negative (n.whole ++ (n.fraction ++ n.exponent)) =
      some (.ofDecimal negative (valueOf 10 ((n.whole ++ n.places).filterMap digitValue?))
        ((n.power.map Power.value).getD 0 - n.places.length)) := by
  have hexp (kind : Char → Bool) (he : kind 'e' = false) (hE : kind 'E' = false) :
      Stops kind n.exponent := by
    simpa using hn.stops_exponent (t := []) he hE stops_nil
  have hdigit := hexp (fun c => (digitValue? c).isSome) rfl rfl
  have hne := filterMap_digits_ne_nil (fun _ => hn.whole_digits) hn.whole_ne_nil
  rw [Binary64.readUnsigned?,
    Binary64.spanDigits_run (fun _ => hn.whole_digits) (stops_fraction rfl hdigit)]
  simp only
  by_cases hpl : n.places = []
  · have hpoint := hexp (· == '.') rfl rfl
    simp only [fraction, hpl, List.isEmpty_nil, if_true, List.nil_append]
    split
    · next he => simp [he] at hpoint
    · simp [hne, hn.readPower?_exponent]
  · have places := Binary64.spanDigits_run (fun _ => hn.places_digits) hdigit
    have hlen := length_filterMap_digits fun _ => hn.places_digits
    simp [fraction, hpl, places, hne, hn.readPower?_exponent, hlen]

theorem IsJson.splitSign_text (hn : n.IsJson) :
    splitSign n.text = (n.negative, n.whole ++ (n.fraction ++ n.exponent)) := by
  unfold text sign
  split
  · next h => simp [splitSign, h]
  · next h =>
    rw [Bool.not_eq_true] at h
    rw [List.nil_append, splitSign_digits (fun _ => hn.whole_digits) hn.whole_ne_nil, h]

/-- A numeral is no name of infinity or of what is not a number, as it begins with a digit. -/
theorem IsJson.lower_ne (hn : n.IsJson) (t : List Char) (name : String)
    (h : name.toList.head?.all (!isDigit ·) = true) :
    (String.ofList (lower (n.whole ++ t)) == name) = false := by
  obtain ⟨c, r, he⟩ := List.exists_cons_of_ne_nil hn.whole_ne_nil
  have hc := hn.whole_digits (he ▸ List.mem_cons_self)
  have hs : (c == 'Σ') = false := of_isDigit (P := fun c => (c == 'Σ') = false) (by decide) hc
  rw [beq_eq_false_iff_ne]
  rintro rfl
  simp [he, lower, lowerFrom, hs, lowerChar_of_isDigit hc, hc] at h

/-- A numeral is read as the floating-point number nearest to it. -/
theorem IsJson.read?_text (hn : n.IsJson) : Binary64.read? n.text = some n.nearest := by
  have solid : ∀ c ∈ numeralChars, isOuterBlank c = false :=
    List.forall_iff_forall_mem.1 (by decide)
  have named (name : String) (h : name.toList.head?.all (!isDigit ·) = true) :=
    hn.lower_ne (n.fraction ++ n.exponent) name h
  rw [Binary64.read?, trimBy_of_forall fun c hc => solid c (hn.mem_numeralChars hc),
    hn.splitSign_text]
  simp only [named "inf" (by decide), named "infinity" (by decide), named "nan" (by decide),
    Bool.or_false, Bool.false_eq_true, if_false]
  exact hn.readUnsigned?_text n.negative

/-! ### Numerals in a text -/

theorem IsJson.number?_of_parts (hn : n.IsJson) {t : List Char}
    (hw : wholePart (n.whole ++ (n.fraction ++ (n.exponent ++ t))) = n.whole)
    (hf : Json.fraction (n.fraction ++ (n.exponent ++ t)) = n.fraction)
    (he : powerOfTen (n.exponent ++ t) = n.exponent) :
    number? (n.text ++ t) = some (n.value, n.text.length) := by
  have hsign : (if (n.text ++ t).head? == some '-' then ['-'] else []) = n.sign := by
    unfold text sign
    split
    · simp
    · obtain ⟨c, r, hc⟩ := List.exists_cons_of_ne_nil hn.whole_ne_nil
      have hm : c ≠ '-' := of_isDigit (P := (· ≠ '-')) (by decide)
        (hn.whole_digits (hc ▸ List.mem_cons_self))
      simp [hc, hm]
  have all : n.sign ++ n.whole ++ n.fraction ++ n.exponent = n.text := by simp [text]
  have h₁ : (n.text ++ t).drop n.sign.length = n.whole ++ (n.fraction ++ (n.exponent ++ t)) := by
    simp [text]
  have h₂ : (n.text ++ t).drop (n.sign.length + n.whole.length) =
      n.fraction ++ (n.exponent ++ t) := by
    rw [← List.drop_drop, h₁, List.drop_left]
  have whole : (n.fraction.isEmpty && n.exponent.isEmpty) = decide n.IsWhole := by
    cases hp : n.power <;> cases hl : n.places <;>
      simp [IsWhole, fraction, exponent, hp, hl, Power.text]
  unfold number?
  simp only [hsign, h₁, hw, h₂, hf, List.drop_left, he, all, whole, hn.read?_text]
  have empty : n.sign.isEmpty = !n.negative := by cases h : n.negative <;> simp [sign, h]
  rw [if_neg (by simpa using hn.whole_ne_nil), empty, value]
  by_cases hw : n.IsWhole
  · cases h : n.negative <;> simp [hw, wholeValue, h]
  · simp [hw]

theorem wholePart_run {w t : List Char} (hw : w = ['0'] ∨ ∃ c r, w = c :: r ∧ c ≠ '0')
    (hd : ∀ c ∈ w, isDigit c = true) (ht : Stops isDigit t) : wholePart (w ++ t) = w := by
  obtain rfl | ⟨c, r, rfl, hc⟩ := hw
  · rfl
  · rw [List.cons_append, wholePart, ← List.cons_append]
    · exact takeWhile_run hd ht
    · simpa using hc

theorem IsJson.fraction_run (hn : n.IsJson) {t : List Char} (hd : Stops isDigit t)
    (hp : Stops (· == '.') t) : Json.fraction (n.fraction ++ t) = n.fraction := by
  by_cases hpl : n.places = []
  · simp only [fraction, hpl, List.isEmpty_nil, if_true, List.nil_append, Json.fraction]
    split
    · simp at hp
    · rfl
  · have digits := takeWhile_run (fun _ => hn.places_digits) hd
    simp [fraction, hpl, Json.fraction, digits]

def isSign (c : Char) : Bool := c == '+' || c == '-'

theorem powerOfTen_cons {e : Char} (letter : e = 'e' ∨ e = 'E') {sign : Option Char}
    (hs : ∀ c ∈ sign, c = '+' ∨ c = '-') {r : List Char} (hr : sign = none → Stops isSign r) :
    powerOfTen (e :: (sign.toList ++ r)) = if (r.takeWhile isDigit).isEmpty then []
      else e :: (sign.toList ++ r.takeWhile isDigit) := by
  have letter : (e == 'e' || e == 'E') = true := by simpa using letter
  cases hsign : sign with
  | some c => obtain rfl | rfl := hs c hsign <;> simp [powerOfTen, letter]
  | none =>
    cases r with
    | nil => simp [powerOfTen]
    | cons c r =>
      have hc : c ≠ '+' ∧ c ≠ '-' := by simpa [isSign] using hr hsign
      simp [powerOfTen, letter, hc]

theorem stops_isSign_of_digits {ds t : List Char} (hd : ∀ c ∈ ds, isDigit c = true) (hne : ds ≠ []) :
    Stops isSign (ds ++ t) := by
  obtain ⟨c, r, rfl⟩ := List.exists_cons_of_ne_nil hne
  exact stops_cons.2
    (of_isDigit (P := fun c => isSign c = false) (by decide) (hd c List.mem_cons_self))

theorem IsJson.powerOfTen_run (hn : n.IsJson) {t : List Char} (hd : Stops isDigit t)
    (hl : Stops (fun c => c == 'e' || c == 'E') t) : powerOfTen (n.exponent ++ t) = n.exponent := by
  cases hp : n.power with
  | none =>
    rw [exponent_none hp, List.nil_append]
    cases t with
    | nil => rfl
    | cons c t => simp [powerOfTen, stops_cons.1 hl]
  | some p =>
    obtain ⟨letter, sign, digits, written⟩ := hn.power p hp
    have power := powerOfTen_cons letter sign fun _ => stops_isSign_of_digits (t := t) digits written
    rw [takeWhile_run digits hd, if_neg (by simpa using written)] at power
    simpa [exponent_some hp, Power.text] using power

/-- Characters that continue a number. -/
def continues (c : Char) : Bool := isDigit c || c == '.' || c == 'e' || c == 'E'

/-- A numeral is read whole where the text does not continue it. -/
theorem IsJson.number?_text (hn : n.IsJson) {t : List Char} (ht : Stops continues t) :
    number? (n.text ++ t) = some (n.value, n.text.length) := by
  have after (kind : Char → Bool) (hk : ∀ c, continues c = false → kind c = false)
      (he : kind 'e' = false) (hE : kind 'E' = false) : Stops kind (n.exponent ++ t) :=
    hn.stops_exponent he hE (ht.mono hk)
  have digits := after isDigit (by simp +contextual [continues]) rfl rfl
  refine hn.number?_of_parts (wholePart_run hn.whole (fun _ => hn.whole_digits)
    (stops_fraction rfl digits)) (hn.fraction_run digits ?_) (hn.powerOfTen_run ?_ ?_)
  · exact after (· == '.') (by simp +contextual [continues]) rfl rfl
  · exact ht.mono (by simp +contextual [continues])
  · exact ht.mono (by simp +contextual [continues])

/-! ### What is read is a numeral -/

theorem exists_whole (s : List Char) : wholePart s = [] ∨
    ∃ w t, s = w ++ t ∧ wholePart s = w ∧ (w = ['0'] ∨ ∃ c r, w = c :: r ∧ c ≠ '0') ∧
      ∀ c ∈ w, isDigit c = true := by
  unfold wholePart
  split
  · next t => exact .inr ⟨['0'], t, rfl, rfl, .inl rfl, List.forall_mem_singleton.2 rfl⟩
  · next hz =>
    obtain ⟨w, t, rfl, hw, ht⟩ := exists_run isDigit s
    rw [takeWhile_run hw ht]
    cases w with
    | nil => exact .inl rfl
    | cons c r =>
      refine .inr ⟨c :: r, t, rfl, rfl, .inr ⟨c, r, rfl, ?_⟩, hw⟩
      rintro rfl
      exact hz _ rfl

theorem exists_places (s : List Char) : ∃ places t, (∀ c ∈ places, isDigit c = true) ∧
    s = (if places.isEmpty then [] else '.' :: places) ++ t ∧
      Json.fraction s = if places.isEmpty then [] else '.' :: places := by
  unfold Json.fraction
  split
  · next r =>
    obtain ⟨ds, t, rfl, hd, ht⟩ := exists_run isDigit r
    rw [takeWhile_run hd ht]
    cases ds with
    | nil => exact ⟨[], '.' :: t, hd, rfl, rfl⟩
    | cons c ds => exact ⟨c :: ds, t, hd, rfl, rfl⟩
  · exact ⟨[], s, by simp, rfl, rfl⟩

theorem exists_power (s : List Char) : ∃ (power : Option Power) (t : List Char),
    (∀ p ∈ power, p.IsJson) ∧ s = (power.map Power.text).getD [] ++ t ∧
      powerOfTen s = (power.map Power.text).getD [] := by
  have without (h : powerOfTen s = []) : ∃ (power : Option Power) (t : List Char),
      (∀ p ∈ power, p.IsJson) ∧ s = (power.map Power.text).getD [] ++ t ∧
        powerOfTen s = (power.map Power.text).getD [] :=
    ⟨none, s, by simp, rfl, h⟩
  cases s with
  | nil => exact without rfl
  | cons e r =>
    by_cases letter : e = 'e' ∨ e = 'E'
    · obtain ⟨sign, r, hs, hr, rfl⟩ : ∃ (sign : Option Char) (r' : List Char),
          (∀ c ∈ sign, c = '+' ∨ c = '-') ∧ (sign = none → Stops isSign r') ∧
            r = sign.toList ++ r' := by
        by_cases h : Stops isSign r
        · exact ⟨none, r, by simp, fun _ => h, rfl⟩
        · cases r with
          | nil => simp at h
          | cons c r => exact ⟨some c, r, by simpa [isSign, or_iff_not_imp_left] using h, by simp, rfl⟩
      obtain ⟨ds, t, rfl, hd, ht⟩ := exists_run isDigit r
      have power := powerOfTen_cons letter hs hr
      rw [takeWhile_run hd ht] at power
      by_cases hne : ds = []
      · exact without (power.trans (if_pos (by simp [hne])))
      · refine ⟨some ⟨e, sign, ds⟩, t, ?_, by simp [Power.text], ?_⟩
        · rintro p ⟨⟩
          exact ⟨letter, hs, hd, hne⟩
        · exact power.trans (if_neg (by simpa using hne))
    · refine without ?_
      have letter : (e == 'e' || e == 'E') = false := by simpa using letter
      simp [powerOfTen, letter]

/-- What is read as a number is a numeral at the front of the text. -/
theorem exists_of_number? {s : List Char} {v : Value} {size : Nat} (h : number? s = some (v, size)) :
    ∃ n t, IsJson n ∧ s = n.text ++ t ∧ v = n.value ∧ size = n.text.length := by
  obtain ⟨negative, s₁, hs, hsign⟩ : ∃ (negative : Bool) (s₁ : List Char),
      s = (if negative then ['-'] else []) ++ s₁ ∧
        (if s.head? == some '-' then ['-'] else []) = if negative then ['-'] else [] := by
    by_cases hm : s.head? = some '-'
    · exact ⟨true, s.tail, by simpa using (List.cons_head?_tail hm).symm, by simp [hm]⟩
    · exact ⟨false, s, rfl, by simp [hm]⟩
  obtain hw | ⟨w, s₂, rfl, hw, hzero, hd⟩ := exists_whole s₁
  · have front : s.drop (if negative then ['-'] else []).length = s₁ := by rw [hs, List.drop_left]
    simp only [number?, hsign, front, hw, List.isEmpty_nil, if_true] at h
    cases h
  · obtain ⟨places, s₃, hp, rfl, hf⟩ := exists_places s₂
    obtain ⟨power, t, hpow, rfl, he⟩ := exists_power s₃
    let n : Numeral := ⟨negative, w, places, power⟩
    have hn : n.IsJson := ⟨hzero, fun c hc => (List.mem_append.1 hc).elim (hd c) (hp c), hpow⟩
    have hs' : s = n.text ++ t := by simp [hs, text, n, sign, fraction, exponent]
    rw [hs', hn.number?_of_parts hw hf he] at h
    cases h
    exact ⟨n, t, hn, hs', rfl, rfl⟩

end Numeral

end Document.Json

end ShellCompletion
