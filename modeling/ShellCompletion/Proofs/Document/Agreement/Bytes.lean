import ShellCompletion.Proofs.Document.Agreement.Graph
import ShellCompletion.Proofs.Document.Yaml.Settling

/-! Bytes that hold a text in JSON. Neither reader takes them for bytes of a wider encoding,
as there is no zero and no mark among the first ones. The main statements say that both readers read
the text, and that both give its value. -/
namespace ShellCompletion.Document

open Text

/-! ### First bytes -/

theorem decodeFrom_eq_map (e : Encoding) (fuel start : Nat) (bytes : List UInt8) (done : List Char) :
    decodeFrom e fuel start bytes done = (decodeFrom e fuel start bytes []).map (done.reverse ++ ·) := by
  induction fuel generalizing start bytes done with
  | zero => simp [decodeFrom, Except.map]
  | succ fuel ih =>
    cases bytes with
    | nil => simp [decodeFrom, Except.map]
    | cons b rest =>
      simp only [decodeFrom]
      cases e.front b rest with
      | fault f size => rfl
      | char c size =>
        simp only
        rw [ih _ _ (c :: done), ih _ _ [c]]
        cases decodeFrom e fuel (start + size) (rest.drop (size - 1)) [] with
        | error e => rfl
        | ok more => simp [Except.map]

/-- The first byte begins the first character. -/
theorem exists_front_of_decode {e : Encoding} {start : Nat} {b : UInt8} {rest : List UInt8}
    {text : List Char} (h : decode e start (b :: rest) = .ok text) :
    ∃ c size more, e.front b rest = .char c size ∧ text = c :: more ∧
      decodeFrom e rest.length (start + size) (rest.drop (size - 1)) [] = .ok more := by
  rw [decode, List.length_cons, decodeFrom] at h
  cases hf : e.front b rest with
  | fault f size =>
    rw [hf] at h
    cases h
  | char c size =>
    rw [hf] at h
    simp only at h
    rw [decodeFrom_eq_map] at h
    cases hd : decodeFrom e rest.length (start + size) (rest.drop (size - 1)) [] with
    | error e =>
      rw [hd] at h
      cases h
    | ok more =>
      rw [hd] at h
      exact ⟨c, size, more, rfl, (Except.ok.inj h).symm, hd⟩

theorem le_of_utf8Lead {n k low high : Nat} (h : utf8Lead n = some (k + 1, low, high)) : 0x80 ≤ low := by
  unfold utf8Lead at h
  grind

/-- A zero does not continue a character. -/
theorem size_eq_one_of_front {b : UInt8} {rest : List UInt8} {c : Char} {size : Nat}
    (h : utf8Front b (0 :: rest) = .char c size) : size = 1 := by
  simp only [utf8Front] at h
  split at h
  · cases h
  · cases h
    rfl
  · next k low high hne hlead =>
    cases k with
    | zero => exact absurd rfl hne
    | succ k =>
      have := le_of_utf8Lead hlead
      rw [utf8Tail, if_neg (by simp; omega)] at h
      cases h

/-- A text without the character zero that does not begin with a mark: its first bytes are not
those of a wider encoding, and no mark. -/
structure Bare (bytes : List UInt8) (text : List Char) : Prop where
  decoded : decode .utf8 0 bytes = .ok text
  zero : '\x00' ∉ text
  mark : text.head? ≠ some '\uFEFF'

namespace Bare

variable {b c : UInt8} {rest bytes : List UInt8} {text : List Char}

theorem ne_zero (h : Bare (b :: rest) text) : b ≠ 0 := by
  rintro rfl
  obtain ⟨c, size, more, hf, rfl, -⟩ := exists_front_of_decode h.decoded
  have front : Encoding.front .utf8 0 rest = .char '\x00' 1 := rfl
  rw [front] at hf
  cases hf
  exact h.zero List.mem_cons_self

theorem second_ne_zero (h : Bare (b :: c :: rest) text) : c ≠ 0 := by
  rintro rfl
  obtain ⟨c, size, more, hf, rfl, hd⟩ := exists_front_of_decode h.decoded
  obtain rfl := size_eq_one_of_front hf
  have decoded : decode .utf8 (0 + 1) (0 :: rest) = .ok more := hd
  obtain ⟨c', size', more', hf', rfl, -⟩ := exists_front_of_decode decoded
  have front : Encoding.front .utf8 0 rest = .char '\x00' 1 := rfl
  rw [front] at hf'
  cases hf'
  exact h.zero (List.mem_cons_of_mem c List.mem_cons_self)

theorem ne_wide (h : Bare (b :: rest) text) : b ≠ 0xFF ∧ b ≠ 0xFE := by
  constructor <;>
  · rintro rfl
    obtain ⟨c, size, more, hf, -⟩ := exists_front_of_decode h.decoded
    cases hf

theorem ne_mark (h : Bare bytes text) (rest : List UInt8) : bytes ≠ 0xEF :: 0xBB :: 0xBF :: rest := by
  rintro rfl
  obtain ⟨c, size, more, hf, rfl, -⟩ := exists_front_of_decode h.decoded
  have front : Encoding.front .utf8 0xEF (0xBB :: 0xBF :: rest) = .char '\uFEFF' 3 := rfl
  rw [front] at hf
  cases hf
  exact h.mark rfl

theorem find?_encodingMarks (h : Bare bytes text) :
    (Json.encodingMarks.find? fun m => m.1.isPrefixOf bytes) = none := by
  rw [List.find?_eq_none]
  intro m hm hp
  obtain ⟨rest, rfl⟩ := List.isPrefixOf_iff_prefix.1 hp
  simp only [Json.encodingMarks, List.mem_cons, List.not_mem_nil, or_false] at hm
  obtain rfl | rfl | rfl | rfl | rfl := hm
  · exact h.ne_zero rfl
  · exact h.ne_wide.1 rfl
  · exact h.ne_wide.2 rfl
  · exact h.ne_wide.1 rfl
  · exact h.ne_mark _ rfl

theorem unmarkedEncoding_eq (h : Bare bytes text) : Json.unmarkedEncoding bytes = .utf8 := by
  unfold Json.unmarkedEncoding
  split
  · rw [if_neg (by simpa using h.ne_zero), if_neg (by simpa using h.second_ne_zero)]
  · rw [if_neg (by simpa using h.ne_zero), if_neg (by simpa using h.second_ne_zero)]
  · rfl

theorem json_encodingOf (h : Bare bytes text) : Json.encodingOf bytes = (.utf8, 0) := by
  rw [Json.encodingOf, h.find?_encodingMarks, h.unmarkedEncoding_eq]

theorem yaml_encodingOf (h : Bare bytes text) : Yaml.encodingOf bytes = .utf8 := by
  unfold Yaml.encodingOf
  split
  · exact absurd rfl h.ne_wide.1
  · exact absurd rfl h.ne_wide.2
  · rfl

end Bare

/-! ### Both readers -/

theorem Json.read_mark (text : List Char) : Json.read ('\uFEFF' :: text) = .error ⟨.value, 0⟩ := rfl

namespace Json.Page.IsJson

variable {p : Page} {bytes : List UInt8}

theorem bare (hp : p.IsJson) (decoded : decode .utf8 0 bytes = .ok p.text) : Bare bytes p.text := by
  refine ⟨decoded, fun hz => hp.ne_zero _ hz rfl, fun hm => ?_⟩
  obtain ⟨rest, hr⟩ := List.head?_eq_some_iff.1 hm
  have value := parse_eq_ok_iff.2 ⟨p, hp, rfl, rfl⟩
  rw [hr, parse, read_mark] at value
  cases value

/-- Bytes of a text in JSON have its value as JSON. -/
theorem json_ofBytes (hp : p.IsJson) (decoded : decode .utf8 0 bytes = .ok p.text) :
    Json.ofBytes bytes = .ok p.value := by
  rw [Json.ofBytes, (hp.bare decoded).json_encodingOf]
  simp only [if_pos, List.drop_zero, decoded]
  exact parse_eq_ok_iff.2 ⟨p, hp, rfl, rfl⟩

/-- Bytes of a text in JSON are read as the text as YAML. -/
theorem yaml_ofBytes (hp : p.IsJson) (decoded : decode .utf8 0 bytes = .ok p.text) :
    Yaml.ofBytes bytes = Yaml.parse p.text := by
  rw [Yaml.ofBytes, (hp.bare decoded).yaml_encodingOf, decoded]

/-- A plain text in JSON has its value in YAML. -/
theorem yaml_parse (hp : p.IsJson) (h : p.IsPlain) : Yaml.parse p.text = .ok p.value := by
  obtain ⟨nodes, f, graph, new, stands, value⟩ := hp.graph h
  have allowed : p.text.findIdx? (!Yaml.isAllowed ·) = none :=
    List.findIdx?_eq_none_iff.2 fun c hc => by simp [hp.allowed h c hc]
  rw [Yaml.parse, allowed]
  simp only [graph, Yaml.valueOfGraph_eq stands new, value]

end Json.Page.IsJson

end ShellCompletion.Document
