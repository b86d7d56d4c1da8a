import ShellCompletion.Proofs.Schema.Visits
import ShellCompletion.Proofs.Text.Numeral

/-! Places of a document by their written form. The keys of a plain place are words, so that its
written form can be read back, and a place is followed from the root of a document through keys
and element numbers. The main statements say that the written form of a plain place is read as
that place, and that the place of a mapping that a check comes to leads to that mapping. -/
namespace ShellCompletion.Schema

open Document

/-! ### The written form from the front -/

/-- A step as it is written after others. -/
def Step.chars : Step → List Char
  | .key name => '.' :: name.toList
  | .item index => '[' :: (toString index).toList ++ [']']

namespace Path

theorem toList_step {text : String} (h : text ≠ "") (s : Step) :
    (step text s).toList = text.toList ++ s.chars := by
  cases s with
  | key name => simp [step, Step.chars, h]
  | item index =>
    rw [step, String.toList_append, String.toList_append, String.toList_append, List.append_assoc,
      List.append_assoc]
    rfl

theorem step_ne_empty {text : String} (h : text ≠ "") (s : Step) : step text s ≠ "" := by
  rw [ne_eq, ← String.toList_eq_nil_iff, toList_step h]
  simp [h]

/-- After a text that is not empty, each step is written in the same way. -/
theorem toList_foldl_step {text : String} (h : text ≠ "") (p : Path) :
    (p.foldl step text).toList = text.toList ++ p.flatMap Step.chars := by
  induction p generalizing text with
  | nil => simp
  | cons s p ih =>
    rw [List.foldl_cons, ih (step_ne_empty h s), toList_step h, List.flatMap_cons, List.append_assoc]

/-- The first key of a place is written without a point before it. -/
theorem toList_text_key {name : String} (h : name ≠ "") (p : Path) :
    (text (.key name :: p)).toList = name.toList ++ p.flatMap Step.chars := by
  have hs : step "" (.key name) = name := by simp [step]
  rw [text, List.foldl_cons, hs, toList_foldl_step h]

/-! ### Reading -/

/-- Characters of words: they are no marks of a written place. -/
def isWordChar (c : Char) : Bool := c.isAlphanum || c == '_'

def isWord (name : String) : Bool := !name.isEmpty && name.toList.all isWordChar

/-- The number that is written before a closing bracket. -/
def number? (s : List Char) : Option Nat :=
  match s.reverse with
  | ']' :: digits =>
    if digits.all Char.isDigit then some (Nat.ofDigitChars 10 digits.reverse 0) else none
  | _ => none

/-- Read steps from the end: what stands before the first mark, and the steps after it. -/
def readFrom : List Char → List Char × Option Path
  | [] => ([], some [])
  | c :: s =>
    let (pending, p) := readFrom s
    if c == '.' then
      ([], if isWord (String.ofList pending) then p.map (.key (String.ofList pending) :: ·) else none)
    else if c == '[' then ([], (number? pending).bind fun i => p.map (.item i :: ·))
    else (c :: pending, p)

/-- Read the written form of a place that begins with a key. -/
def read? (s : String) : Option Path := (readFrom ('.' :: s.toList)).2

/-- A place that begins with a key and whose keys are words. -/
structure IsPlain (p : Path) : Prop where
  starts : ∃ name q, p = .key name :: q
  words : ∀ name, .key name ∈ p → isWord name = true

/-- A key after the keys that lead to a mapping. -/
theorem isPlain_key {p : Path} (hs : p = [] ∨ ∃ name q, p = .key name :: q)
    (hw : ∀ name, .key name ∈ p → isWord name = true) {name : String} (hn : isWord name = true) :
    (p.key name).IsPlain := by
  refine ⟨?_, fun other h => ?_⟩
  · rcases hs with rfl | ⟨first, q, rfl⟩
    · exact ⟨name, [], rfl⟩
    · exact ⟨first, q ++ [.key name], rfl⟩
  · rcases List.mem_append.1 h with h | h
    · exact hw other h
    · cases List.mem_singleton.1 h
      exact hn

theorem IsPlain.item {p : Path} (h : p.IsPlain) (i : Nat) : (p.item i).IsPlain := by
  obtain ⟨⟨name, q, rfl⟩, hw⟩ := h
  refine ⟨⟨name, q ++ [.item i], rfl⟩, fun other h => ?_⟩
  rcases List.mem_append.1 h with h | h
  · exact hw other h
  · simp at h

theorem ne_mark_of_isWordChar {c : Char} (h : isWordChar c = true) : c ≠ '.' ∧ c ≠ '[' := by
  constructor <;> rintro rfl <;> exact absurd h (by decide)

theorem ne_mark_of_isDigit {c : Char} (h : c.isDigit = true) : c ≠ '.' ∧ c ≠ '[' := by
  constructor <;> rintro rfl <;> exact absurd h (by decide)

/-- Characters that are no marks wait for the mark before them. -/
theorem readFrom_append {t s : List Char} (h : ∀ c ∈ t, c ≠ '.' ∧ c ≠ '[') :
    readFrom (t ++ s) = (t ++ (readFrom s).1, (readFrom s).2) := by
  induction t with
  | nil => rfl
  | cons c t ih =>
    rw [List.forall_mem_cons] at h
    simp [readFrom, ih h.2, h.1]

theorem number?_toString (i : Nat) : number? ((toString i).toList ++ [']']) = some i := by
  have hd : (toString i).toList.reverse.all Char.isDigit = true := by
    simp only [List.all_reverse, List.all_eq_true]
    exact fun c hc => Text.isDigit_of_mem_toString hc
  simp only [number?, List.reverse_append, List.reverse_singleton, List.singleton_append, hd,
    ↓reduceIte, List.reverse_reverse]
  rw [Text.toList_toString, Nat.ofDigitChars_ten_toDigits]

theorem readFrom_key {name : String} (h : isWord name = true) {s : List Char} {p : Path}
    (hs : readFrom s = ([], some p)) :
    readFrom ('.' :: name.toList ++ s) = ([], some (.key name :: p)) := by
  have hc (c : Char) (hc : c ∈ name.toList) : c ≠ '.' ∧ c ≠ '[' := by
    rw [isWord, Bool.and_eq_true, List.all_eq_true] at h
    exact ne_mark_of_isWordChar (h.2 c hc)
  simp [readFrom, readFrom_append hc, hs, h]

theorem readFrom_item (i : Nat) {s : List Char} {p : Path} (hs : readFrom s = ([], some p)) :
    readFrom ('[' :: (toString i).toList ++ ']' :: s) = ([], some (.item i :: p)) := by
  have hc (c : Char) (hc : c ∈ (toString i).toList ++ [']']) : c ≠ '.' ∧ c ≠ '[' := by
    rcases List.mem_append.1 hc with hc | hc
    · exact ne_mark_of_isDigit (Text.isDigit_of_mem_toString hc)
    · rw [List.mem_singleton.1 hc]
      decide
  have ha := readFrom_append (s := s) hc
  rw [List.append_assoc, List.singleton_append, hs, List.append_nil] at ha
  simp only [List.cons_append, readFrom, ha, number?_toString]
  rfl

theorem readFrom_steps {p : Path} (h : ∀ name, .key name ∈ p → isWord name = true) :
    readFrom (p.flatMap Step.chars) = ([], some p) := by
  induction p with
  | nil => rfl
  | cons s p ih =>
    have ih := ih fun name hn => h name (List.mem_cons_of_mem s hn)
    rw [List.flatMap_cons]
    cases s with
    | key name => exact readFrom_key (h name List.mem_cons_self) ih
    | item i =>
      have hi := readFrom_item i ih
      simpa [Step.chars] using hi

/-- The written form of a plain place is read as the place. -/
theorem read?_text {p : Path} (h : p.IsPlain) : read? p.text = some p := by
  obtain ⟨⟨name, q, rfl⟩, hw⟩ := h
  have hn : name ≠ "" := by
    have hn := hw name List.mem_cons_self
    rintro rfl
    exact absurd hn (by decide)
  have hc : '.' :: (text (.key name :: q)).toList = List.flatMap Step.chars (.key name :: q) := by
    rw [toList_text_key hn]
    rfl
  rw [read?, hc, readFrom_steps hw]

theorem text_injective {p q : Path} (hp : p.IsPlain) (hq : q.IsPlain) (h : p.text = q.text) :
    p = q := by
  have hr := read?_text hp
  rw [h, read?_text hq] at hr
  exact (Option.some.inj hr).symm

end Path

/-! ### Following a place -/

/-- What a place leads to from a value, if it leads anywhere. -/
def follow? : Value → Path → Option Value
  | v, [] => some v
  | .map es, .key name :: p => (Entries.find? es name).bind fun v => follow? v p
  | .list xs, .item i :: p => xs[i]?.bind fun v => follow? v p
  | _, _ :: _ => none

theorem follow?_append (v : Value) (p q : Path) :
    follow? v (p ++ q) = (follow? v p).bind (follow? · q) := by
  induction p generalizing v with
  | nil => simp [follow?]
  | cons s p ih => cases s <;> cases v <;> simp [follow?, ih, Option.bind_assoc]

theorem follow?_key {v : Value} {p : Path} {es : Entries} (h : follow? v p = some (.map es))
    (name : String) : follow? v (p.key name) = es.find? name := by
  simp [Path.key, follow?_append, h, follow?]

theorem follow?_item {v : Value} {p : Path} {xs : List Value} (h : follow? v p = some (.list xs))
    (i : Nat) : follow? v (p.item i) = xs[i]? := by
  simp [Path.item, follow?_append, h, follow?]

/-- The steps that a check takes to a mapping lead to it. -/
theorem Leads.follow?_eq {fields last : List Field} {es gs : Entries} {p : Path}
    (h : Leads fields es p last gs) : follow? (.map es) p = some (.map gs) := by
  induction h with
  | here => rfl
  | map mem named type value rest ih =>
    have hf := Entries.find?_eq_some_of_get value (by simp)
    simp [follow?, hf, ih]
  | item mem named type value element rest ih =>
    have hf := Entries.find?_eq_some_of_get value (by simp)
    simp [follow?, hf, element, ih]

end ShellCompletion.Schema
