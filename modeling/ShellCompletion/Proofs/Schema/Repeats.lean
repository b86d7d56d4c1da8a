import Mathlib.Data.Nat.Find
import ShellCompletion.Proofs.Schema.Complaints
import ShellCompletion.Proofs.Schema.Rules

/-! Indices that are declared twice. An argument that is a mapping declares a whole number or a
word, and without an index the word for all remaining arguments; whatever else stands in its
place declares nothing, be it a truth value or a number with a point. The main statement says
that an argument is reported just when one before it declares the same index, together with the
first that does. -/
namespace ShellCompletion.Schema

open Document

/-- The index that an argument declares. -/
inductive Declares : Value → SlotKey → Prop
  | absent {es : Entries} (index : es.get "index" = .null) : Declares (.map es) (.word catchAll)
  | number {es : Entries} {n : Int} (index : es.get "index" = .int n) :
      Declares (.map es) (.number n)
  | word {es : Entries} {s : String} (index : es.get "index" = .str s) :
      Declares (.map es) (.word s)

theorem declares_iff {v : Value} {k : SlotKey} : Declares v k ↔ SlotKey.ofElement? v = some k := by
  constructor
  · rintro (index | index | index) <;> rw [SlotKey.ofElement?, index]
  · intro h
    unfold SlotKey.ofElement? at h
    split at h
    · split at h <;> cases h
      · next index => exact .absent index
      · next index => exact .number index
      · next index => exact .word index
    · cases h

/-- The argument at a place declares an index. -/
def DeclaresAt (xs : List Value) (j : Nat) (k : SlotKey) : Prop := ∃ x, xs[j]? = some x ∧ Declares x k

theorem declaresAt_iff {xs : List Value} {j : Nat} {k : SlotKey} :
    DeclaresAt xs j k ↔ indexAt? xs j = some k := by
  simp only [DeclaresAt, declares_iff, indexAt?, Option.bind_eq_some_iff]

/-- The argument at a place declares an index that one before it declares; the first that does is
at the second place. -/
structure RepeatsAt (xs : List Value) (j : Nat) (k : SlotKey) (i : Nat) : Prop where
  declares : DeclaresAt xs j k
  before : i < j
  declared : DeclaresAt xs i k
  first : ∀ l < i, ¬DeclaresAt xs l k

theorem repeatsAt_iff {xs : List Value} {j : Nat} {k : SlotKey} {i : Nat} :
    RepeatsAt xs j k i ↔ indexAt? xs j = some k ∧ firstPlace? (xs.take j) k = some i := by
  constructor
  · rintro ⟨declares, before, declared, first⟩
    simp only [declaresAt_iff] at declares declared first
    exact ⟨declares, firstPlace?_take before declared first⟩
  · rintro ⟨declares, place⟩
    rw [firstPlace?, List.findIdx?_eq_some_iff_getElem] at place
    obtain ⟨hi, declared, first⟩ := place
    have hj : i < j ∧ i < xs.length := by rwa [List.length_take, Nat.lt_min] at hi
    rw [beq_iff_eq, List.getElem_take] at declared
    refine ⟨declaresAt_iff.2 declares, hj.1, ⟨xs[i], List.getElem?_eq_getElem hj.2,
      declares_iff.2 declared⟩, fun l hl earlier => ?_⟩
    obtain ⟨x, hx, hd⟩ := earlier
    obtain ⟨_, rfl⟩ := List.getElem?_eq_some_iff.1 hx
    exact first l hl (by simpa using declares_iff.1 hd)

theorem repeatAt?_eq_some_iff {xs : List Value} {j : Nat} {c : Complaint} :
    repeatAt? xs j = some c ↔ ∃ k i, RepeatsAt xs j k i ∧ c = .repeatedIndex j k.literal i := by
  simp only [repeatAt?, Option.bind_eq_some_iff, Option.map_eq_some_iff, repeatsAt_iff]
  constructor
  · rintro ⟨k, hj, i, hi, rfl⟩
    exact ⟨k, i, ⟨hj, hi⟩, rfl⟩
  · rintro ⟨k, i, ⟨hj, hi⟩, rfl⟩
    exact ⟨k, hj, i, hi, rfl⟩

/-- An index that one before declares has a first place. -/
theorem exists_repeatsAt_iff {xs : List Value} {j : Nat} :
    (∃ k i, RepeatsAt xs j k i) ↔ ∃ k, DeclaresAt xs j k ∧ ∃ i < j, DeclaresAt xs i k := by
  constructor
  · rintro ⟨k, i, h⟩
    exact ⟨k, h.declares, i, h.before, h.declared⟩
  · rintro ⟨k, declares, i, before, declared⟩
    have some_place : ∃ i, DeclaresAt xs i k := ⟨i, declared⟩
    classical
    refine ⟨k, Nat.find some_place, declares, ?_, Nat.find_spec some_place, fun l hl =>
      Nat.find_min some_place hl⟩
    exact Nat.lt_of_le_of_lt (Nat.find_min' some_place declared) before

/-- The places of the arguments that repeat an index. -/
def repeatingPlaces (xs : List Value) : List Nat :=
  (List.range xs.length).filter fun j => (repeatAt? xs j).isSome

theorem mem_repeatingPlaces_iff {xs : List Value} {j : Nat} :
    j ∈ repeatingPlaces xs ↔ ∃ k, DeclaresAt xs j k ∧ ∃ i < j, DeclaresAt xs i k := by
  rw [repeatingPlaces, List.mem_filter, List.mem_range, Option.isSome_iff_exists,
    ← exists_repeatsAt_iff]
  constructor
  · rintro ⟨_, c, hc⟩
    obtain ⟨k, i, h, _⟩ := repeatAt?_eq_some_iff.1 hc
    exact ⟨k, i, h⟩
  · rintro ⟨k, i, h⟩
    obtain ⟨x, hx, _⟩ := h.declares
    exact ⟨(List.getElem?_eq_some_iff.1 hx).1, _, repeatAt?_eq_some_iff.2 ⟨k, i, h, rfl⟩⟩

theorem forall₂_filter_filterMap {α β : Type} (f : α → Option β) (xs : List α) :
    List.Forall₂ (fun x y => f x = some y) (xs.filter fun x => (f x).isSome) (xs.filterMap f) := by
  induction xs with
  | nil => exact .nil
  | cons x xs ih =>
    cases h : f x with
    | none => simpa [h] using ih
    | some y => simpa [h] using ih

/-- Three arguments for the rest, one by its word and two by nothing, between two with one number;
a truth value and a number with a point are no index. -/
example : Rule.complaints .distinctSlots (.list [.map [(.str "index", .str "all")],
    .map [(.str "index", .int 1)], .map [], .map [(.str "index", .bool true)],
    .map [(.str "index", .float (.ofNat 1))], .map [(.str "index", .int 1)],
    .map [(.str "index", .null)]]) =
      [.repeatedIndex 2 "'all'" 0, .repeatedIndex 5 "1" 1, .repeatedIndex 6 "'all'" 0] := by
  decide +kernel

end ShellCompletion.Schema
