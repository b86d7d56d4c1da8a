import Mathlib.Data.List.Forall2
import ShellCompletion.Schema.Field

/-! Looking up fields by name, one after the other. What has been found is remembered, and the
memory holds the first field of each name in it. The main statement says that every answer is
that of a search through the declarations, whatever has been looked up before. -/
namespace ShellCompletion.Schema

variable {fields : List Field} {name : String}

/-- The first field of a name in the order of declaration, or nothing if no field has the name. -/
inductive FirstOf (fields : List Field) (name : String) : Option Field → Prop
  | found {before after : List Field} {f : Field} (declared : fields = before ++ f :: after)
      (named : f.name = name) (first : ∀ g ∈ before, g.name ≠ name) : FirstOf fields name (some f)
  | missing (unnamed : ∀ g ∈ fields, g.name ≠ name) : FirstOf fields name none

theorem firstOf_field? (fields : List Field) (name : String) :
    FirstOf fields name (field? fields name) := by
  cases h : field? fields name with
  | none =>
    refine .missing fun g hg => ?_
    simpa using List.find?_eq_none.1 h g hg
  | some f =>
    obtain ⟨named, before, after, declared, first⟩ := List.find?_eq_some_iff_append.1 h
    refine .found declared (by simpa using named) fun g hg => ?_
    simpa using first g hg

namespace Lookup

variable {l : Lookup}

theorem getAll_cons (l : Lookup) (name : String) (names : List String) :
    l.getAll (name :: names) =
      ((l.get name).1 :: ((l.get name).2.getAll names).1, ((l.get name).2.getAll names).2) := rfl

theorem getAll_fields (l : Lookup) (names : List String) : (l.getAll names).2.fields = l.fields := by
  induction names generalizing l with
  | nil => rfl
  | cons name names ih => rw [getAll_cons, ih, get_fields]

/-- What a memory says stays true while names are looked up. -/
theorem Faithful.getAll (h : l.Faithful) (names : List String) :
    (l.getAll names).1 = names.map (field? l.fields) ∧ (l.getAll names).2.Faithful := by
  induction names generalizing l with
  | nil => exact ⟨rfl, h⟩
  | cons name names ih =>
    obtain ⟨found, kept⟩ := get_faithful h name
    obtain ⟨rest, last⟩ := ih kept
    rw [get_fields] at rest
    rw [getAll_cons, found, rest]
    exact ⟨rfl, last⟩

theorem faithful_empty (fields : List Field) : Faithful { fields } := by
  intro n f hf
  cases hf

/-- Each of the names looked up gets the first field that has it, or nothing if none has, whatever
has been looked up before; and the fields stay as they are. -/
theorem getAll_firstOf (fields : List Field) (earlier names : List String) :
    let l := (Lookup.getAll { fields } earlier).2
    (l.getAll names).1 = (Lookup.getAll { fields } names).1 ∧
      List.Forall₂ (FirstOf fields) names (l.getAll names).1 ∧
      l.fields = fields ∧ (l.getAll names).2.fields = fields := by
  intro l
  have hl : l.fields = fields := getAll_fields _ earlier
  have answers : (l.getAll names).1 = names.map (field? fields) := by
    rw [← hl]
    exact (((faithful_empty fields).getAll earlier).2.getAll names).1
  refine ⟨?_, ?_, hl, ?_⟩
  · rw [answers, ((faithful_empty fields).getAll names).1]
  · rw [answers, List.forall₂_map_right_iff, List.forall₂_same]
    exact fun name _ => firstOf_field? fields name
  · rw [getAll_fields, hl]

/-- Two fields of one name: the second is never found, neither before nor after the first is
remembered. -/
example : ((Lookup.getAll { fields := [{ name := "a", required := true }, { name := "a" }] }
    ["a", "b", "a"]).1.map fun f => f.map (·.required)) = [some true, none, some true] := by decide

end Lookup

end ShellCompletion.Schema
