import ShellCompletion.Proofs.Schema.Order
import ShellCompletion.Proofs.Text.Closest

/-! What a check warns of. The keys of a mapping that are no names of its fields are warned of in
their order, each together with the closest of the names. The main statement says this of a check
as a whole: it warns of the keys of one mapping after the other, as it comes to them. -/
namespace ShellCompletion.Schema

open Document

/-! ### Names of fields -/

/-- Do the fields and all fields inside them have names that are not empty? -/
def areNamed (fields : List Field) : Bool := allMeet (fun f => !f.name.isEmpty) fields

theorem areNamed_of_mem_visits {fields : List Field} {path : Path} {es : Entries} {m : Visit}
    (h : m ∈ visits fields path es) (hn : areNamed fields = true) : areNamed m.fields = true := by
  obtain ⟨_, _, h⟩ := mem_visits_iff.1 h
  exact h.allMeet hn

/-- The field that a key may have been meant for is the closest one, if fields have names. -/
theorem meantField?_eq_closest {fields : List Field} (h : areNamed fields = true) (key : String) :
    meantField? fields key = Text.closest key (fields.map (·.name)) := by
  rw [meantField?]
  cases hc : Text.closest key (fields.map (·.name)) with
  | none => rfl
  | some w =>
    obtain ⟨f, hf, rfl⟩ := List.mem_map.1 (Text.closest_eq_some_iff.1 hc).1
    have hw : f.name.isEmpty = false := by simpa using test_of_mem_of_allMeet h hf
    simp [Option.filter, hw]

/-! ### Unknown keys -/

/-- The keys of a mapping that none of its fields has, in their order. -/
def Visit.unknown (m : Visit) : List Value :=
  (m.entries.map (·.1)).filter fun k => !m.fields.any fun f => k.isKey f.name

/-- The warning of a key: the place of its mapping and the closest name. -/
def Visit.warning (m : Visit) (k : Value) : Warning :=
  ⟨m.place, k.plainText, Text.closest k.plainText (m.fields.map (·.name))⟩

theorem Visit.warnings_eq {m : Visit} (h : areNamed m.fields = true) :
    m.warnings = m.unknown.map m.warning := by
  rw [warnings, unknownKeys, unknown, List.filter_map, List.map_map, ← List.filterMap_eq_map,
    List.filterMap_filter]
  refine List.filterMap_congr fun e _ => ?_
  simp only [Function.comp_apply, meantField?_eq_closest h]
  split <;> simp_all [warning]

/-- A check warns of the unknown keys of the mappings that it comes to. -/
theorem checkMap_warnings_eq_unknown {fields : List Field} (h : areNamed fields = true)
    (path : Path) (es : Entries) :
    (checkMap fields path es).warnings =
      (visits fields path es).flatMap fun m => m.unknown.map m.warning := by
  rw [checkMap_warnings_eq]
  exact List.flatMap_congr fun m hm => Visit.warnings_eq (areNamed_of_mem_visits hm h)

end ShellCompletion.Schema
