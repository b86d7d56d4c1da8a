import ShellCompletion.Proofs.Schema.Isolation
import ShellCompletion.Schema.Fault

/-! Checks of one mapping at different places. What is found carries its place as steps, those to
the mapping before those inside it. The main statement says that a check at another place finds
the same in the same order, with other steps before, or comes upon the same fault. -/
namespace ShellCompletion.Schema

open Document

/-! ### Findings at another place -/

/-- The problem when the mapping that is checked is at the place `outer`. -/
def Problem.moved (outer : Path) : Problem → Problem
  | .missing field kind inside => .missing field kind (outer ++ inside)
  | p => p

def Violation.moved (outer : Path) (v : Violation) : Violation :=
  ⟨outer ++ v.path, v.problem.moved outer⟩

def Warning.moved (outer : Path) (w : Warning) : Warning := { w with inside := outer ++ w.inside }

def Findings.moved (outer : Path) (f : Findings) : Findings :=
  ⟨f.violations.map (·.moved outer), f.warnings.map (·.moved outer)⟩

namespace Findings

variable (outer : Path)

@[simp] theorem moved_append (f g : Findings) :
    (f ++ g).moved outer = f.moved outer ++ g.moved outer := by
  simp only [moved, violations_append, warnings_append, List.map_append]
  rfl

theorem moved_join (fs : List Findings) : (join fs).moved outer = join (fs.map (·.moved outer)) := by
  induction fs with
  | nil => rfl
  | cons f fs ih => rw [join_cons, moved_append, ih, List.map_cons, join_cons]

end Findings

theorem Path.append_key (outer path : Path) (name : String) :
    (outer ++ path).key name = outer ++ path.key name := List.append_assoc ..

theorem Path.append_item (outer path : Path) (i : Nat) :
    (outer ++ path).item i = outer ++ path.item i := List.append_assoc ..

theorem strangers_append (outer path : Path) (k : Kind) (xs : List Value) :
    strangers k (outer ++ path) xs = (strangers k path xs).map (·.moved outer) := by
  rw [strangers_eq_flatMap, strangers_eq_flatMap, List.map_flatMap]
  refine List.flatMap_congr fun z _ => ?_
  split
  · rfl
  · rw [Path.append_item]
    rfl

theorem breaches_append (f : Field) (outer path : Path) (v : Value) :
    f.breaches (outer ++ path) v = (f.breaches path v).map (·.moved outer) := by
  rw [Field.breaches, Field.breaches, List.map_append]
  congr 1
  · split
    · split <;> rfl
    · rfl
  · split
    · rw [List.map_map]
      rfl
    · rfl

theorem unknownKeys_append (fields : List Field) (outer path : Path) (es : Entries) :
    unknownKeys fields (outer ++ path) es = (unknownKeys fields path es).map (·.moved outer) := by
  rw [unknownKeys, unknownKeys, List.map_filterMap]
  refine List.filterMap_congr fun e _ => ?_
  dsimp only
  split <;> rfl

/-- What is found at the fields of a mapping and at its keys. -/
theorem checkMap_append_of_checkFields {fields : List Field} {outer path : Path} {es : Entries}
    (h : checkFields fields (outer ++ path) es = (checkFields fields path es).moved outer) :
    checkMap fields (outer ++ path) es = (checkMap fields path es).moved outer := by
  rw [checkMap, checkMap, h, unknownKeys_append, Findings.moved_append]
  rfl

theorem findings_append_of_checkType {f : Field} {outer path : Path} {v : Value}
    (h : f.checkType (outer ++ path.key f.name) v =
      (f.checkType (path.key f.name) v).moved outer) :
    f.findings (outer ++ path) v = (f.findings path v).moved outer := by
  rw [Field.findings, Field.findings, Path.append_key, h]
  split
  · split <;> rfl
  · have he : ((f.checkType (path.key f.name) v).moved outer).violations.isEmpty =
        (f.checkType (path.key f.name) v).violations.isEmpty := List.isEmpty_map
    simp only [he]
    split
    · rw [Findings.moved_append, breaches_append]
      rfl
    · rfl

mutual

theorem checkType_append (f : Field) (outer path : Path) (v : Value) :
    f.checkType (outer ++ path) v = (f.checkType path v).moved outer := by
  match f with
  | ⟨name, .one t, required, choices, rule⟩ =>
    simp only [Field.checkType]
    split <;> rfl
  | ⟨name, .oneOf ts, required, choices, rule⟩ =>
    simp only [Field.checkType]
    split <;> rfl
  | ⟨name, .listOf k, required, choices, rule⟩ =>
    cases v with
    | list xs => simp only [Field.checkType, Findings.moved, strangers_append, List.map_nil]
    | _ => rfl
  | ⟨name, .listOfMaps fields, required, choices, rule⟩ =>
    cases v with
    | list xs =>
      have hm (i : Nat) := checkFields_append fields outer (path.item i)
      simp only [checkType_listOfMaps, Findings.moved_join, List.mapIdx_eq_zipIdx_map, List.map_map,
        Path.append_item]
      refine congrArg _ (List.map_congr_left fun z _ => ?_)
      cases hz : z.1 with
      | map es => simpa [itemFindings, hz] using checkMap_append_of_checkFields (hm z.2 es)
      | _ => simp only [Function.comp_apply, hz]; rfl
    | _ => rfl
  | ⟨name, .mapOf fields, required, choices, rule⟩ =>
    cases v with
    | map es =>
      have hm := checkFields_append fields outer path es
      simpa only [Field.checkType, checkMap] using checkMap_append_of_checkFields hm
    | _ => rfl

theorem checkFields_append (fields : List Field) (outer path : Path) (es : Entries) :
    checkFields fields (outer ++ path) es = (checkFields fields path es).moved outer := by
  match fields with
  | [] => rfl
  | f :: fs =>
    have ht := checkType_append f outer (path.key f.name) (es.get f.name)
    rw [checkFields_cons, checkFields_cons, findings_append_of_checkType ht,
      checkFields_append fs outer path es, Findings.moved_append]

end

/-- A check finds the same at another place, with the steps to that place before its own. -/
theorem check_append (fields : List Field) (outer path : Path) (es : Entries) :
    check fields (outer ++ path) es = (check fields path es).map (·.moved outer) := by
  rw [check, check, checkMap_append_of_checkFields (checkFields_append fields outer path es)]
  split <;> rfl

end ShellCompletion.Schema
