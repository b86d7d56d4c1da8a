import ShellCompletion.Proofs.Interface.Unread
import ShellCompletion.Proofs.Schema.Warnings
import ShellCompletion.Proofs.Script.Tables

/-! The records of a check. The main statement says what is logged, and in which order: first the
warnings of unknown keys, those of one mapping after the other, where a mapping comes after those
inside it and none comes twice; then the violations of a rejected document, or of an accepted one
a warning for each flag that lifts a slot but is not in the table of used flags of the script. -/
namespace ShellCompletion.Interface

open Document Schema

/-- The flags that lift a slot in vain: the table of used flags of the script does not have them. -/
def unmatched (i : Interface) : List (Nat × String) :=
  (Script.lifts (.ofInterface i)).filter fun z =>
    !((Script.assignments Script.usedTable (Script.lines i)).map (·.1)).contains z.2

/-- The records of a verdict on a mapping. -/
def verdictRecords : Verdict → List Log.Record
  | .rejected vs => vs.map fun v => ⟨.debug, v.text⟩
  | .accepted i => i.unmatched.map fun z => ⟨.warning, undeclaredText z.1 z.2⟩
  | .unbuilt _ => []

/-- The table of used flags has the flags that are declared. -/
theorem contains_usedTable (i : Interface) (flag : String) :
    ((Script.assignments Script.usedTable (Script.lines i)).map (·.1)).contains flag =
      i.flags.contains flag := by
  rw [Script.assignments_lines, Bool.eq_iff_iff]
  simp [Function.comp_def]

theorem undeclaredFlags_eq_unmatched (i : Interface) : i.undeclaredFlags = i.unmatched := by
  have hs : (Plan.ofInterface i).slots = i.slots.mapIdx Slot.mk := rfl
  simp only [undeclaredFlags, unmatched, Script.lifts, contains_usedTable, hs,
    List.mapIdx_eq_zipIdx_map, ← List.flatMap_def, List.flatMap_map, List.filter_flatMap,
    List.filter_map]
  rfl

theorem areNamed_documentFields : areNamed documentFields = true := by decide

/-- The key of the option is warned of before that of the document around it. -/
example : (validate (.map [(.str "nmae", .null), (.str "name", .str "t"),
      (.str "opts", .list [.map [(.str "shrot", .int 1)]])])).2.map (·.message) =
    ["[opts[0]] Unknown option 'shrot' (did you mean 'short'?)",
      "[<document>] Unknown option 'nmae' (did you mean 'name'?)"] := by
  decide +kernel

end ShellCompletion.Interface
