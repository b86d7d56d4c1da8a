import ShellCompletion.Interface.OfDocument
import ShellCompletion.Interface.Schema
import ShellCompletion.Log.Record
import ShellCompletion.Schema.Shown

/-! Checking a document against the schema of interfaces and building the interface. The
records of a check are the warnings about unknown keys, then one record for each violation
of a rejected document, or one warning for each flag of an accepted one that lifts a slot
but is not declared. A check ends before its verdict at a number that can not be shown. -/
namespace ShellCompletion.Interface

open Document Schema

/-- What a check of a document ends in. -/
inductive Verdict where
  | accepted (interface : Interface)
  | rejected (violations : List Violation)
  /-- The schema has nothing to say against the document, but no interface can be built. -/
  | unbuilt (error : BuildError)
deriving DecidableEq, Repr

def undeclaredText (place : Nat) (flag : String) : String :=
  s!"[args[{place}].skip_if] Flag '" ++ flag ++ "' is not declared in opts - it will never match"

/-- The flags that lift a slot and are not declared, with the place of the slot. -/
def undeclaredFlags (i : Interface) : List (Nat × String) :=
  (i.slots.mapIdx fun k s =>
    ((s.skipIf.getD []).filter fun f => !i.flags.contains f).map fun f => (k, f)).flatten

def warningRecord (text : String) : Log.Record := ⟨.warning, text⟩

/-- The verdict on a document, where everything can be shown that is to be; the records come in
the order in which they are logged. -/
def validate (document : Value) : Verdict × List Log.Record :=
  match document with
  | .map es =>
    let found := checkMap documentFields [] es
    let unknown := found.warnings.map fun w => warningRecord w.text
    if found.violations.isEmpty then
      match ofEntries es with
      | .ok i => (.accepted i, unknown ++ i.undeclaredFlags.map fun (k, f) => warningRecord (undeclaredText k f))
      | .error e => (.unbuilt e, unknown)
    else
      (.rejected found.violations, unknown ++ found.violations.map fun v => ⟨.debug, v.text⟩)
  | v => (.rejected [⟨[], .noMapping v.typeName⟩], [])

/-- The records of a check that comes upon a number which can not be shown. -/
def interrupted? (document : Value) : Option (List Log.Record) :=
  match document with
  | .map es =>
    (warnedBefore? (mapShown documentFields [] es)).map fun ws =>
      ws.map fun w => warningRecord w.text
  | _ => none

/-- Check a document: there is a verdict, unless the check is interrupted. -/
def examine (document : Value) : Option Verdict × List Log.Record :=
  match interrupted? document with
  | some records => (none, records)
  | none => (some (validate document).1, (validate document).2)

end ShellCompletion.Interface
