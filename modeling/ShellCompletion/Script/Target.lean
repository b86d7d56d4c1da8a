import ShellCompletion.Interface.Validation
import ShellCompletion.Script.Text

/-! Compiling a document for a shell. The shell is looked at first, then the document is
checked, and only a document without fault gives a script. A number that can not be shown, in a
message of the check or in a comment of the script, ends the compiling. -/
namespace ShellCompletion.Script

open Document Schema

/-- The shells that scripts are written for. -/
inductive Target where
  | bash
deriving DecidableEq, Repr

namespace Target

def name : Target → String
  | bash => "bash"

def all : List Target := [bash]

def ofName? (s : String) : Option Target := all.find? (·.name == s)

theorem ofName?_name (t : Target) : ofName? t.name = some t := by cases t; decide

end Target

/-- Why a document is not compiled. -/
inductive CompileError where
  | unsupportedShell (name : String)
  | rejected (violations : List Violation)
  | unbuilt (error : BuildError)
  /-- A number can not be shown. -/
  | tooManyDigits
deriving DecidableEq, Repr

def unsupportedText (name : String) : String := "'" ++ name ++ "' is not supported yet"

def CompileError.message : CompileError → String
  | unsupportedShell name => unsupportedText name
  | rejected violations => "cannot accept source: " ++ "; ".intercalate (violations.map (·.text))
  | unbuilt e => e.message
  | tooManyDigits => tooManyDigitsText

def target (shell : String) : Except CompileError Target :=
  match Target.ofName? shell with
  | some t => .ok t
  | none => .error (.unsupportedShell shell)

/-- The record that announces a script. -/
def announcement (t : Target) (i : Interface) : Log.Record :=
  ⟨.debug, "Generating " ++ t.name ++ " completion for " ++ i.name ++
    s!" ({i.flags.length} flag(s), {i.slots.length} positional slot(s))"⟩

/-- The script for a document where everything can be shown that is to be, and the records of
its making. -/
def compile (shell : String) (document : Value) : Except CompileError String × List Log.Record :=
  match target shell with
  | .error e => (.error e, [])
  | .ok t =>
    match Interface.validate document with
    | (.accepted i, records) => (.ok (whole i), records ++ [announcement t i])
    | (.rejected vs, records) => (.error (.rejected vs), records)
    | (.unbuilt e, records) => (.error (.unbuilt e), records)

/-- The numbers of slots are shown in comments of the script. -/
def hasShowableSlots (i : Interface) : Bool :=
  i.slots.all fun s =>
    match s.index with
    | .number n => isShowableInt n
    | .all => true

/-- Compile a document as far as everything can be shown that is to be. -/
def dump (shell : String) (document : Value) : Except CompileError String × List Log.Record :=
  match target shell with
  | .error e => (.error e, [])
  | .ok t =>
    match Interface.examine document with
    | (none, records) => (.error .tooManyDigits, records)
    | (some (.accepted i), records) =>
      if hasShowableSlots i then compile shell document
      else (.error .tooManyDigits, records ++ [announcement t i])
    | (some _, _) => compile shell document

end ShellCompletion.Script
