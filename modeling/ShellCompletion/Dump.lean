import ShellCompletion.Load
import ShellCompletion.Script.Target

/-! Writing the script for a document in a file: the shell is looked at, the document is
loaded and checked, and the script is written if an output is given. Each stage begins
when the one before it has succeeded, and only the last one changes files. -/
namespace ShellCompletion.Dump

open Document Files Load Script

/-- Why no script is written. -/
inductive DumpError where
  | compile (e : CompileError)
  | load (e : LoadError)
  | outputHome (e : HomeError)
  | unwritable (name : Name) (fault : Fault)
deriving DecidableEq, Repr

namespace DumpError

def message : DumpError → String
  | compile e => e.message
  | load e => e.message
  | outputHome .unknown => "Could not determine home directory."
  | outputHome .nul => Fault.nul.message
  | unwritable _ .nul => Fault.nul.message
  | unwritable n f => "cannot write " ++ n.text ++ ": " ++ f.message

/-- The name and the exit code of an error that the program foresees. -/
def declared? : DumpError → Option (String × Nat)
  | compile (.unsupportedShell _) => some ("UnsupportedShellError", 1)
  | compile (.rejected _) => some ("SchemaViolationError", 2)
  | compile (.unbuilt _) | compile .tooManyDigits => none
  | load (.home _) => none
  | load (.unreadable _ .nul) => none
  | load (.unreadable _ _) => some ("DocumentIOError", 3)
  | load (.malformed _ e) => if e.defect?.isSome then none else some ("MalformedDocumentError", 2)
  | outputHome _ => none
  | unwritable _ .nul => none
  | unwritable _ _ => some ("DocumentIOError", 3)

end DumpError

/-- How many levels of a document are checked: the deepest values are the words of the command
that gives the candidates for the value of an option. -/
def checkedDepth : Nat := 7

/-- Compile a document that may refer from inside a container back to it. -/
def compileLoaded (shell : String) (document : Value) : Except CompileError String × List Log.Record :=
  Script.dump shell (document.unroll checkedDepth [])

/-- Write a script to the file of a name. -/
def writeScript {σ : Type} [Host σ] (script : String) (n : Name) (s : σ) : Except DumpError Unit × σ :=
  let s := Host.note ⟨.debug, "Writing completions to: " ++ n.text⟩ s
  match (Host.tree s).ensureDirectory n.parent with
  | (some f, t) => (.error (.unwritable n f), Host.setTree t s)
  | (none, t) =>
    let s := Host.setTree t s
    match (Host.tree s).write n (Text.encodeUtf8 (script ++ "\n")) with
    | (some f, t) => (.error (.unwritable n f), Host.setTree t s)
    | (none, t) => (.ok (), Host.note ⟨.info, "Completions written to " ++ n.text⟩ (Host.setTree t s))

/-- Write a script to an output, if there is one. -/
def writeOutput {σ : Type} [Host σ] (script : String) (output : Option String) (s : σ) :
    Except DumpError Unit × σ :=
  match output with
  | none => (.ok (), s)
  | some o =>
    match expandHome (Host.environment s) (.ofText o) with
    | .error e => (.error (.outputHome e), s)
    | .ok n => writeScript script n s

/-- The script for the document in a file, written to the output if there is one. -/
def dumpFile {σ : Type} [Host σ] (source shell : String) (output : Option String) (s : σ) :
    Except DumpError String × σ :=
  match target shell with
  | .error e => (.error (.compile e), s)
  | .ok _ =>
    match load source s with
    | (.error e, s) => (.error (.load e), s)
    | (.ok document, s) =>
      let (result, records) := compileLoaded shell document
      let s := Host.noteAll records s
      match result with
      | .error e => (.error (.compile e), s)
      | .ok script =>
        match writeOutput script output s with
        | (.error e, s) => (.error e, s)
        | (.ok _, s) => (.ok script, s)

end ShellCompletion.Dump
