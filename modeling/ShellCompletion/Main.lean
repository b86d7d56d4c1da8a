import ShellCompletion.CommandLine.Reach
import ShellCompletion.CommandLine.Run

/-! The program itself. What the run can reach is looked up, the run is worked out, and then
what it has printed is printed and what it has changed is written to the disk. Of the users, those
are known that the file of accounts lists. -/
namespace ShellCompletion

open Files

/-- How a place is called. -/
def placeText (p : Place) : String := "/" ++ "/".intercalate p

/-- What there is at a place that lies in a directory. -/
def lookAt (p : Place) : IO (Option Node) := do
  try
    let data ← IO.FS.readBinFile (placeText p)
    return some (.file data.toList)
  catch
    | .noFileOrDirectory .. => return none
    | .inappropriateType .. => return some .directory
    | e => throw e

/-- Look at all places on the way that some parts lead, as far as there is something. -/
def lookAlong (t : Tree) (p : Place) : List String → IO Tree
  | [] => return t
  | part :: rest => do
    let p := if part = ".." then p.dropLast else p ++ [part]
    let t ← if (t.node? p).isSome then pure t else
      match ← lookAt p with
      | some n => pure (t.set p n)
      | none => pure t
    if (t.node? p).isSome then lookAlong t p rest else return t

/-- A tree of the files of some names and what is on the way to them. -/
def lookUp (here : Place) (names : List Name) : IO Tree :=
  names.foldlM (fun t n =>
    if n.hasNul then return t else lookAlong t (if n.isAbsolute then [] else here) n.parts)
    (Tree.empty here)

/-- Write what has changed to the disk. -/
def writeChanges (before after : Tree) : IO Unit := do
  for (p, n) in after.nodes do
    if before.node? p != some n then
      match n with
      | .directory => IO.FS.createDir (placeText p)
      | .file data => IO.FS.writeBinFile (placeText p) ⟨data.toArray⟩

/-- A user of the system, with the home directory. -/
structure Account where
  name : String
  number : String
  home : String

/-- The account in a line of the file of accounts. -/
def accountOfLine? (line : String) : Option Account :=
  match line.splitOn ":" with
  | [name, _, number, _, _, home, _] => some ⟨name, number, home⟩
  | _ => none

/-- The accounts, and the number of the user who runs this process. -/
def lookUpAccounts : IO (List Account × Option String) := do
  try
    let accounts := (← IO.FS.lines "/etc/passwd").toList.filterMap accountOfLine?
    let status ← IO.FS.lines "/proc/self/status"
    return (accounts, status.findSome? fun line =>
      match line.splitOn "\t" with
      | "Uid:" :: number :: _ => some number
      | _ => none)
  catch _ => return ([], none)

end ShellCompletion

open ShellCompletion in
def main (args : List String) : IO UInt32 := do
  let values ← (CommandLine.reachedVariables args).filterMapM fun name => do
    return (← IO.getEnv name).map (name, ·)
  let (accounts, own) ← lookUpAccounts
  let env : Environment := {
    values
    ownHome := (accounts.find? (some ·.number == own)).map (·.home)
    homes := accounts.map fun a => (a.name, a.home) }
  let here := (Files.Name.ofText (toString (← IO.currentDir))).parts
  let tree ← lookUp here (CommandLine.reachedFiles args env)
  let start := { World.start env tree with terminal := ← (← IO.getStderr).isTty }
  let (ending, w) := CommandLine.run args start
  IO.eprint w.errors
  IO.print w.output
  writeChanges tree w.tree
  match ending with
  | .exit code => return code.toUInt32
  | .unforeseen e => do
    IO.eprintln e.message
    return 1
  | .unprintable => return 1
