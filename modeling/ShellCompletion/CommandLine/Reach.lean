import ShellCompletion.CommandLine.Arguments
import ShellCompletion.Load

/-! What a run can look at, given its arguments: variables by name, and files by name. -/
namespace ShellCompletion.CommandLine

open Files

/-- The variables that a run looks at, whatever its arguments are. -/
def fixedVariables : List String := ["HOME", "DEBUG", "NO_COLOR", "FORCE_COLOR"]

/-- The variables that a run can look at. -/
def reachedVariables (args : List String) : List String :=
  match parse args with
  | .ok o => fixedVariables ++ variablesIn (o.source.getD "").toList
  | .error _ => fixedVariables

/-- The files that a run can look at: its source and its output. -/
def reachedFiles (args : List String) (env : Environment) : List Name :=
  match parse args with
  | .ok o =>
    let source := o.source.bind fun s => (Load.sourceName env s).toOption
    let output := if o.output.isEmpty then none else (expandHome env (.ofText o.output)).toOption
    source.toList ++ output.toList
  | .error _ => []

end ShellCompletion.CommandLine
