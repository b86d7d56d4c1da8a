import ShellCompletion.Text.Decoding

/-! What a process finds around it: variables, the home directories that the system knows of its
users, and the encoding of the standard output. -/
namespace ShellCompletion

structure Environment where
  /-- Variables with their values; of a name that comes twice the first counts. -/
  values : List (String × String) := []
  /-- The home directory of the user who runs the process. -/
  ownHome : Option String := none
  /-- Users by name, with their home directories. -/
  homes : List (String × String) := []
  /-- The encoding of the standard output. -/
  charset : Text.Charset := .utf8
deriving DecidableEq, Repr

namespace Environment

def get? (env : Environment) (name : String) : Option String := env.values.lookup name

/-- Is a variable set to something? -/
def isSet (env : Environment) (name : String) : Bool :=
  match env.get? name with
  | some v => !v.isEmpty
  | none => false

/-- Set a variable. -/
def set (env : Environment) (name value : String) : Environment :=
  { env with values := (name, value) :: env.values.filter (·.1 != name) }

end Environment

end ShellCompletion
