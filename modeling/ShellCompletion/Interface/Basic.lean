/-! The command lines that scripts complete: the options with their flags and values, and
the slots for positional arguments, each with the source of its candidates. -/
namespace ShellCompletion

/-- Candidates that the shell finds by itself. -/
inductive Builtin where
  | files
  | directories
deriving DecidableEq, Repr

/-- Where the candidates for a word come from. -/
inductive Source where
  | builtin (kind : Builtin)
  /-- The lines that a command prints. -/
  | command (argv : List String)
deriving DecidableEq, Repr

/-- The value that an option takes from the word after its flag. -/
structure ValueSpec where
  name : String := ""
  source : Option Source := none
deriving DecidableEq, Repr

/-- An option with the flags that stand for it. -/
structure OptionSpec where
  flags : List String := []
  description : String := ""
  value : Option ValueSpec := none
deriving DecidableEq, Repr

/-- The index of a slot: a position, or all the arguments that remain. -/
inductive SlotIndex where
  | number (n : Int)
  | all
deriving DecidableEq, Repr

/-- A slot for positional arguments. The slot is not required once one of the flags of
`skipIf` has been given. -/
structure SlotSpec where
  index : SlotIndex
  name : String := ""
  source : Option Source := none
  skipIf : Option (List String) := none
deriving DecidableEq, Repr

/-- What a command accepts on its command line. -/
structure Interface where
  name : String
  /-- Do two dashes end the options? -/
  doubleDash : Bool := false
  /-- How flags begin. -/
  flagMark : String := "-"
  options : List OptionSpec := []
  slots : List SlotSpec := []
deriving DecidableEq, Repr

namespace Builtin

def word : Builtin → String
  | files => "files"
  | directories => "directories"

def ofWord? (s : String) : Option Builtin :=
  if s = "files" then some files
  else if s = "directories" then some directories
  else none

theorem ofWord?_word (k : Builtin) : ofWord? k.word = some k := by cases k <;> decide

end Builtin

def OptionSpec.takesValue (o : OptionSpec) : Bool := o.value.isSome

def SlotSpec.isCatchAll (s : SlotSpec) : Bool := s.index == .all

namespace Interface

/-- Every flag that is declared, in order, repetitions included. -/
def flags (i : Interface) : List String := i.options.flatMap (·.flags)

/-- Is a flag declared at all? -/
def hasFlags (i : Interface) : Bool := i.options.any fun o => !o.flags.isEmpty

theorem hasFlags_eq (i : Interface) : i.hasFlags = !i.flags.isEmpty := by
  unfold hasFlags flags
  induction i.options with
  | nil => rfl
  | cons o os ih => cases h : o.flags <;> simp_all

end Interface

end ShellCompletion
