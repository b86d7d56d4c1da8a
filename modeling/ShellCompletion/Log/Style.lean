import ShellCompletion.Environment
import ShellCompletion.Log.Record

/-! Colours of messages on a terminal: when they are used, and the codes that switch them
on and off. -/
namespace ShellCompletion.Log

/-- The codes that come before and after a coloured text. -/
structure Style where
  before : String
  after : String
deriving DecidableEq, Repr

namespace Style

def resetCode : String := "\x1b[0m"

/-- The style that switches on some codes; without codes nothing is switched on. -/
def ofCodes (codes : List String) : Style :=
  ⟨if codes.isEmpty then "" else "\x1b[" ++ ";".intercalate codes ++ "m", resetCode⟩

/-- No colours. -/
def plain : Style := ⟨"", ""⟩

/-- Warnings are dim yellow, errors dim red, and critical errors bold red. -/
def ofLevel (l : Level) : Style :=
  if l = Level.warning then ofCodes ["33", "2"]
  else if l = Level.error then ofCodes ["31", "2"]
  else if l = Level.critical then ofCodes ["31", "1"]
  else plain

def paint (s : Style) (text : String) : String := s.before ++ text ++ s.after

theorem paint_plain (text : String) : plain.paint text = text := by simp [plain, paint]

end Style

/-- Colours are refused by one variable, else forced by another, else used on terminals. -/
def usesColors (env : Environment) (terminal : Bool) : Bool :=
  !env.isSet "NO_COLOR" && (env.isSet "FORCE_COLOR" || terminal)

end ShellCompletion.Log
