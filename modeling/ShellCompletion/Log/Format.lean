import ShellCompletion.Log.Style

/-! Records written out as lines, for a screen and for a file. -/
namespace ShellCompletion.Log

/-- The place in a program where a record was made. -/
inductive Origin where
  | untold
  | line (file : String) (number : Int)
deriving DecidableEq, Repr

/-- The part of a path after its last slash. -/
def lastPart (path : String) : String :=
  String.ofList (path.toList.reverse.takeWhile (· != '/')).reverse

def Origin.text : Origin → String
  | untold => "<loc>"
  | line file number => s!"{lastPart file}:{number}"

/-- A record with the name of its logger and its origin. -/
structure Entry where
  name : String
  record : Record
  origin : Origin := .untold
deriving DecidableEq, Repr

/-- How records are written on a screen: with colours or not, and for debugging with name
and origin or without. -/
structure ScreenFormat where
  colors : Bool
  debug : Bool
deriving DecidableEq, Repr

/-- A text moved to the right edge of a column. -/
def flushRight (width : Nat) (s : String) : String :=
  String.ofList (List.replicate (width - s.length) ' ') ++ s

def ScreenFormat.text (f : ScreenFormat) (e : Entry) : String :=
  (if f.colors then Style.ofLevel e.record.level else .plain).paint
    (if f.debug then
      flushRight 18 e.name ++ " - " ++ e.record.message ++ " // " ++ e.origin.text
    else e.record.message)

/-- The line of a record in a file; the time is left to the reader. -/
def fileText (e : Entry) : String :=
  "<time> [" ++ e.record.level.name ++ "] " ++ e.name ++ " :: " ++ e.record.message ++ " :: " ++
    e.origin.text

theorem text_plain (e : Entry) : (ScreenFormat.mk false false).text e = e.record.message := by
  simp [ScreenFormat.text, Style.paint_plain]

end ShellCompletion.Log
