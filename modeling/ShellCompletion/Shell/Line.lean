import ShellCompletion.Shell.Quote
import ShellCompletion.Text.Blank

/-! Lines of a shell script, put together from pieces: program text, quoted texts, quoted
lists of words, and comments. Only what the pieces quote or comment on depends on the
texts of a document, so the program text around it stays as it is. -/
namespace ShellCompletion.Shell

inductive Piece where
  | code (text : String)
  /-- A text as one word. -/
  | word (text : String)
  /-- Texts as one word, which holds a quoted word for each of them. -/
  | wordList (texts : List String)
  /-- A comment to the end of the line. -/
  | comment (text : String)
deriving DecidableEq, Repr

/-- One line at a depth of indentation; a quoted text may still go on over several lines
of text. -/
structure Line where
  depth : Nat := 0
  pieces : List Piece
deriving DecidableEq, Repr

/-- One step of indentation. -/
def indentation : String := "  "

def commentText (s : String) : String := "# " ++ Text.collapse s

def Piece.text : Piece → String
  | code s => s
  | word s => quote s
  | wordList ss => "'" ++ " ".intercalate (ss.map embed) ++ "'"
  | comment s => commentText s

namespace Line

/-- A line of program text alone. -/
def plain (s : String) : Line := { pieces := [.code s] }

def blank : Line := { pieces := [] }

def comment (s : String) : Line := { pieces := [.comment s] }

/-- The line at a greater depth. -/
def deeper (n : Nat) (l : Line) : Line := { l with depth := l.depth + n }

/-- A blank line is not indented. -/
def text (l : Line) : String :=
  if l.pieces.isEmpty then ""
  else String.join (List.replicate l.depth indentation) ++ String.join (l.pieces.map Piece.text)

theorem deeper_zero (l : Line) : l.deeper 0 = l := rfl

end Line

/-- Lines at a greater depth. -/
def indent (n : Nat) (ls : List Line) : List Line := ls.map (·.deeper n)

/-- A branch of a case statement. -/
structure Branch where
  pattern : List Piece
  note : String := ""
  body : List Line
deriving DecidableEq, Repr

def Branch.lines (b : Branch) : List Line :=
  { pieces := b.pattern ++ [.code ")"] } ::
    ((if b.note.isEmpty then [] else [(Line.comment b.note).deeper 1]) ++
      indent 1 b.body ++ [(Line.plain ";;").deeper 1])

/-- A case statement on a word. -/
def caseLines (subject : String) (branches : List Branch) : List Line :=
  .plain ("case " ++ subject ++ " in") ::
    (indent 1 (branches.flatMap Branch.lines) ++ [.plain "esac"])

end ShellCompletion.Shell
