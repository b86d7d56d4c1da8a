import ShellCompletion.Text.Digit

/-! Message templates, read into pieces: characters that stand for themselves, and places,
each of which begins with a per cent sign and says how an argument is written there. Reading
never fails; what a place lacks is found when it is filled. -/
namespace ShellCompletion.Log

/-- A number that a place may give. -/
inductive Size where
  | unsaid
  | given (n : Nat)
  /-- The number is an argument of its own. -/
  | asked
deriving DecidableEq, Repr

/-- The key by which a place asks for its argument. -/
inductive PlaceKey where
  | unsaid
  | named (key : String)
  /-- The parenthesis before the key is not closed. -/
  | unclosed
deriving DecidableEq, Repr

structure Flags where
  left : Bool := false
  zeros : Bool := false
  plus : Bool := false
  space : Bool := false
  /-- Is the base of a number marked, and its point always written? -/
  marked : Bool := false
deriving DecidableEq, Repr

/-- A place for an argument. -/
structure Place where
  key : PlaceKey
  flags : Flags
  width : Size
  precision : Size
  /-- How the argument is written; none if the template ends before that is said. -/
  letter : Option Char
deriving DecidableEq, Repr

inductive Piece where
  | char (c : Char)
  /-- A place, with the index of its letter in the template. -/
  | place (p : Place) (index : Nat)
deriving DecidableEq, Repr

/-- The text before the parenthesis that closes the current one; `depth` more are open. -/
def closedText? (depth : Nat) : List Char → Option (List Char)
  | [] => none
  | c :: r =>
    if c == ')' then
      match depth with
      | 0 => some []
      | n + 1 => (closedText? n r).map (c :: ·)
    else if c == '(' then (closedText? (depth + 1) r).map (c :: ·)
    else (closedText? depth r).map (c :: ·)

/-- The key at the front of a place, and how many characters it takes. -/
def PlaceKey.read : List Char → PlaceKey × Nat
  | '(' :: r =>
    match closedText? 0 r with
    | some key => (.named (String.ofList key), key.length + 2)
    | none => (.unclosed, r.length + 1)
  | _ => (.unsaid, 0)

def Flags.isFlag (c : Char) : Bool := c == '-' || c == '0' || c == '+' || c == ' ' || c == '#'

def Flags.ofChars (s : List Char) : Flags :=
  ⟨s.contains '-', s.contains '0', s.contains '+', s.contains ' ', s.contains '#'⟩

namespace Size

/-- A number at the front of a text, and how many characters it takes. -/
def read : List Char → Size × Nat
  | '*' :: _ => (asked, 1)
  | s =>
    let digits := s.takeWhile Text.isDigit
    if digits.isEmpty then (unsaid, 0)
    else (given (Text.valueOf 10 (digits.filterMap Text.digitValue?)), digits.length)

/-- A precision follows a point; a point alone is a precision of zero. -/
def readPrecision : List Char → Size × Nat
  | '.' :: r =>
    match read r with
    | (unsaid, _) => (given 0, 1)
    | (n, size) => (n, size + 1)
  | _ => (unsaid, 0)

end Size

/-- Letters for the length of a number; one of them may stand in a place and says nothing. -/
def isLengthMark (c : Char) : Bool := c == 'h' || c == 'l' || c == 'L'

/-- A place after its sign, and how many characters it takes. -/
def Place.read (s : List Char) : Place × Nat :=
  let (key, keySize) := PlaceKey.read s
  let rest := s.drop keySize
  let flags := rest.takeWhile Flags.isFlag
  let rest := rest.drop flags.length
  let (width, widthSize) := Size.read rest
  let rest := rest.drop widthSize
  let (precision, precisionSize) := Size.readPrecision rest
  let rest := rest.drop precisionSize
  let markSize := if rest.head?.any isLengthMark then 1 else 0
  let rest := rest.drop markSize
  (⟨key, .ofChars flags, width, precision, rest.head?⟩,
    keySize + flags.length + widthSize + precisionSize + markSize + if rest.isEmpty then 0 else 1)

/-- The pieces of a template from an index on. Two signs are one that stands for itself. -/
def piecesFrom (index : Nat) : List Char → List Piece
  | [] => []
  | '%' :: '%' :: rest => .char '%' :: piecesFrom (index + 2) rest
  | '%' :: rest =>
    let (p, size) := Place.read rest
    .place p (index + size) :: piecesFrom (index + 1 + size) (rest.drop size)
  | c :: rest => .char c :: piecesFrom (index + 1) rest
termination_by s => s.length
decreasing_by all_goals simp only [List.length_cons, List.length_drop]; omega

def pieces (template : String) : List Piece := piecesFrom 0 template.toList

end ShellCompletion.Log
