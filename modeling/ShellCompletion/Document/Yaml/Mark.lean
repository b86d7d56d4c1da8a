/-! Places in a text in YAML, and the part of the text that is still to be read. A line
ends at a newline, a carriage return, or one of three separators of Unicode; the end of
the text reads as the character zero, which no text holds. -/
namespace ShellCompletion.Document.Yaml

/-- A place: the number of characters before it, its line and its column, all from zero. -/
structure Mark where
  index : Nat
  line : Nat
  column : Nat
deriving DecidableEq, Repr, Inhabited

/-- The part of a text from a place on. -/
structure Cursor where
  mark : Mark
  rest : List Char
deriving DecidableEq, Repr, Inhabited

def isBreak (c : Char) : Bool :=
  c == '\n' || c == '\r' || c == '\x85' || c == '\u2028' || c == '\u2029'

def endChar : Char := '\x00'

def isBreakOrEnd (c : Char) : Bool := isBreak c || c == endChar

/-- A space, a break or the end. -/
def isSpaceOrEnd (c : Char) : Bool := c == ' ' || isBreakOrEnd c

/-- A space, a tab, a break or the end. -/
def isBlankOrEnd (c : Char) : Bool := c == '\t' || isSpaceOrEnd c

/-- Characters of the names of anchors, handles and directives. -/
def isNameChar (c : Char) : Bool :=
  ('0' ≤ c && c ≤ '9') || ('A' ≤ c && c ≤ 'Z') || ('a' ≤ c && c ≤ 'z') || c == '-' || c == '_'

namespace Cursor

def ofText (s : List Char) : Cursor := ⟨⟨0, 0, 0⟩, s⟩

/-- The character at a distance. -/
def peekAt (c : Cursor) (n : Nat) : Char := (c.rest[n]?).getD endChar

def peek (c : Cursor) : Char := c.rest.headD endChar

/-- The place after one character, which another one follows. A mark of byte order takes no
column. -/
def after (m : Mark) (c : Char) (following : Option Char) : Mark :=
  let ends :=
    c == '\n' || c == '\x85' || c == '\u2028' || c == '\u2029' || (c == '\r' && following != some '\n')
  if ends then ⟨m.index + 1, m.line + 1, 0⟩
  else ⟨m.index + 1, m.line, if c == '\ufeff' then m.column else m.column + 1⟩

/-- One character further. -/
def next (c : Cursor) : Cursor :=
  match c.rest with
  | [] => c
  | x :: r => ⟨after c.mark x r.head?, r⟩

def forward : Nat → Cursor → Cursor
  | 0, c => c
  | n + 1, c => forward n c.next

/-- The characters at the front that satisfy a test, and the cursor after them. -/
def span (p : Char → Bool) (c : Cursor) : List Char × Cursor :=
  let s := c.rest.takeWhile p
  (s, forward s.length c)

def skip (p : Char → Bool) (c : Cursor) : Cursor := (c.span p).2

/-- Do three dashes or three points stand here as a word? -/
def atSeparator (c : Cursor) : Bool :=
  let three := c.rest.take 3
  (three == ['-', '-', '-'] || three == ['.', '.', '.']) && isBlankOrEnd (c.peekAt 3)

/-- A line break as the text that it stands for, which is empty if there is none: the two
separators of Unicode stand for themselves, and all others for a newline. -/
def lineBreak (c : Cursor) : List Char × Cursor :=
  match c.rest with
  | '\r' :: '\n' :: _ => (['\n'], c.forward 2)
  | x :: _ =>
    if x == '\u2028' || x == '\u2029' then ([x], c.next)
    else if isBreak x then (['\n'], c.next)
    else ([], c)
  | [] => ([], c)

theorem forward_zero (c : Cursor) : forward 0 c = c := rfl

theorem next_rest (c : Cursor) : c.next.rest = c.rest.tail := by
  unfold next
  split <;> simp_all

theorem forward_rest (n : Nat) (c : Cursor) : (forward n c).rest = c.rest.drop n := by
  induction n generalizing c with
  | zero => rfl
  | succ n ih => rw [forward, ih, next_rest]; cases c.rest <;> simp

end Cursor

end ShellCompletion.Document.Yaml
