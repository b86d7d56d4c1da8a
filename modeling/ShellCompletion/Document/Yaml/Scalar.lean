import ShellCompletion.Document.Yaml.Lexeme

/-! Scalars taken off the front of a text in YAML: block scalars, quoted scalars and plain
scalars. A scalar may go on over several lines, whose breaks are folded. -/
namespace ShellCompletion.Document.Yaml

open Text

/-! ### Block scalars -/

/-- What becomes of the line breaks at the end of a block scalar. -/
inductive Chomping where
  | strip
  | clip
  | keep
deriving DecidableEq, Repr

def chomping? (c : Char) : Option Chomping :=
  if c == '+' then some .keep else if c == '-' then some .strip else none

def indentDigit? (c : Char) : Option Nat := if isDigit c then digitValue? c else none

/-- A digit for the indentation, if there is one; it is not zero. -/
def readIndent (began : Mark) (c : Cursor) : Except Fault (Option Nat × Cursor) :=
  match indentDigit? c.peek with
  | some 0 => failIn .blockScalar began .zeroIndent c
  | some n => .ok (some n, c.next)
  | none => .ok (none, c)

/-- The header of a block scalar: a sign and a digit, in either order, both optional. -/
def readBlockHeader (began : Mark) (c : Cursor) : Except Fault ((Chomping × Option Nat) × Cursor) := do
  let (header, after) ←
    match chomping? c.peek with
    | some k => do
      let (n, after) ← readIndent began c.next
      pure ((k, n), after)
    | none => do
      let (n, after) ← readIndent began c
      match n, chomping? after.peek with
      | some n, some k => pure ((k, some n), after.next)
      | n, _ => pure ((Chomping.clip, n), after)
  if isSpaceOrEnd after.peek then return (header, after)
  else failIn .blockScalar began (.expected "chomping or indentation indicators" after.peek) after

/-- The blank lines at the start of a block scalar: their breaks, and the widest
indentation of any of them and of the line that follows. -/
def leadingBreaks : Nat → List Char → Nat → Cursor → (List Char × Nat) × Cursor
  | 0, done, width, c => ((done, width), c)
  | fuel + 1, done, width, c =>
    if c.peek == ' ' then leadingBreaks fuel done (max width c.next.mark.column) c.next
    else if isBreak c.peek then
      let (b, c) := c.lineBreak
      leadingBreaks fuel (done ++ b) width c
    else ((done, width), c)

/-- Spaces up to a column. -/
def skipTo (column : Nat) : Nat → Cursor → Cursor
  | 0, c => c
  | fuel + 1, c => if c.mark.column < column && c.peek == ' ' then skipTo column fuel c.next else c

def skipIndent (column : Nat) (c : Cursor) : Cursor := skipTo column c.rest.length c

/-- The breaks of blank lines, up to the indentation of the line that follows. -/
def innerBreaks (column : Nat) : Nat → List Char → Cursor → List Char × Cursor
  | 0, done, c => (done, c)
  | fuel + 1, done, c =>
    if isBreak c.peek then
      let (b, c) := c.lineBreak
      innerBreaks column fuel (done ++ b) (skipIndent column c)
    else (done, c)

def breaksTo (column : Nat) (c : Cursor) : List Char × Cursor :=
  let c := skipIndent column c
  innerBreaks column (c.rest.length + 1) [] c

/-- What stands between two lines of a block scalar, `first` and `next` being the characters
that they begin with: in a folded one a newline between lines that do not begin with a
blank becomes a space, or nothing when blank lines follow it. -/
def lineJoint (folded : Bool) (lineBreak blanks : List Char) (first next : Char) : List Char :=
  let blank (c : Char) : Bool := c == ' ' || c == '\t'
  if folded && lineBreak == ['\n'] && !blank first && !blank next then
    if blanks.isEmpty then [' '] else []
  else lineBreak

/-- The lines of a block scalar from a line on, `blanks` being the breaks before it. The
result ends with the last break and with the breaks of the blank lines after it. -/
def blockLines (folded : Bool) (column : Nat) : Nat → List Char → List Char → Cursor →
    (List Char × List Char × List Char) × Cursor
  | 0, done, blanks, c => ((done, [], blanks), c)
  | fuel + 1, done, blanks, c =>
    if c.mark.column = column && c.peek != endChar then
      let first := c.peek
      let (line, c) := c.span (!isBreakOrEnd ·)
      let done := done ++ blanks ++ line
      let (b, c) := c.lineBreak
      let (blanks, c) := breaksTo column c
      if c.mark.column = column && c.peek != endChar then
        blockLines folded column fuel (done ++ lineJoint folded b blanks first c.peek) blanks c
      else ((done, b, blanks), c)
    else ((done, [], blanks), c)

/-- A block scalar, from its indicator on, inside a block of the given indentation. -/
def readBlockScalar (folded : Bool) (indent : Int) (c : Cursor) : Except Fault (String × Cursor) := do
  let began := c.mark
  let ((chomping, given), after) ← readBlockHeader began c.next
  let after ← readLineEnd .blockScalar began after
  let least := max (indent + 1) 1
  let (column, blanks, after) :=
    match given with
    | some n =>
      let column := (least + n - 1).toNat
      let (blanks, after) := breaksTo column after
      (column, blanks, after)
    | none =>
      let ((blanks, width), after) := leadingBreaks (after.rest.length + 1) [] 0 after
      ((max least width).toNat, blanks, after)
  let ((done, last, blanks), after) := blockLines folded column (after.rest.length + 1) [] blanks after
  let tail := match chomping with
    | .strip => []
    | .clip => last
    | .keep => last ++ blanks
  return (String.ofList (done ++ tail), after)

/-! ### Quoted scalars -/

/-- The character that a letter after a backslash stands for. -/
def plainEscape? (c : Char) : Option Char :=
  match c with
  | '0' => some '\x00'
  | 'a' => some '\x07'
  | 'b' => some '\x08'
  | 't' => some '\t'
  | '\t' => some '\t'
  | 'n' => some '\n'
  | 'v' => some '\x0b'
  | 'f' => some '\x0c'
  | 'r' => some '\r'
  | 'e' => some '\x1b'
  | ' ' => some ' '
  | '"' => some '"'
  | '\\' => some '\\'
  | '/' => some '/'
  | 'N' => some '\x85'
  | '_' => some '\u00a0'
  | 'L' => some '\u2028'
  | 'P' => some '\u2029'
  | _ => none

/-- How many hexadecimal digits follow a letter after a backslash. -/
def codeLength? (c : Char) : Option Nat :=
  match c with
  | 'x' => some 2
  | 'u' => some 4
  | 'U' => some 8
  | _ => none

/-- A character given by its number in so many hexadecimal digits. The number of a surrogate is that
of no character: texts here are without these, and it is read as U+0000. -/
def readCode (began : Mark) (count : Nat) (c : Cursor) : Except Fault (Char × Cursor) :=
  let ds := (c.rest.take count).takeWhile isHexDigit
  if ds.length < count then
    failIn .doubleQuoted began
      (.expected s!"escape sequence of {count} hexadecimal numbers" (c.peekAt ds.length)) c
  else
    let code := valueOf 16 (ds.filterMap (baseDigit? 16))
    if 0x110000 ≤ code then failIn .doubleQuoted began (.noCharacter code) c
    else .ok (Char.ofNat code, c.forward count)

/-- The breaks of blank lines inside a quoted scalar; a separator of documents ends it. -/
def quotedBreaks (began : Mark) : Nat → List Char → Cursor → Except Fault (List Char × Cursor)
  | 0, done, c => .ok (done, c)
  | fuel + 1, done, c =>
    if c.atSeparator then failIn .quoted began .separator c
    else
      let c := c.skip fun x => x == ' ' || x == '\t'
      if isBreak c.peek then
        let (b, c) := c.lineBreak
        quotedBreaks began fuel (done ++ b) c
      else .ok (done, c)

def readQuotedBreaks (began : Mark) (c : Cursor) : Except Fault (List Char × Cursor) :=
  quotedBreaks began (c.rest.length + 1) [] c

/-- The blanks inside a quoted scalar: a single newline becomes a space, and of more breaks
the first newline is left out. -/
def readQuotedBlanks (began : Mark) (c : Cursor) : Except Fault (List Char × Cursor) := do
  let (blanks, after) := c.span fun x => x == ' ' || x == '\t'
  if after.peek == endChar then failIn .quoted began .endOfStream after
  else if isBreak after.peek then
    let (b, after) := after.lineBreak
    let (more, after) ← readQuotedBreaks began after
    return ((if b != ['\n'] then b else if more.isEmpty then [' '] else []) ++ more, after)
  else return (blanks, after)

/-- A part of a quoted scalar without blanks; `done` holds what has been read. -/
def quotedSolid (double : Bool) (began : Mark) : Nat → List Char → Cursor →
    Except Fault (List Char × Cursor)
  | 0, done, c => .ok (done, c)
  | fuel + 1, done, c =>
    let (s, c) := c.span fun x => !(x == '\'' || x == '"' || x == '\\' || isBlankOrEnd x)
    let done := done ++ s
    let x := c.peek
    if double then
      if x == '\'' then quotedSolid double began fuel (done ++ [x]) c.next
      else if x == '\\' then
        let c := c.next
        match plainEscape? c.peek, codeLength? c.peek with
        | some e, _ => quotedSolid double began fuel (done ++ [e]) c.next
        | none, some n => do
          let (e, c) ← readCode began n c.next
          quotedSolid double began fuel (done ++ [e]) c
        | none, none =>
          if isBreak c.peek then do
            let (more, c) ← readQuotedBreaks began c.lineBreak.2
            quotedSolid double began fuel (done ++ more) c
          else failIn .doubleQuoted began (.unknownEscape c.peek) c
      else .ok (done, c)
    else if x == '\'' && c.peekAt 1 == '\'' then quotedSolid double began fuel (done ++ [x]) (c.forward 2)
    else if x == '"' || x == '\\' then quotedSolid double began fuel (done ++ [x]) c.next
    else .ok (done, c)

/-- The parts of a quoted scalar up to its closing quote. -/
def quotedParts (double : Bool) (began : Mark) : Nat → List Char → Cursor →
    Except Fault (List Char × Cursor)
  | 0, done, c => .ok (done, c)
  | fuel + 1, done, c => do
    let (s, c) ← quotedSolid double began (c.rest.length + 1) [] c
    let done := done ++ s
    if c.peek == (if double then '"' else '\'') then return (done, c.next)
    let (s, c) ← readQuotedBlanks began c
    quotedParts double began fuel (done ++ s) c

/-- A quoted scalar from its opening quote on. -/
def readQuoted (double : Bool) (c : Cursor) : Except Fault (String × Cursor) := do
  let (s, after) ← quotedParts double c.mark (c.rest.length + 1) [] c.next
  return (String.ofList s, after)

/-! ### Plain scalars -/

/-- The characters of a plain scalar up to a blank or to what ends it. A colon ends it
before a blank, and in flow also before a character of flow. -/
def plainSpan (flow : Bool) : List Char → List Char
  | [] => []
  | x :: r =>
    let y := r.headD endChar
    let flowMark (c : Char) : Bool := c == ',' || c == '[' || c == ']' || c == '{' || c == '}'
    if isBlankOrEnd x || (x == ':' && (isBlankOrEnd y || (flow && flowMark y))) ||
        (flow && (flowMark x || x == '?')) then []
    else x :: plainSpan flow r

/-- The breaks of blank lines inside a plain scalar; none if a separator of documents comes. -/
def plainBreaks : Nat → List Char → Cursor → Option (List Char) × Cursor
  | 0, done, c => (some done, c)
  | fuel + 1, done, c =>
    if c.peek == ' ' then plainBreaks fuel done c.next
    else if isBreak c.peek then
      let (b, c) := c.lineBreak
      if c.atSeparator then (none, c) else plainBreaks fuel (done ++ b) c
    else (some done, c)

/-- The blanks inside a plain scalar, whether a line ended in them, and the cursor after
them. -/
def plainBlanks (c : Cursor) : (List Char × Bool) × Cursor :=
  let (blanks, after) := c.span (· == ' ')
  if isBreak after.peek then
    let (b, after) := after.lineBreak
    if after.atSeparator then (([], true), after)
    else match plainBreaks (after.rest.length + 1) [] after with
      | (none, after) => (([], true), after)
      | (some more, after) =>
        (((if b != ['\n'] then b else if more.isEmpty then [' '] else []) ++ more, true), after)
  else ((blanks, false), after)

/-- A plain scalar that is being read: its text, where it ends so far, and whether its last
blanks ended a line. -/
structure Plain where
  text : List Char
  stop : Mark
  lineEnded : Bool

/-- The parts of a plain scalar; `blanks` stand before the next one. -/
def plainParts (flow : Bool) (column : Int) : Nat → List Char → Plain → Cursor → Plain × Cursor
  | 0, _, p, c => (p, c)
  | fuel + 1, blanks, p, c =>
    let s := plainSpan flow c.rest
    if c.peek == '#' || s.isEmpty then (p, c)
    else
      let c := c.forward s.length
      let ((next, ended), after) := plainBlanks c
      let p : Plain := ⟨p.text ++ blanks ++ s, c.mark, ended⟩
      if next.isEmpty || after.peek == '#' || (!flow && after.mark.column < column) then (p, after)
      else plainParts flow column fuel next p after

/-- A plain scalar inside a block of the given indentation. -/
def readPlain (flow : Bool) (indent : Int) (c : Cursor) : Plain × Cursor :=
  plainParts flow (indent + 1) (c.rest.length + 1) [] ⟨[], c.mark, false⟩ c

end ShellCompletion.Document.Yaml
