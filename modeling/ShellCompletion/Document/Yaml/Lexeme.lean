import ShellCompletion.Document.Yaml.Fault
import ShellCompletion.Document.Yaml.Token

/-! Names, tags and directives taken off the front of a text in YAML. -/
namespace ShellCompletion.Document.Yaml

open Text

/-- Reading takes something off the text in front of a cursor, or finds a fault. -/
abbrev Lex (α : Type) := Except Fault (α × Cursor)

/-- Fail inside something that began at a place. -/
def failIn {α : Type} (c : Context) (began : Mark) (p : Problem) (at_ : Cursor) : Except Fault α :=
  .error (.inside c began p at_.mark)

/-- The name after the indicator of an anchor or an alias. -/
def readAnchor (context : Context) (c : Cursor) : Except Fault (String × Cursor) :=
  let (name, after) := c.next.span isNameChar
  if name.isEmpty then failIn context c.mark (.expected "alphabetic or numeric character" after.peek) after
  else if isBlankOrEnd after.peek || "?:,]\x7d%@\x60".toList.contains after.peek then
    .ok (String.ofList name, after)
  else failIn context c.mark (.expected "alphabetic or numeric character" after.peek) after

/-- The handle of a tag: an exclamation mark, or a name between two. -/
def readHandle (context : Context) (began : Mark) (c : Cursor) : Except Fault (String × Cursor) :=
  if c.peek != '!' then failIn context began (.expected "'!'" c.peek) c
  else if c.peekAt 1 == ' ' then .ok ("!", c.next)
  else
    let (name, after) := c.next.span isNameChar
    if after.peek != '!' then failIn context began (.expected "'!'" after.peek) after
    else .ok ("!" ++ String.ofList name ++ "!", after.next)

/-- Characters that stand for themselves in a tag. -/
def isUriChar (c : Char) : Bool :=
  ('0' ≤ c && c ≤ '9') || ('A' ≤ c && c ≤ 'Z') || ('a' ≤ c && c ≤ 'z') ||
    "-;/?:@&=+$,_.!~*'()[]".toList.contains c

/-- The bytes that a run of escapes in a tag stands for. -/
def readUriBytes (context : Context) (began : Mark) : Nat → List UInt8 → Cursor →
    Except Fault (List UInt8 × Cursor)
  | 0, done, c => .ok (done.reverse, c)
  | fuel + 1, done, c =>
    if c.peek != '%' then .ok (done.reverse, c)
    else
      let c := c.next
      match baseDigit? 16 (c.peekAt 0), baseDigit? 16 (c.peekAt 1) with
      | some a, some b =>
        readUriBytes context began fuel (UInt8.ofNat (a * 16 + b) :: done) (c.forward 2)
      | some _, none =>
        failIn context began (.expected "URI escape sequence of 2 hexadecimal numbers" (c.peekAt 1)) c
      | none, _ =>
        failIn context began (.expected "URI escape sequence of 2 hexadecimal numbers" (c.peekAt 0)) c

/-- The rest of a tag; `done` holds what has been read, last part first. -/
def readUriFrom (context : Context) (began : Mark) : Nat → List (List Char) → Cursor →
    Except Fault (List (List Char) × Cursor)
  | 0, done, c => .ok (done.reverse, c)
  | fuel + 1, done, c =>
    let (plain, after) := c.span isUriChar
    let done := if plain.isEmpty then done else plain :: done
    if after.peek != '%' then .ok (done.reverse, after)
    else do
      let (bytes, rest) ← readUriBytes context began after.rest.length [] after
      match decode .utf8 0 bytes with
      | .ok s => readUriFrom context began fuel (s :: done) rest
      | .error e => failIn context began (.undecodable e) after

/-- A tag without its handle. The context of an empty tag differs from that of a bad escape. -/
def readUri (context uriContext : Context) (began : Mark) (c : Cursor) : Except Fault (String × Cursor) := do
  let (parts, after) ← readUriFrom context began (c.rest.length + 1) [] c
  if parts.isEmpty then failIn uriContext began (.expected "URI" after.peek) after
  else return (String.ofList parts.flatten, after)

/-- Does a second exclamation mark stand in the word that begins here? -/
def hasHandle (c : Cursor) : Bool :=
  ((c.rest.drop 1).takeWhile (!isSpaceOrEnd ·)).contains '!'

/-- A tag: its handle, unless it is written out, and the rest of it. -/
def readTag (c : Cursor) : Except Fault ((Option String × String) × Cursor) := do
  let began := c.mark
  let (tag, after) ←
    if c.peekAt 1 == '<' then do
      let (uri, after) ← readUri .tag .tagUri began (c.forward 2)
      if after.peek != '>' then failIn .tagUri began (.expected "'>'" after.peek) after
      pure ((none, uri), after.next)
    else if isBlankOrEnd (c.peekAt 1) then pure ((none, "!"), c.next)
    else do
      let (handle, after) ← if hasHandle c then readHandle .tag began c else pure ("!", c.next)
      let (uri, after) ← readUri .tag .tagUri began after
      pure ((some handle, uri), after)
  if isSpaceOrEnd after.peek then return (tag, after)
  else failIn .tag began (.expected "' '" after.peek) after

/-- A number of the version of a document. -/
def readVersionNumber (began : Mark) (c : Cursor) : Except Fault (Nat × Cursor) :=
  let (ds, after) := c.span isDigit
  if ds.isEmpty then failIn .directive began (.expected "a digit" c.peek) c
  else .ok (valueOf 10 (ds.filterMap digitValue?), after)

/-- What may follow on the line of a directive or of the header of a block scalar. -/
def readLineEnd (context : Context) (began : Mark) (c : Cursor) : Except Fault Cursor :=
  let c := c.skip (· == ' ')
  let c := if c.peek == '#' then c.skip (!isBreakOrEnd ·) else c
  if isBreakOrEnd c.peek then .ok c.lineBreak.2
  else failIn context began (.expected "a comment or a line break" c.peek) c

/-- A directive: its value, the place where it ends, and the cursor on the next line. -/
def readDirective (c : Cursor) : Except Fault ((Directive × Mark) × Cursor) := do
  let began := c.mark
  let (name, after) := c.next.span isNameChar
  if name.isEmpty || !isSpaceOrEnd after.peek then
    failIn .directive began (.expected "alphabetic or numeric character" after.peek) after
  let (d, stop, after) ←
    if name == "YAML".toList then do
      let (major, after) ← readVersionNumber began (after.skip (· == ' '))
      if after.peek != '.' then failIn .directive began (.expected "a digit or '.'" after.peek) after
      let (minor, after) ← readVersionNumber began after.next
      if !isSpaceOrEnd after.peek then
        failIn .directive began (.expected "a digit or ' '" after.peek) after
      pure (Directive.version major minor, after.mark, after)
    else if name == "TAG".toList then do
      let (handle, after) ← readHandle .directive began (after.skip (· == ' '))
      if after.peek != ' ' then failIn .directive began (.expected "' '" after.peek) after
      let (uri, after) ← readUri .directive .directiveUri began (after.skip (· == ' '))
      if !isSpaceOrEnd after.peek then failIn .directive began (.expected "' '" after.peek) after
      pure (Directive.handle handle uri, after.mark, after)
    else pure (Directive.other, after.mark, after.skip (!isBreakOrEnd ·))
  let after ← readLineEnd .directive began after
  return ((d, stop), after)

end ShellCompletion.Document.Yaml
