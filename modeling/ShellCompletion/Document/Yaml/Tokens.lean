import ShellCompletion.Document.Yaml.Scalar

/-! The tokens of a whole text in YAML. A key without an indicator is known for a key only
when the colon after it is met; until then the place of its first token is remembered,
and no token from there on can be used. A fault therefore comes with the tokens that
could be used before it. -/
namespace ShellCompletion.Document.Yaml

/-- A token that may turn out to begin a key. -/
structure SimpleKey where
  /-- How many tokens come before it. -/
  number : Nat
  /-- It must turn out to be a key. -/
  required : Bool
  mark : Mark
deriving DecidableEq, Repr

/-- The state of reading tokens. -/
structure Lexer where
  cursor : Cursor
  /-- How deep the text is in flow. -/
  flow : Int := 0
  /-- The tokens so far, last first, and how many they are. -/
  tokens : List Token
  count : Nat
  /-- The column of the current block, and those of the blocks around it. -/
  indent : Int := -1
  indents : List Int := []
  /-- May a key without an indicator begin here? -/
  keyAllowed : Bool := true
  /-- The possible keys by the depth of flow. -/
  keys : List (Int × SimpleKey) := []
  done : Bool := false

namespace Lexer

/-- Before the first character. -/
def ofText (s : List Char) : Lexer :=
  let c := Cursor.ofText s
  { cursor := c, tokens := [⟨.streamStart, c.mark, c.mark⟩], count := 1 }

def mark (l : Lexer) : Mark := l.cursor.mark

def column (l : Lexer) : Int := l.cursor.mark.column

def inFlow (l : Lexer) : Bool := l.flow != 0

/-- Add a token at the end. -/
def push (l : Lexer) (t : Token) : Lexer := { l with tokens := t :: l.tokens, count := l.count + 1 }

/-- Add a token that stands for no characters. -/
def pushHere (l : Lexer) (k : TokenKind) : Lexer := l.push ⟨k, l.mark, l.mark⟩

/-- Add a token for some characters and go past them. -/
def pushChars (l : Lexer) (k : TokenKind) (n : Nat) : Lexer :=
  let c := l.cursor.forward n
  { l.push ⟨k, l.mark, c.mark⟩ with cursor := c }

/-- Put a token in front of those from a number on. -/
def insert (l : Lexer) (number : Nat) (t : Token) : Lexer :=
  let later := l.count - number
  { l with tokens := l.tokens.take later ++ t :: l.tokens.drop later, count := l.count + 1 }

/-- The key that had to come is not there. -/
def failKey (l : Lexer) (k : SimpleKey) : Except Fault Lexer :=
  failIn .simpleKey k.mark .noColon l.cursor

/-- A possible key ends with its line, or when it grows too long. -/
def isStale (l : Lexer) (k : SimpleKey) : Bool :=
  k.mark.line != l.mark.line || 1024 < l.mark.index - k.mark.index

/-- Give up the possible keys that are stale. -/
def dropStale (l : Lexer) : Except Fault Lexer :=
  match l.keys.find? fun k => l.isStale k.2 && k.2.required with
  | some (_, k) => l.failKey k
  | none => .ok { l with keys := l.keys.filter fun k => !l.isStale k.2 }

def key? (l : Lexer) : Option SimpleKey := l.keys.lookup l.flow

def forgetKey (l : Lexer) : Lexer := { l with keys := l.keys.filter (·.1 != l.flow) }

/-- Give up the possible key at the current depth. -/
def dropKey (l : Lexer) : Except Fault Lexer :=
  match l.key? with
  | some k => if k.required then l.failKey k else .ok l.forgetKey
  | none => .ok l

/-- The next token may begin a key. -/
def saveKey (l : Lexer) : Except Fault Lexer :=
  if l.keyAllowed then do
    let l ← l.dropKey
    let k : SimpleKey := ⟨l.count, !l.inFlow && l.indent == l.column, l.mark⟩
    return { l with keys := (l.flow, k) :: l.keys }
  else .ok l

/-- End the blocks that are indented further than a column. -/
def unwindTo (column : Int) : List Int → Lexer → Lexer
  | [], l => l
  | outer :: rest, l =>
    if column < l.indent then
      unwindTo column rest { l.pushHere .blockEnd with indent := outer, indents := rest }
    else l

/-- In flow, indentation does not matter. -/
def unwind (l : Lexer) (column : Int) : Lexer :=
  if l.inFlow then l else unwindTo column l.indents l

/-- Begin a block at a column unless it is begun already. -/
def indentTo (l : Lexer) (column : Int) : Bool × Lexer :=
  if l.indent < column then (true, { l with indents := l.indent :: l.indents, indent := column })
  else (false, l)

/-- Begin a block here unless it is begun already, or fail if none may begin. -/
def beginBlock (l : Lexer) (k : TokenKind) (p : Problem) : Except Fault Lexer :=
  if l.inFlow then .ok l
  else if !l.keyAllowed then .error (.plain p l.mark)
  else
    let (begun, l) := l.indentTo l.column
    .ok (if begun then l.pushHere k else l)

/-! ### Skipping -/

/-- Spaces, comments and line breaks; after a line break outside flow a key may begin. -/
def skipBlanks : Nat → Lexer → Lexer
  | 0, l => l
  | fuel + 1, l =>
    let c := l.cursor.skip (· == ' ')
    let c := if c.peek == '#' then c.skip (!isBreakOrEnd ·) else c
    if isBreak c.peek then
      skipBlanks fuel { l with cursor := c.lineBreak.2, keyAllowed := l.keyAllowed || !l.inFlow }
    else { l with cursor := c }

/-- Go to the next token. A mark of byte order at the start of the text is skipped. -/
def skipToToken (l : Lexer) : Lexer :=
  let l := if l.mark.index = 0 && l.cursor.peek == '\ufeff' then { l with cursor := l.cursor.next } else l
  skipBlanks (l.cursor.rest.length + 1) l

/-! ### Tokens -/

def fetchEnd (l : Lexer) : Except Fault Lexer := do
  let l ← (l.unwind (-1)).dropKey
  return { { l with keyAllowed := false, keys := [] }.pushHere .streamEnd with done := true }

def fetchDirective (l : Lexer) : Except Fault Lexer := do
  let l ← (l.unwind (-1)).dropKey
  let ((d, stop), c) ← readDirective l.cursor
  return { { l with keyAllowed := false }.push ⟨.directive d, l.mark, stop⟩ with cursor := c }

def fetchSeparator (l : Lexer) (k : TokenKind) : Except Fault Lexer := do
  let l ← (l.unwind (-1)).dropKey
  return { l with keyAllowed := false }.pushChars k 3

def fetchFlowStart (l : Lexer) (k : TokenKind) : Except Fault Lexer := do
  let l ← l.saveKey
  return { l with flow := l.flow + 1, keyAllowed := true }.pushChars k 1

def fetchFlowEnd (l : Lexer) (k : TokenKind) : Except Fault Lexer := do
  let l ← l.dropKey
  return { l with flow := l.flow - 1, keyAllowed := false }.pushChars k 1

def fetchFlowEntry (l : Lexer) : Except Fault Lexer := do
  let l ← { l with keyAllowed := true }.dropKey
  return l.pushChars .flowEntry 1

def fetchBlockEntry (l : Lexer) : Except Fault Lexer := do
  let l ← l.beginBlock .blockSequenceStart .entriesNotAllowed
  let l ← { l with keyAllowed := true }.dropKey
  return l.pushChars .blockEntry 1

def fetchKey (l : Lexer) : Except Fault Lexer := do
  let l ← l.beginBlock .blockMappingStart .keysNotAllowed
  let l ← { l with keyAllowed := !l.inFlow }.dropKey
  return l.pushChars .key 1

/-- A colon. If a possible key stands before it, that is a key, and may begin a block. -/
def fetchValue (l : Lexer) : Except Fault Lexer := do
  match l.key? with
  | some k =>
    let l := l.forgetKey.insert k.number ⟨.key, k.mark, k.mark⟩
    let (begun, l) := if l.inFlow then (false, l) else l.indentTo k.mark.column
    let l := if begun then l.insert k.number ⟨.blockMappingStart, k.mark, k.mark⟩ else l
    return { l with keyAllowed := false }.pushChars .value 1
  | none =>
    let l ← l.beginBlock .blockMappingStart .valuesNotAllowed
    let l ← { l with keyAllowed := !l.inFlow }.dropKey
    return l.pushChars .value 1

/-- A token that may begin a key and that ends where its text ends. -/
def fetchWith (l : Lexer) (read : Cursor → Except Fault (TokenKind × Cursor)) : Except Fault Lexer := do
  let l ← l.saveKey
  let (k, c) ← read l.cursor
  return { { l with keyAllowed := false }.push ⟨k, l.mark, c.mark⟩ with cursor := c }

def fetchAlias (l : Lexer) : Except Fault Lexer :=
  l.fetchWith fun c => (readAnchor .reference c).map fun (s, c) => (.reference s, c)

def fetchAnchor (l : Lexer) : Except Fault Lexer :=
  l.fetchWith fun c => (readAnchor .anchor c).map fun (s, c) => (.anchor s, c)

def fetchTag (l : Lexer) : Except Fault Lexer :=
  l.fetchWith fun c => (readTag c).map fun ((h, s), c) => (.tag h s, c)

def fetchQuoted (l : Lexer) (double : Bool) : Except Fault Lexer :=
  l.fetchWith fun c => (readQuoted double c).map fun (s, c) => (.scalar s false, c)

def fetchBlockScalar (l : Lexer) (folded : Bool) : Except Fault Lexer := do
  let l ← { l with keyAllowed := true }.dropKey
  let (s, c) ← readBlockScalar folded l.indent l.cursor
  return { l.push ⟨.scalar s false, l.mark, c.mark⟩ with cursor := c }

def fetchPlain (l : Lexer) : Except Fault Lexer := do
  let l ← l.saveKey
  let (p, c) := readPlain l.inFlow l.indent l.cursor
  return {
    l.push ⟨.scalar (String.ofList p.text) true, l.mark, p.stop⟩ with
    cursor := c, keyAllowed := p.lineEnded }

/-- Characters that do not begin a plain scalar, or only with a solid character after them. -/
def isIndicator (c : Char) : Bool := "-?:,[]\x7b\x7d#&*!|>'\"%@\x60".toList.contains c

def beginsPlain (l : Lexer) (c following : Char) : Bool :=
  !(isBlankOrEnd c || isIndicator c) ||
    (!isBlankOrEnd following && (c == '-' || (!l.inFlow && (c == '?' || c == ':'))))

/-- The next token, or the end of the text. -/
def fetch (l : Lexer) : Except Fault Lexer := do
  let l ← l.skipToToken.dropStale
  let l := l.unwind l.column
  let c := l.cursor.peek
  let following := l.cursor.peekAt 1
  let atMargin := l.mark.column = 0
  let free := l.inFlow || isBlankOrEnd following
  if c == endChar then l.fetchEnd
  else if c == '%' && atMargin then l.fetchDirective
  else if c == '-' && atMargin && l.cursor.atSeparator then l.fetchSeparator .documentStart
  else if c == '.' && atMargin && l.cursor.atSeparator then l.fetchSeparator .documentEnd
  else if c == '[' then l.fetchFlowStart .flowSequenceStart
  else if c == '{' then l.fetchFlowStart .flowMappingStart
  else if c == ']' then l.fetchFlowEnd .flowSequenceEnd
  else if c == '}' then l.fetchFlowEnd .flowMappingEnd
  else if c == ',' then l.fetchFlowEntry
  else if c == '-' && isBlankOrEnd following then l.fetchBlockEntry
  else if c == '?' && free then l.fetchKey
  else if c == ':' && free then l.fetchValue
  else if c == '*' then l.fetchAlias
  else if c == '&' then l.fetchAnchor
  else if c == '!' then l.fetchTag
  else if c == '|' && !l.inFlow then l.fetchBlockScalar false
  else if c == '>' && !l.inFlow then l.fetchBlockScalar true
  else if c == '\'' then l.fetchQuoted false
  else if c == '"' then l.fetchQuoted true
  else if l.beginsPlain c following then l.fetchPlain
  else .error ⟨some .nextToken, none, .cannotStart c, l.mark⟩

/-- How many tokens can be used: those before the first possible key. -/
def usable (l : Lexer) : Nat := l.keys.foldl (fun n k => min n k.2.number) l.count

/-- The tokens that can be used. -/
def usableTokens (l : Lexer) : List Token := l.tokens.reverse.take l.usable

/-- The tokens of the rest of the text, and the fault that stops them if there is one. -/
def run : Nat → Lexer → List Token × Option Fault
  | 0, l => (l.usableTokens, some (.plain .endOfStream l.mark))
  | fuel + 1, l =>
    if l.done then (l.tokens.reverse, none)
    else match l.fetch with
      | .error f => (l.usableTokens, some f)
      | .ok m =>
        if m.done then (m.tokens.reverse, none)
        else match m.dropStale with
          | .error f => (l.usableTokens, some f)
          | .ok m => run fuel m

end Lexer

/-- The tokens of a text, and the fault that stops them if there is one. -/
def tokens (s : List Char) : List Token × Option Fault := Lexer.run (s.length + 2) (.ofText s)

end ShellCompletion.Document.Yaml
