import ShellCompletion.Document.Toml.Scalar
import ShellCompletion.Document.Toml.Table

/-! Documents in TOML: statements, one a line, that give keys their values or begin
tables. -/
namespace ShellCompletion.Document.Toml

open Text

def isBareKeyChar (c : Char) : Bool :=
  ('A' ≤ c && c ≤ 'Z') || ('a' ≤ c && c ≤ 'z') || isDigit c || c == '-' || c == '_'

/-- One part of a key. -/
def readKeyPart (r : Rest) : Except Fault (String × Rest) :=
  match r.chars with
  | '\'' :: _ => (literalString r).map fun (s, r) => (String.ofList s, r)
  | '"' :: _ => (oneLineString r).map fun (s, r) => (String.ofList s, r)
  | c :: _ =>
    if isBareKeyChar c then
      let name := r.chars.takeWhile isBareKeyChar
      .ok (String.ofList name, r.drop name.length)
    else fault .keyStart r
  | [] => fault .keyStart r

/-- A key from a part on, with the blanks after it. -/
def readKey : Nat → Rest → Except Fault (Key × Rest)
  | 0, r => fault .keyStart r
  | fuel + 1, r => do
    let (part, r) ← readKeyPart r
    let r := r.skip isSpace
    match r.chars with
    | '.' :: _ =>
      let (more, r) ← readKey fuel ((r.drop 1).skip isSpace)
      return (part :: more, r)
    | _ => return ([part], r)

/-- Blanks, newlines and comments. -/
def skipLines : Nat → Rest → Except Fault Rest
  | 0, r => .ok r
  | fuel + 1, r => do
    let r := r.skip isSpaceOrNewline
    match r.chars with
    | '#' :: _ => skipLines fuel (← skipComment r)
    | _ => return r

def skipAll (r : Rest) : Except Fault Rest := skipLines (r.chars.length + 1) r

mutual

def readValue : Nat → Rest → Except Fault (Value × Rest)
  | 0, r => fault .value r
  | fuel + 1, r =>
    match r.chars with
    | '"' :: '"' :: '"' :: _ => (manyLineString '"' r).map fun (s, r) => (.str (String.ofList s), r)
    | '"' :: _ => (oneLineString r).map fun (s, r) => (.str (String.ofList s), r)
    | '\'' :: '\'' :: '\'' :: _ =>
      (manyLineString '\'' r).map fun (s, r) => (.str (String.ofList s), r)
    | '\'' :: _ => (literalString r).map fun (s, r) => (.str (String.ofList s), r)
    | 't' :: 'r' :: 'u' :: 'e' :: _ => .ok (.bool true, r.drop 4)
    | 'f' :: 'a' :: 'l' :: 's' :: 'e' :: _ => .ok (.bool false, r.drop 5)
    | '[' :: _ => do
      let r ← skipAll (r.drop 1)
      if r.startsWith [']'] then return (.list [], r.drop 1)
      let (xs, r) ← readItems fuel [] r
      return (.list xs, r)
    | '{' :: _ => do
      let r := (r.drop 1).skip isSpace
      if r.startsWith ['}'] then return (.map [], r.drop 1)
      let (es, r) ← readPairs fuel {} r
      return (.map es, r)
    | _ => plainScalar r

/-- The elements of an array from an element on; `done` holds those before it, last first. -/
def readItems : Nat → List Value → Rest → Except Fault (List Value × Rest)
  | 0, _, r => fault .openArray r
  | fuel + 1, done, r => do
    let (v, r) ← readValue fuel r
    let done := v :: done
    let r ← skipAll r
    match r.chars with
    | ']' :: _ => return (done.reverse, r.drop 1)
    | ',' :: _ =>
      let r ← skipAll (r.drop 1)
      if r.startsWith [']'] then return (done.reverse, r.drop 1)
      readItems fuel done r
    | _ => fault .openArray r

/-- The pairs of an inline table from a key on. -/
def readPairs : Nat → Inline → Rest → Except Fault (Entries × Rest)
  | 0, _, r => fault .openTable r
  | fuel + 1, t, r => do
    let (k, v, r) ← readPair fuel r
    let t ← match t.assign k v with
      | .ok t => pure t
      | .error p => fault p r
    let r := r.skip isSpace
    match r.chars with
    | '}' :: _ => return (t.data, r.drop 1)
    | ',' :: _ => readPairs fuel t ((r.drop 1).skip isSpace)
    | _ => fault .openTable r

/-- A key and its value. -/
def readPair : Nat → Rest → Except Fault (Key × Value × Rest)
  | 0, r => fault .value r
  | fuel + 1, r => do
    let (k, r) ← readKey (r.chars.length + 1) r
    match r.chars with
    | '=' :: _ =>
      let (v, r) ← readValue fuel ((r.drop 1).skip isSpace)
      return (k, v, r)
    | _ => fault .noEquals r

end

/-- A change of the tables, or the fault at a place. -/
def lift (r : Rest) (x : Except Problem Tables) : Except Fault (Tables × Rest) :=
  match x with
  | .ok t => .ok (t, r)
  | .error p => fault p r

/-- A heading in brackets: a table, or another table of a list. -/
def readHeading (t : Tables) (r : Rest) : Except Fault (Tables × Rest) := do
  let t := t.settle
  match r.chars with
  | '[' :: '[' :: _ =>
    let (k, r) ← readKey (r.chars.length + 1) ((r.drop 2).skip isSpace)
    let (t, r) ← lift r (t.openListed k)
    if r.startsWith [']', ']'] then return (t, r.drop 2) else fault .arrayEnd r
  | _ =>
    let (k, r) ← readKey (r.chars.length + 1) ((r.drop 1).skip isSpace)
    let (t, r) ← lift r (t.openTable k)
    if r.startsWith [']'] then return (t, r.drop 1) else fault .tableEnd r

/-- A statement, up to the comment or the end of its line. -/
def readStatement (t : Tables) (r : Rest) : Except Fault (Tables × Rest) := do
  match r.chars with
  | '[' :: _ =>
    let (t, r) ← readHeading t r
    return (t, r.skip isSpace)
  | '#' :: _ => return (t, r)
  | c :: _ =>
    if isBareKeyChar c || c == '"' || c == '\'' then
      let (k, v, r) ← readPair (2 * r.chars.length + 4) r
      let (t, r) ← lift r (t.assign k v)
      return (t, r.skip isSpace)
    else fault .statement r
  | [] => return (t, r)

/-- The statements of the rest of a document. -/
def readStatements : Nat → Tables → Rest → Except Fault Tables
  | 0, t, _ => .ok t
  | fuel + 1, t, r => do
    let r := r.skip isSpace
    match r.chars with
    | [] => return t
    | '\n' :: _ => readStatements fuel t (r.drop 1)
    | _ =>
      let (t, r) ← readStatement t r
      let r ← skipComment r
      match r.chars with
      | [] => return t
      | '\n' :: _ => readStatements fuel t (r.drop 1)
      | _ => fault .noNewline r

/-- A text with every carriage return before a newline left out. -/
def unifyNewlines : List Char → List Char
  | [] => []
  | '\r' :: '\n' :: r => '\n' :: unifyNewlines r
  | c :: r => c :: unifyNewlines r

/-- The document that a text stands for. -/
def parse (text : List Char) : Except Error Value :=
  let text := unifyNewlines text
  match readStatements (text.length + 1) {} (.ofText text) with
  | .ok t => .ok (.map t.data)
  | .error f =>
    let (line, before) := lineAndOffset text f.offset
    .error (.malformed f.problem (if text.length ≤ f.offset then none else some (line, before + 1)))

/-- The document in some bytes. -/
def ofBytes (bytes : List UInt8) : Except Error Value :=
  match decode .utf8 0 bytes with
  | .ok text => parse text
  | .error e => .error (.undecodable e)

end ShellCompletion.Document.Toml
