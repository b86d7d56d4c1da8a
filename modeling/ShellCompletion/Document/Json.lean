import ShellCompletion.Document.Mapping
import ShellCompletion.Number.Reading
import ShellCompletion.Text.Decoding
import ShellCompletion.Text.Rest

/-! Documents in JSON. The text is decoded from one of the transformation formats, told
apart by the first bytes. Numbers may also be the three names of infinities and of what is
not a number, and a key that comes twice keeps its first place and its last value. -/
namespace ShellCompletion.Document.Json

open Text

/-- What is wrong with a text. -/
inductive Problem where
  | value
  | key
  | colon
  | comma
  | extra
  | unterminated
  | control
  | escape
  | unicodeEscape
deriving DecidableEq, Repr

def Problem.message : Problem → String
  | value => "Expecting value"
  | key => "Expecting property name enclosed in double quotes"
  | colon => "Expecting ':' delimiter"
  | comma => "Expecting ',' delimiter"
  | extra => "Extra data"
  | unterminated => "Unterminated string starting at"
  | control => "Invalid control character at"
  | escape => "Invalid \\escape"
  | unicodeEscape => "Invalid \\uXXXX escape"

/-- A problem and the number of characters before its place. -/
structure Fault where
  problem : Problem
  offset : Nat
deriving DecidableEq, Repr

inductive Error where
  | undecodable (e : DecodeError)
  | malformed (problem : Problem) (line column offset : Nat)
deriving DecidableEq, Repr

def Error.message : Error → String
  | undecodable e => e.message
  | malformed p line column offset => s!"{p.message}: line {line} column {column} (char {offset})"

def isSpace (c : Char) : Bool := c == ' ' || c == '\t' || c == '\n' || c == '\r'

def skipSpace (r : Rest) : Rest := r.skip isSpace

def fault {α : Type} (p : Problem) (offset : Nat) : Except Fault α := .error ⟨p, offset⟩

/-- The character that a letter after a backslash stands for. -/
def plainEscape? (c : Char) : Option Char :=
  match c with
  | '"' => some '"'
  | '\\' => some '\\'
  | '/' => some '/'
  | 'b' => some '\x08'
  | 'f' => some '\x0c'
  | 'n' => some '\n'
  | 'r' => some '\r'
  | 't' => some '\t'
  | _ => none

/-- The number that four hexadecimal digits stand for. -/
def fourHex? (s : List Char) : Option Nat :=
  match s.take 4 with
  | [a, b, c, d] => (([a, b, c, d].mapM (baseDigit? 16)).map (valueOf 16))
  | _ => none

/-- An escape of a code unit, `r` being what follows its letter: the character, and how
many characters it takes after the letter. Text must go on after the digits. A surrogate without
its other half is no character: texts here are without these, and it is read as U+0000. -/
def unicodeEscape (r : Rest) : Except Fault (Char × Nat) :=
  if r.chars.length ≤ 4 then fault .unicodeEscape (r.offset - 1)
  else match fourHex? r.chars with
    | none => fault .unicodeEscape (r.offset - 1)
    | some n =>
      let more := r.drop 4
      match more.chars with
      | '\\' :: 'u' :: low =>
        if 0xD800 ≤ n && n ≤ 0xDBFF && 4 < low.length then
          match fourHex? low with
          | none => fault .unicodeEscape (more.offset + 1)
          | some m =>
            if 0xDC00 ≤ m && m ≤ 0xDFFF then
              .ok (Char.ofNat (0x10000 + (n - 0xD800) * 0x400 + (m - 0xDC00)), 10)
            else .ok (Char.ofNat n, 4)
        else .ok (Char.ofNat n, 4)
      | _ => .ok (Char.ofNat n, 4)

/-- The characters of a text up to its closing quote; `start` is the place of the opening
one, and `done` holds what has been read, last first. -/
def readString (start : Nat) : Nat → List Char → Rest → Except Fault (String × Rest)
  | 0, _, _ => fault .unterminated start
  | fuel + 1, done, r =>
    match r.chars with
    | [] => fault .unterminated start
    | '"' :: _ => .ok (String.ofList done.reverse, r.drop 1)
    | '\\' :: more =>
      match more with
      | [] => fault .unterminated start
      | 'u' :: _ => do
        let (c, size) ← unicodeEscape (r.drop 2)
        readString start fuel (c :: done) (r.drop (2 + size))
      | c :: _ =>
        match plainEscape? c with
        | some d => readString start fuel (d :: done) (r.drop 2)
        | none => fault .escape r.offset
    | c :: _ =>
      if c.toNat < 0x20 then fault .control r.offset
      else readString start fuel (c :: done) (r.drop 1)

/-- The fraction of a number: a point and at least one digit, or nothing. -/
def fraction (s : List Char) : List Char :=
  match s with
  | '.' :: r =>
    let ds := r.takeWhile isDigit
    if ds.isEmpty then [] else '.' :: ds
  | _ => []

/-- The power of ten of a number: a letter, maybe a sign, and at least one digit, or
nothing. -/
def powerOfTen (s : List Char) : List Char :=
  match s with
  | e :: r =>
    if e == 'e' || e == 'E' then
      let sign := match r with
        | '+' :: _ => ['+']
        | '-' :: _ => ['-']
        | _ => []
      let ds := (r.drop sign.length).takeWhile isDigit
      if ds.isEmpty then [] else e :: sign ++ ds
    else []
  | [] => []

/-- The whole part of a number: zero, or digits that do not begin with zero. -/
def wholePart (s : List Char) : List Char :=
  match s with
  | '0' :: _ => ['0']
  | s => s.takeWhile isDigit

/-- A number at the front of a text, with its length. -/
def number? (s : List Char) : Option (Value × Nat) :=
  let sign := if s.head? == some '-' then ['-'] else []
  let whole := wholePart (s.drop sign.length)
  if whole.isEmpty then none
  else
    let rest := s.drop (sign.length + whole.length)
    let places := fraction rest
    let power := powerOfTen (rest.drop places.length)
    let all := sign ++ whole ++ places ++ power
    let n := valueOf 10 (whole.filterMap digitValue?)
    let v : Option Value :=
      if places.isEmpty && power.isEmpty then some (.int (if sign.isEmpty then n else -n))
      else (Binary64.read? all).map .float
    v.map (·, all.length)

/-- The names that stand for values. -/
def names : List (List Char × Value) := [
  ("null".toList, .null),
  ("true".toList, .bool true),
  ("false".toList, .bool false),
  ("NaN".toList, .float .nan),
  ("Infinity".toList, .float (.infinity false)),
  ("-Infinity".toList, .float (.infinity true))]

/-- A name or a number. -/
def scalar (r : Rest) : Except Fault (Value × Rest) :=
  match names.find? fun n => n.1.isPrefixOf r.chars with
  | some (name, v) => .ok (v, r.drop name.length)
  | none =>
    match number? r.chars with
    | some (v, size) => .ok (v, r.drop size)
    | none => fault .value r.offset

mutual

def readValue : Nat → Rest → Except Fault (Value × Rest)
  | 0, r => fault .value r.offset
  | fuel + 1, r =>
    match r.chars with
    | '"' :: _ => do
      let (s, r) ← readString r.offset r.chars.length [] (r.drop 1)
      return (.str s, r)
    | '{' :: _ => do
      let r := (skipSpace (r.drop 1))
      match r.chars with
      | '}' :: _ => return (.map [], r.drop 1)
      | _ =>
        let (es, r) ← readEntries fuel [] r
        return (.map es, r)
    | '[' :: _ => do
      let r := (skipSpace (r.drop 1))
      match r.chars with
      | ']' :: _ => return (.list [], r.drop 1)
      | _ =>
        let (xs, r) ← readItems fuel [] r
        return (.list xs, r)
    | _ => scalar r

/-- The entries of a mapping from a key on. -/
def readEntries : Nat → Entries → Rest → Except Fault (Entries × Rest)
  | 0, _, r => fault .value r.offset
  | fuel + 1, done, r =>
    match r.chars with
    | '"' :: _ => do
      let (k, r) ← readString r.offset r.chars.length [] (r.drop 1)
      let r := skipSpace r
      match r.chars with
      | ':' :: _ =>
        let (v, r) ← readValue fuel (skipSpace (r.drop 1))
        let done := done.insert (.str k) v
        let r := skipSpace r
        match r.chars with
        | '}' :: _ => return (done, r.drop 1)
        | ',' :: _ => readEntries fuel done (skipSpace (r.drop 1))
        | _ => fault .comma r.offset
      | _ => fault .colon r.offset
    | _ => fault .key r.offset

/-- The elements of a list from an element on; `done` holds those before it, last first. -/
def readItems : Nat → List Value → Rest → Except Fault (List Value × Rest)
  | 0, _, r => fault .value r.offset
  | fuel + 1, done, r => do
    let (v, r) ← readValue fuel r
    let r := skipSpace r
    match r.chars with
    | ']' :: _ => return ((v :: done).reverse, r.drop 1)
    | ',' :: _ => readItems fuel (v :: done) (skipSpace (r.drop 1))
    | _ => fault .comma r.offset

end

/-- The value that a text stands for. -/
def read (text : List Char) : Except Fault Value := do
  let (v, r) ← readValue (2 * text.length + 2) (skipSpace (.ofText text))
  let r := skipSpace r
  if r.chars.isEmpty then return v else fault .extra r.offset

/-- The value that a text stands for, or the error with its place. -/
def parse (text : List Char) : Except Error Value :=
  match read text with
  | .ok v => .ok v
  | .error f =>
    let (line, before) := lineAndOffset text f.offset
    .error (.malformed f.problem line (before + 1) f.offset)

/-- The bytes that mark an encoding at the front of a document. A longer mark comes before one that
it begins with. -/
def encodingMarks : List (List UInt8 × Encoding) :=
  [([0x00, 0x00, 0xFE, 0xFF], .utf32 true), ([0xFF, 0xFE, 0x00, 0x00], .utf32 false),
    ([0xFE, 0xFF], .utf16 true), ([0xFF, 0xFE], .utf16 false), ([0xEF, 0xBB, 0xBF], .utf8)]

/-- The encoding of a document without a mark, by the zeros among its first bytes. -/
def unmarkedEncoding (bytes : List UInt8) : Encoding :=
  match bytes with
  | a :: b :: c :: d :: _ =>
    if a == 0 then (if b == 0 then .utf32 true else .utf16 true)
    else if b == 0 then (if c == 0 && d == 0 then .utf32 false else .utf16 false)
    else .utf8
  | [a, b] => if a == 0 then .utf16 true else if b == 0 then .utf16 false else .utf8
  | _ => .utf8

/-- The encoding of a document, and how many bytes mark it. -/
def encodingOf (bytes : List UInt8) : Encoding × Nat :=
  match encodingMarks.find? fun m => m.1.isPrefixOf bytes with
  | some (mark, e) => (e, mark.length)
  | none => (unmarkedEncoding bytes, 0)

/-- The document in some bytes. Places in bytes count the mark of the wider encodings. -/
def ofBytes (bytes : List UInt8) : Except Error Value :=
  let (e, mark) := encodingOf bytes
  match decode e (if e = .utf8 then 0 else mark) (bytes.drop mark) with
  | .ok text => parse text
  | .error e => .error (.undecodable e)

end ShellCompletion.Document.Json
