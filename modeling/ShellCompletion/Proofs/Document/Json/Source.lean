import ShellCompletion.Document.Json

/-! Texts in JSON as trees that keep all that is written: the blanks, the escapes of strings and
the digits of numbers. A tree has its text and the value that it stands for. -/
namespace ShellCompletion.Document.Json

open Text

/-! ### Strings -/

/-- The number that hexadecimal digits stand for. -/
def code (ds : List Char) : Nat := valueOf 16 (ds.filterMap (baseDigit? 16))

structure FourHex (ds : List Char) : Prop where
  length : ds.length = 4
  hex : ∀ c ∈ ds, isHexDigit c = true

/-- The first code unit of two that are one character. -/
def IsHigh (ds : List Char) : Prop := 0xD800 ≤ code ds ∧ code ds ≤ 0xDBFF

/-- The second code unit of two that are one character. -/
def IsLow (ds : List Char) : Prop := 0xDC00 ≤ code ds ∧ code ds ≤ 0xDFFF

/-- A character of a string as it is written. -/
inductive Piece where
  | char (c : Char)
  /-- A letter after a backslash. -/
  | letter (c : Char)
  /-- A code unit in four hexadecimal digits. -/
  | unit (digits : List Char)
  /-- Two code units that are one character. -/
  | pair (high low : List Char)

namespace Piece

def text : Piece → List Char
  | char c => [c]
  | letter c => ['\\', c]
  | unit ds => '\\' :: 'u' :: ds
  | pair hs ls => '\\' :: 'u' :: (hs ++ '\\' :: 'u' :: ls)

def meaning : Piece → Char
  | char c => c
  | letter c => (plainEscape? c).getD c
  | unit ds => Char.ofNat (code ds)
  | pair hs ls => Char.ofNat (0x10000 + (code hs - 0xD800) * 0x400 + (code ls - 0xDC00))

def IsJson : Piece → Prop
  | char c => c ≠ '"' ∧ c ≠ '\\' ∧ 0x20 ≤ c.toNat
  | letter c => (plainEscape? c).isSome
  | unit ds => FourHex ds
  | pair hs ls => (FourHex hs ∧ IsHigh hs) ∧ FourHex ls ∧ IsLow ls

/-- Two code units that would be taken for one character. -/
def Joins : Piece → Piece → Prop
  | unit hs, unit ls => IsHigh hs ∧ IsLow ls
  | _, _ => False

end Piece

/-- The text of a string without its quotes. -/
def piecesText (ps : List Piece) : List Char := ps.flatMap Piece.text

def piecesMeaning (ps : List Piece) : String := String.ofList (ps.map Piece.meaning)

def PiecesJson : List Piece → Prop
  | [] => True
  | p :: ps => p.IsJson ∧ (∀ q ∈ ps.head?, ¬p.Joins q) ∧ PiecesJson ps

/-! ### Numbers -/

/-- The power of ten of a number: its letter, its sign if there is one, and its digits. -/
structure Power where
  letter : Char
  sign : Option Char
  digits : List Char

namespace Power

def text (p : Power) : List Char := p.letter :: (p.sign.toList ++ p.digits)

def value (p : Power) : Int :=
  let n : Int := valueOf 10 (p.digits.filterMap digitValue?)
  if p.sign = some '-' then -n else n

structure IsJson (p : Power) : Prop where
  letter : p.letter = 'e' ∨ p.letter = 'E'
  sign : ∀ c ∈ p.sign, c = '+' ∨ c = '-'
  digits : ∀ c ∈ p.digits, isDigit c = true
  written : p.digits ≠ []

end Power

/-- A number: its sign, the digits before and after the point, and its power of ten. Without
digits after the point there is no point. -/
structure Numeral where
  negative : Bool
  whole : List Char
  places : List Char
  power : Option Power

namespace Numeral

def sign (n : Numeral) : List Char := if n.negative then ['-'] else []

def fraction (n : Numeral) : List Char := if n.places.isEmpty then [] else '.' :: n.places

def exponent (n : Numeral) : List Char := (n.power.map Power.text).getD []

def text (n : Numeral) : List Char := n.sign ++ (n.whole ++ (n.fraction ++ n.exponent))

/-- Without a point and a power of ten, a number is whole. -/
def IsWhole (n : Numeral) : Prop := n.places = [] ∧ n.power = none

instance (n : Numeral) : Decidable n.IsWhole :=
  decidable_of_iff (n.places.isEmpty ∧ n.power.isNone) (by simp [IsWhole])

def wholeValue (n : Numeral) : Int :=
  let k : Int := valueOf 10 (n.whole.filterMap digitValue?)
  if n.negative then -k else k

def nearest (n : Numeral) : Binary64 :=
  .ofDecimal n.negative (valueOf 10 ((n.whole ++ n.places).filterMap digitValue?))
    ((n.power.map Power.value).getD 0 - n.places.length)

def value (n : Numeral) : Value := if n.IsWhole then .int n.wholeValue else .float n.nearest

/-- A whole part does not begin with zero unless it is zero. -/
structure IsJson (n : Numeral) : Prop where
  whole : n.whole = ['0'] ∨ ∃ c r, n.whole = c :: r ∧ c ≠ '0'
  digits : ∀ c ∈ n.whole ++ n.places, isDigit c = true
  power : ∀ p ∈ n.power, p.IsJson

end Numeral

/-! ### Values -/

def IsBlank (s : List Char) : Prop := ∀ c ∈ s, isSpace c = true

mutual

/-- A value as it is written. -/
inductive Source where
  /-- A name with the value that it stands for. -/
  | name (entry : List Char × Value)
  | number (n : Numeral)
  | string (ps : List Piece)
  | emptyList (blank : List Char)
  | list (items : Items)
  | emptyMap (blank : List Char)
  | map (members : Members)

/-- The items of a list, each with the blanks around it. -/
inductive Items where
  | last (before : List Char) (item : Source) (after : List Char)
  | more (before : List Char) (item : Source) (after : List Char) (rest : Items)

/-- The members of a mapping, each with the blanks before its key, between its key and the
colon, and around its value. -/
inductive Members where
  | last (before : List Char) (key : List Piece) (gap inner : List Char) (value : Source)
      (after : List Char)
  | more (before : List Char) (key : List Piece) (gap inner : List Char) (value : Source)
      (after : List Char) (rest : Members)

end

/-- A string in its quotes. -/
def quoted (ps : List Piece) : List Char := '"' :: (piecesText ps ++ ['"'])

mutual

def Source.text : Source → List Char
  | .name entry => entry.1
  | .number n => n.text
  | .string ps => quoted ps
  | .emptyList blank => '[' :: (blank ++ [']'])
  | .list items => '[' :: (items.text ++ [']'])
  | .emptyMap blank => '{' :: (blank ++ ['}'])
  | .map members => '{' :: (members.text ++ ['}'])

def Items.text : Items → List Char
  | .last before item after => before ++ (item.text ++ after)
  | .more before item after rest => before ++ (item.text ++ (after ++ ',' :: rest.text))

def Members.text : Members → List Char
  | .last before key gap inner value after =>
    before ++ (quoted key ++ (gap ++ ':' :: (inner ++ (value.text ++ after))))
  | .more before key gap inner value after rest =>
    before ++ (quoted key ++ (gap ++ ':' :: (inner ++ (value.text ++ (after ++ ',' :: rest.text)))))

end

mutual

def Source.value : Source → Value
  | .name entry => entry.2
  | .number n => n.value
  | .string ps => .str (piecesMeaning ps)
  | .emptyList _ => .list []
  | .list items => .list items.values
  | .emptyMap _ => .map []
  | .map members => .map (members.entries [])

def Items.values : Items → List Value
  | .last _ item _ => [item.value]
  | .more _ item _ rest => item.value :: rest.values

/-- The entries of a mapping after those that it has already. -/
def Members.entries : Members → Entries → Entries
  | .last _ key _ _ value _, done => done.insert (.str (piecesMeaning key)) value.value
  | .more _ key _ _ value _ rest, done =>
    rest.entries (done.insert (.str (piecesMeaning key)) value.value)

end

mutual

def Source.IsJson : Source → Prop
  | .name entry => entry ∈ names
  | .number n => n.IsJson
  | .string ps => PiecesJson ps
  | .emptyList blank => IsBlank blank
  | .list items => items.IsJson
  | .emptyMap blank => IsBlank blank
  | .map members => members.IsJson

def Items.IsJson : Items → Prop
  | .last before item after => IsBlank before ∧ item.IsJson ∧ IsBlank after
  | .more before item after rest => (IsBlank before ∧ item.IsJson ∧ IsBlank after) ∧ rest.IsJson

def Members.IsJson : Members → Prop
  | .last before key gap inner value after =>
    (IsBlank before ∧ PiecesJson key ∧ IsBlank gap) ∧ IsBlank inner ∧ value.IsJson ∧ IsBlank after
  | .more before key gap inner value after rest =>
    ((IsBlank before ∧ PiecesJson key ∧ IsBlank gap) ∧ IsBlank inner ∧ value.IsJson ∧
      IsBlank after) ∧ rest.IsJson

end

/-- A whole text: a value with the blanks around it. -/
structure Page where
  before : List Char
  root : Source
  after : List Char

namespace Page

def text (p : Page) : List Char := p.before ++ (p.root.text ++ p.after)

def value (p : Page) : Value := p.root.value

structure IsJson (p : Page) : Prop where
  before : IsBlank p.before
  root : p.root.IsJson
  after : IsBlank p.after

end Page

end ShellCompletion.Document.Json
