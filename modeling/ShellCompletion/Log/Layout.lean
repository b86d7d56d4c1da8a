import ShellCompletion.Document.Literal
import ShellCompletion.Log.Template
import ShellCompletion.Number.Rounded

/-! How a template writes an argument: as text, as a whole number of some base, as a rounded
number, or as one character, filled up to a width. -/
namespace ShellCompletion.Log

open Document

/-- Why a message can not be put together. -/
inductive TemplateError where
  | tooFew
  | tooMany
  | incomplete
  | unclosedKey
  | noMapping
  | missingKey (key : String)
  | widthTooBig
  | precisionTooBig
  /-- The argument for a width or a precision is no whole number. -/
  | noSize
  | sizeOutOfRange (counted : String)
  | tooPrecise
  | tooWide
  | badLetter (c : Char) (index : Nat)
  | noNumber (letter : Char) (found : String)
  | noReal (found : String)
  | noInteger (letter : Char) (found : String)
  | infinite
  | notANumber
  | tooLarge
  | noCharacter
  | characterOutOfRange
deriving DecidableEq, Repr

/-- A letter as a message shows it. -/
def shownLetter (c : Char) : Char := if 31 ≤ c.toNat && c.toNat ≤ 126 then c else '?'

def TemplateError.message : TemplateError → String
  | tooFew => "not enough arguments for format string"
  | tooMany => "not all arguments converted during string formatting"
  | incomplete => "incomplete format"
  | unclosedKey => "incomplete format key"
  | noMapping => "format requires a mapping"
  | missingKey key => Text.literal key
  | widthTooBig => "width too big"
  | precisionTooBig => "precision too big"
  | noSize => "* wants int"
  | sizeOutOfRange counted => "Python int too large to convert to C " ++ counted
  | tooPrecise => "precision too large"
  | tooWide => ""
  | badLetter c i =>
    "unsupported format character '" ++ (shownLetter c).toString ++ "' (0x" ++
      String.ofList (Nat.toDigits 16 c.toNat) ++ s!") at index {i}"
  | noNumber letter found => "%" ++ letter.toString ++ " format: a real number is required, not " ++ found
  | noReal found => "must be real number, not " ++ found
  | noInteger letter found => "%" ++ letter.toString ++ " format: an integer is required, not " ++ found
  | infinite => "cannot convert float infinity to integer"
  | notANumber => "cannot convert float NaN to integer"
  | tooLarge => "int too large to convert to float"
  | noCharacter => "%c requires int or char"
  | characterOutOfRange => "%c arg not in range(0x110000)"

/-- A place whose width and precision are known. -/
structure Layout where
  flags : Flags
  width : Nat
  precision : Option Nat
deriving DecidableEq, Repr

/-- A text with escapes in place of all characters that are not of the basic Latin script. -/
def asciiText (s : String) : String :=
  String.ofList (s.toList.flatMap fun c => if c.toNat < 0x80 then [c] else Text.escapeCode c.toNat)

/-- The whole number that a value is. -/
def integerOf? : Value → Option Int
  | .int n => some n
  | .bool b => some (if b then 1 else 0)
  | _ => none

namespace Layout

/-- More characters than this do not fit anywhere. -/
def maxWidth : Nat := 0x40000000

/-- A whole number has no more digits than this. -/
def maxDigits : Nat := 0x7FFFFFFC

/-- A text filled up to the width. -/
def fill (l : Layout) (s : List Char) : List Char :=
  let missing := l.width - s.length
  if l.flags.left then s ++ List.replicate missing ' ' else List.replicate missing ' ' ++ s

/-- A number filled up to the width; zeros stand after the sign and the mark of the base. -/
def fillNumber (l : Layout) (negative : Bool) (mark digits : List Char) : List Char :=
  let sign := if negative then ['-'] else if l.flags.plus then ['+'] else if l.flags.space then [' '] else []
  let front := sign ++ mark
  if l.flags.zeros && !l.flags.left then
    front ++ List.replicate (l.width - front.length - digits.length) '0' ++ digits
  else l.fill (front ++ digits)

/-- A text of which no more than the precision is shown. -/
def fillText (l : Layout) (s : String) : List Char :=
  l.fill (match l.precision with | some n => s.toList.take n | none => s.toList)

/-- A number written with a sign of its own. -/
def fillSigned (l : Layout) (s : List Char) : List Char :=
  if s.head? == some '-' then l.fillNumber true [] (s.drop 1) else l.fillNumber false [] s

/-- The digits of a whole number, as many as the precision at least. -/
def fillInt (l : Layout) (base : Nat) (mark : List Char) (n : Int) : Except TemplateError (List Char) :=
  let precision := l.precision.getD 0
  if maxDigits < precision then .error .tooPrecise
  else
    let digits := Nat.toDigits base n.natAbs
    .ok (l.fillNumber (n < 0) (if l.flags.marked then mark else [])
      (List.replicate (precision - digits.length) '0' ++ digits))

/-- A whole number in decimal; the whole part of any other number is written. -/
def decimal (l : Layout) (letter : Char) (v : Value) : Except TemplateError (List Char) :=
  match v with
  | .float x =>
    match x.meaning, x.truncate? with
    | .nan, _ => .error .notANumber
    | _, some n => l.fillInt 10 [] n
    | _, none => .error .infinite
  | v =>
    match integerOf? v with
    | some n => l.fillInt 10 [] n
    | none => .error (.noNumber letter v.typeName)

/-- A whole number of a base. -/
def ofBase (l : Layout) (letter : Char) (base : Nat) (v : Value) : Except TemplateError (List Char) :=
  match integerOf? v with
  | some n => l.fillInt base ['0', letter] n
  | none => .error (.noInteger letter v.typeName)

/-- A number rounded by a function of the precision. -/
def real (l : Layout) (chars : Bool → Nat → Binary64 → List Char) (v : Value) :
    Except TemplateError (List Char) :=
  let write (x : Binary64) := l.fillSigned (chars l.flags.marked (l.precision.getD 6) x)
  match v with
  | .float x => .ok (write x)
  | v =>
    match integerOf? v with
    | some n =>
      let x := Binary64.ofSigned n 1
      match x.meaning with
      | .infinite _ => .error .tooLarge
      | _ => .ok (write x)
    | none => .error (.noReal v.typeName)

/-- One character, given itself or by its code point. -/
def character (l : Layout) (v : Value) : Except TemplateError (List Char) :=
  match v, integerOf? v with
  | _, some n =>
    if n < 0 || 0x110000 ≤ n then .error .characterOutOfRange else .ok (l.fill [Char.ofNat n.toNat])
  | .str s, none => if s.length = 1 then .ok (l.fill s.toList) else .error .noCharacter
  | _, none => .error .noCharacter

def inCapitals (s : List Char) : List Char := s.map Char.toUpper

/-- Write an argument as a letter says that stands at an index of the template. -/
def write (l : Layout) (letter : Char) (index : Nat) (v : Value) : Except TemplateError (List Char) := do
  let s ← match letter with
    | 's' => pure (l.fillText v.plainText)
    | 'r' => pure (l.fillText v.literal)
    | 'a' => pure (l.fillText (asciiText v.literal))
    | 'd' | 'i' | 'u' => l.decimal letter v
    | 'x' | 'X' => do
      let s ← l.ofBase letter 16 v
      pure (if letter = 'X' then inCapitals s else s)
    | 'o' => l.ofBase letter 8 v
    | 'f' => l.real Binary64.fixedChars v
    | 'F' => inCapitals <$> l.real Binary64.fixedChars v
    | 'e' => l.real Binary64.scientificChars v
    | 'E' => inCapitals <$> l.real Binary64.scientificChars v
    | 'g' => l.real Binary64.generalChars v
    | 'G' => inCapitals <$> l.real Binary64.generalChars v
    | 'c' => l.character v
    | c => throw (.badLetter c index)
  return s

end Layout

end ShellCompletion.Log
