import ShellCompletion.Document.Value

/-! The literal of a value, as messages show the value, and the plain text of a value, as
messages show a key: there a text stands for itself. Both are given for whole numbers of any
length; which values can be shown at all is said apart. -/
namespace ShellCompletion.Document

open Text

/-- One byte inside the literal of a run of bytes. -/
def byteChars (quote : Char) (b : UInt8) : List Char :=
  let n := b.toNat
  if 0x20 ≤ n && n < 0x7F || n == 9 || n == 10 || n == 13 then escapeChar quote (Char.ofNat n)
  else '\\' :: 'x' :: hex 2 n

/-- The literal of a run of bytes: a text literal marked with a letter. -/
def bytesLiteral (data : List UInt8) : String :=
  let q := literalQuote (data.map fun b => Char.ofNat b.toNat)
  String.ofList ('b' :: q :: data.flatMap (byteChars q) ++ [q])

/-- Items in brackets, with commas between them. -/
def bracketed (left right : String) (items : List String) : String :=
  left ++ ", ".intercalate items ++ right

namespace Value

mutual

def literal : Value → String
  | null => "None"
  | bool b => if b then "True" else "False"
  | int n => toString n
  | float x => x.text
  | str s => Text.literal s
  | bytes d => bytesLiteral d
  | date d => d.literal
  | time t => t.literal
  | moment m => m.literal
  | list xs => bracketed "[" "]" (literals xs)
  | tuple xs => if xs.length = 1 then bracketed "(" ",)" (literals xs) else bracketed "(" ")" (literals xs)
  | set xs => if xs.isEmpty then "set()" else bracketed "\x7b" "\x7d" (literals xs)
  | map es => bracketed "\x7b" "\x7d" (entryLiterals es)
  | enclosing _ => "[...]"

def literals : List Value → List String
  | [] => []
  | x :: xs => literal x :: literals xs

def entryLiterals : List (Value × Value) → List String
  | [] => []
  | (k, v) :: es => (literal k ++ ": " ++ literal v) :: entryLiterals es

end

/-- A text stands for itself, a date, a time and a moment for what a document writes, and any
other value for its literal. -/
def plainText : Value → String
  | str s => s
  | date d => d.text
  | time t => t.text
  | moment m => m.text " "
  | v => v.literal

end Value

/-! ### What can be shown -/

/-- A whole number of more digits can not be shown. -/
def maxDigits : Nat := 4300

def tooManyDigitsText : String :=
  "Exceeds the limit (4300 digits) for integer string conversion; use " ++
    "sys.set_int_max_str_digits() to increase the limit"

def isShowableInt (n : Int) : Bool := (Nat.toDigits 10 n.natAbs).length ≤ maxDigits

namespace Value

mutual

/-- Can every whole number in a value be shown? -/
def isShowable : Value → Bool
  | int n => isShowableInt n
  | list xs | tuple xs | set xs => areShowable xs
  | map es => haveShowable es
  | _ => true

def areShowable : List Value → Bool
  | [] => true
  | x :: xs => isShowable x && areShowable xs

def haveShowable : List (Value × Value) → Bool
  | [] => true
  | (k, v) :: es => isShowable k && isShowable v && haveShowable es

end

end Value

end ShellCompletion.Document
