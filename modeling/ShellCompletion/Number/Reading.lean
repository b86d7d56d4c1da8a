import ShellCompletion.Number.Binary64
import ShellCompletion.Text.Blank
import ShellCompletion.Text.Digit
import ShellCompletion.Text.LowerCase

/-! Numbers read from text: whole numbers of a base with an optional sign, and decimal
numbers with a point and a power of ten. Blanks around a number are ignored, but not the
information separators, and digits of any script are taken. -/
namespace ShellCompletion

namespace Text

/-- A blank that may stand before or after a number. -/
def isOuterBlank (c : Char) : Bool := isBlank c && !(0x1C ≤ c.toNat && c.toNat ≤ 0x1F)

/-- A sign in front of a number, and the rest. -/
def splitSign : List Char → Bool × List Char
  | '-' :: r => (true, r)
  | '+' :: r => (false, r)
  | r => (false, r)

/-- Digits of a base, of any script when they are decimal. -/
def digitsOf? (base : Nat) (s : List Char) : Option (List Nat) :=
  s.mapM fun c =>
    match baseDigit? base c with
    | some d => some d
    | none => (digitValue? c).filter (· < base)

/-- The rest after the mark of a base, such as `0x` for sixteen, if it is there. -/
def dropBaseMark (base : Nat) : List Char → List Char
  | '0' :: m :: r =>
    let mark := (lowerChar m).headD m
    if (base == 2 && mark == 'b') || (base == 8 && mark == 'o') || (base == 16 && mark == 'x')
    then r else '0' :: m :: r
  | r => r

/-- A whole number of a base. -/
def readInt? (base : Nat) (s : List Char) : Option Int :=
  let (negative, rest) := splitSign (trimBy isOuterBlank s)
  let digits := dropBaseMark base rest
  if digits.isEmpty then none
  else (digitsOf? base digits).map fun ds =>
    let n : Int := valueOf base ds
    if negative then -n else n

end Text

namespace Binary64

open Text

/-- The decimal digits at the front of a text, and the rest. -/
def spanDigits (s : List Char) : List Nat × List Char :=
  ((s.takeWhile fun c => (digitValue? c).isSome).filterMap digitValue?,
    s.dropWhile fun c => (digitValue? c).isSome)

/-- The power of ten at the end of a decimal: none written is zero. -/
def readPower? : List Char → Option Int
  | [] => some 0
  | c :: r =>
    if c == 'e' || c == 'E' then
      let (negative, rest) := splitSign r
      let (ds, left) := spanDigits rest
      if ds.isEmpty || !left.isEmpty then none
      else
        let n : Int := valueOf 10 ds
        some (if negative then -n else n)
    else none

/-- A decimal without its sign. -/
def readUnsigned? (negative : Bool) (s : List Char) : Option Binary64 :=
  let (whole, rest) := spanDigits s
  let (places, rest) := match rest with
    | '.' :: r => spanDigits r
    | r => ([], r)
  if whole.isEmpty && places.isEmpty then none
  else (readPower? rest).map fun power =>
    ofDecimal negative (valueOf 10 (whole ++ places)) (power - places.length)

/-- A floating-point number read from a decimal, or from a name of infinity or of what is
not a number. -/
def read? (s : List Char) : Option Binary64 :=
  let (negative, rest) := splitSign (trimBy isOuterBlank s)
  let name := String.ofList (lower rest)
  if name == "inf" || name == "infinity" then some (infinity negative)
  else if name == "nan" then some nan
  else readUnsigned? negative rest

end Binary64

end ShellCompletion
