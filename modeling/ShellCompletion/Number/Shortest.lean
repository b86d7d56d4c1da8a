import ShellCompletion.Number.Binary64
import ShellCompletion.Text.Digit

/-! The texts of floating-point numbers: the fewest decimal digits that read back as the
number. -/
namespace ShellCompletion.Binary64

/-- The power of ten of the leading digit of a positive number, given as a quotient whose
value is at least `10 ^ (-400)`. -/
def leadingPower (num den : Nat) : Int :=
  (Nat.toDigits 10 (num * Nat.pow 10 400 / den)).length - 401

/-- The two neighbours of a quotient among the multiples of `10 ^ power`, the nearer first. -/
def decimalNeighbours (num den : Nat) (power : Int) : List Nat :=
  let (n, d) := if 0 ≤ power then (num, den * Nat.pow 10 power.toNat) else (num * Nat.pow 10 (-power).toNat, den)
  let q := n / d
  if 2 * (n % d) < d || (2 * (n % d) = d && q % 2 = 0) then [q, q + 1] else [q + 1, q]

/-- The first multiple of a power of ten that reads back as the number, as the multiplier
and the power, trying one digit more at each step. -/
def shortestFrom (x : Binary64) (num den : Nat) (top : Int) : Nat → Nat → Nat × Int
  | 0, count => ((decimalNeighbours num den (top + 1 - count)).headD 0, top + 1 - count)
  | fuel + 1, count =>
    let power := top + 1 - count
    match (decimalNeighbours num den power).find? fun q => ofDecimal false q power == x with
    | some q => (q, power)
    | none => shortestFrom x num den top fuel (count + 1)

/-- The shortest decimal that reads back as a positive finite number: its digits, and the
power of ten of the first of them. -/
def shortestDigits (mantissa : Nat) (exponent : Int) : List Char × Int :=
  let (num, den) := ratio mantissa exponent
  let (q, power) := shortestFrom (ofMantissa false mantissa exponent) num den
    (leadingPower num den) 17 1
  let digits := Nat.toDigits 10 q
  let kept := (digits.reverse.dropWhile (· == '0')).reverse
  (kept, power + digits.length - 1)

/-- Digits with a point after the first `whole` of them, zeros filling what is missing. -/
def positional (digits : List Char) (whole : Int) : List Char :=
  if whole ≤ 0 then '0' :: '.' :: List.replicate (-whole).toNat '0' ++ digits
  else
    let w := whole.toNat
    let after := digits.drop w
    digits.take w ++ List.replicate (w - digits.length) '0' ++ '.' ::
      (if after.isEmpty then ['0'] else after)

/-- A power of ten, of at least two digits. -/
def powerChars (power : Int) : List Char :=
  'e' :: (if power < 0 then '-' else '+') :: Text.padded 2 power.natAbs

/-- Digits with a point after the first and a power of ten. -/
def scientific (digits : List Char) (power : Int) : List Char :=
  let tail := digits.drop 1
  digits.take 1 ++ (if tail.isEmpty then [] else '.' :: tail) ++ powerChars power

/-- Powers of ten whose digits are written out; the others are left as a power. -/
def writtenOut (power : Int) : Bool := -4 ≤ power && power < 16

/-- The text of a number: the fewest digits that read back as it. -/
def textChars (x : Binary64) : List Char :=
  match x.meaning with
  | .nan => ['n', 'a', 'n']
  | .infinite negative => if negative then ['-', 'i', 'n', 'f'] else ['i', 'n', 'f']
  | .finite negative m e =>
    let sign := if negative then ['-'] else []
    if m = 0 then sign ++ ['0', '.', '0']
    else
      let (digits, power) := shortestDigits m e
      sign ++ if writtenOut power then positional digits (power + 1) else scientific digits power

def text (x : Binary64) : String := String.ofList x.textChars

end ShellCompletion.Binary64
