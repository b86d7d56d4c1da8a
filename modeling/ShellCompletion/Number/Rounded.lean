import ShellCompletion.Number.Shortest

/-! Texts of floating-point numbers that are rounded to so many places or digits; the last
one is rounded to the nearest, and to even on a tie. A pointed text has a point even where
no digit follows it. -/
namespace ShellCompletion.Binary64

/-- The text of a number by that of a positive quotient; zero has a text of its own. -/
def signedChars (zero : List Char) (positive : Nat → Nat → List Char) (x : Binary64) : List Char :=
  match x.meaning with
  | .nan => ['n', 'a', 'n']
  | .infinite negative => if negative then ['-', 'i', 'n', 'f'] else ['i', 'n', 'f']
  | .finite negative m e =>
    let (num, den) := ratio m e
    (if negative then ['-'] else []) ++ if m = 0 then zero else positive num den

/-- Digits before and after a point. -/
def withPoint (pointed : Bool) (whole places : List Char) : List Char :=
  if places.isEmpty && !pointed then whole else whole ++ '.' :: places

/-- A quotient with so many places. -/
def fixedQuotient (pointed : Bool) (places num den : Nat) : List Char :=
  let digits := Text.padded (places + 1) (roundQuotient (num * Nat.pow 10 places) den)
  let whole := digits.length - places
  withPoint pointed (digits.take whole) (digits.drop whole)

/-- The text of a number with a fixed number of places. -/
def fixedChars (pointed : Bool) (places : Nat) : Binary64 → List Char :=
  signedChars (fixedQuotient pointed places 0 1) (fixedQuotient pointed places)

/-- So many leading digits of a positive quotient, and the power of ten of the first. -/
def leadingDigits (count num den : Nat) : List Char × Int :=
  let power := leadingPower num den + 1 - count
  let (n, d) := if 0 ≤ power then (num, den * Nat.pow 10 power.toNat) else (num * Nat.pow 10 (-power).toNat, den)
  let digits := Nat.toDigits 10 (roundQuotient n d)
  (digits.take count, power + digits.length - 1)

/-- Digits with a point after the first and a power of ten. -/
def scientificDigits (pointed : Bool) (digits : List Char) (power : Int) : List Char :=
  withPoint pointed (digits.take 1) (digits.drop 1) ++ powerChars power

/-- The text of a number as one digit, so many places and a power of ten. -/
def scientificChars (pointed : Bool) (places : Nat) : Binary64 → List Char :=
  signedChars (scientificDigits pointed (List.replicate (places + 1) '0') 0) fun num den =>
    let (digits, power) := leadingDigits (places + 1) num den
    scientificDigits pointed digits power

/-- Digits of a number with at most `count` of them, written out where that many reach the point
and there are few zeros before them, and with a power of ten elsewhere. Zeros at the end are
kept in a pointed text only. -/
def generalDigits (pointed : Bool) (count : Nat) (digits : List Char) (power : Int) : List Char :=
  let kept := if pointed then digits else (digits.reverse.dropWhile (· == '0')).reverse
  if power < -4 || count ≤ power then scientificDigits pointed kept power
  else if power < 0 then withPoint pointed ['0'] (List.replicate (-power - 1).toNat '0' ++ kept)
  else
    let whole := power.toNat + 1
    withPoint pointed (digits.take whole) (kept.drop whole)

/-- No number has more decimal digits than this, the zeros at its end apart. -/
def mostDigits : Nat := 800

/-- The text of a number with at most so many digits. -/
def generalChars (pointed : Bool) (count : Nat) : Binary64 → List Char :=
  let count := max 1 count
  let wanted := if pointed then count else min count mostDigits
  signedChars (generalDigits pointed count (List.replicate wanted '0') 0) fun num den =>
    let (digits, power) := leadingDigits wanted num den
    generalDigits pointed count digits power

end ShellCompletion.Binary64
