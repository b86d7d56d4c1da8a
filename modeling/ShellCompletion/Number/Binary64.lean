/-! Binary floating-point numbers of sixty-four bits, with exact arithmetic on what they
stand for. A finite number is a whole multiple of a power of two; rounding takes any
quotient of natural numbers to the nearest such number, a tie going to the even
neighbour. -/
namespace ShellCompletion

/-- A floating-point number, given by its bits: sign, eleven bits of exponent, and
fifty-two of fraction. -/
structure Binary64 where
  bits : UInt64
deriving DecidableEq, Repr, Inhabited

/-- What a floating-point number stands for. -/
inductive Binary64.Meaning where
  | nan
  | infinite (negative : Bool)
  /-- The number `mantissa * 2 ^ exponent`, or its negation. -/
  | finite (negative : Bool) (mantissa : Nat) (exponent : Int)
deriving DecidableEq, Repr

/-- A quotient rounded to the nearest whole number, a tie going to the even one. -/
def roundQuotient (num den : Nat) : Nat :=
  let q := num / den
  let twice := 2 * (num % den)
  if twice < den then q
  else if twice = den then q + q % 2
  else q + 1

theorem roundQuotient_le (num den : Nat) : roundQuotient num den ≤ num / den + 1 := by
  unfold roundQuotient
  grind

namespace Binary64

/-- The weight of the bit for the sign. -/
def signWeight : Nat := 0x8000000000000000

/-- The weight of the lowest bit of the exponent; a fraction is below it. -/
def unit : Nat := 0x10000000000000

def signBit (negative : Bool) : Nat := if negative then signWeight else 0

/-- The number with the given bits. -/
def ofBits (n : Nat) : Binary64 := ⟨UInt64.ofNat n⟩

def zero (negative : Bool) : Binary64 := ofBits (signBit negative)

def infinity (negative : Bool) : Binary64 := ofBits (signBit negative + 0x7FF * unit)

/-- What is not a number. There are many of these, told apart by a number of their own. -/
def nanOf (k : Nat) : Binary64 := ofBits (0x7FF * unit + unit / 2 + k % (unit / 2))

def nan : Binary64 := nanOf 0

def meaning (x : Binary64) : Meaning :=
  let word := x.bits.toNat
  let negative := word / signWeight == 1
  let exponent : Nat := word / unit % 0x800
  let fraction : Nat := word % unit
  if exponent = 0x7FF then if fraction = 0 then .infinite negative else .nan
  else if exponent = 0 then .finite negative fraction (-1074)
  else .finite negative (fraction + unit) ((exponent : Int) - 1075)

/-- The number `num / den * 2 ^ (-e)`, as a quotient again. -/
def scaled (num den : Nat) (e : Int) : Nat × Nat :=
  if 0 ≤ e then (num, den * Nat.pow 2 e.toNat) else (num * Nat.pow 2 (-e).toNat, den)

/-- The exponent of the last bit that a quotient keeps. -/
def lastBit (num den : Nat) : Int :=
  let e : Int := (Nat.log2 num : Int) - Nat.log2 den - 53
  let (n, d) := scaled num den e
  max (if 2 * unit ≤ n / d then e + 1 else e) (-1074)

/-- The number `mantissa * 2 ^ exponent`, where the mantissa has at most fifty-three bits,
or fifty-four when it is a power of two. -/
def ofMantissa (negative : Bool) (mantissa : Nat) (exponent : Int) : Binary64 :=
  let (m, e) := if mantissa = 2 * unit then (unit, exponent + 1) else (mantissa, exponent)
  if e > 971 then infinity negative
  else if m < unit then ofBits (signBit negative + m)
  else ofBits (signBit negative + (e + 1075).toNat * unit + (m - unit))

/-- The floating-point number nearest to a quotient. -/
def ofRatio (negative : Bool) (num den : Nat) : Binary64 :=
  if num = 0 then zero negative
  else
    let e := lastBit num den
    let (n, d) := scaled num den e
    ofMantissa negative (roundQuotient n d) e

/-- The floating-point number nearest to `digits * 10 ^ exponent`. -/
def ofDecimal (negative : Bool) (digits : Nat) (exponent : Int) : Binary64 :=
  if digits = 0 then zero negative
  else
    let size : Int := (Nat.toDigits 10 digits).length
    if exponent + size > 310 then infinity negative
    else if exponent + size < -330 then zero negative
    else if 0 ≤ exponent then ofRatio negative (digits * Nat.pow 10 exponent.toNat) 1
    else ofRatio negative digits (Nat.pow 10 (-exponent).toNat)

def ofNat (n : Nat) : Binary64 := ofRatio false n 1

/-- The exact value as a quotient of a natural number by a positive one. -/
def ratio (mantissa : Nat) (exponent : Int) : Nat × Nat :=
  if 0 ≤ exponent then (mantissa * Nat.pow 2 exponent.toNat, 1)
  else (mantissa, Nat.pow 2 (-exponent).toNat)

def isNaN (x : Binary64) : Bool := x.meaning == .nan

def isZero (x : Binary64) : Bool :=
  match x.meaning with
  | .finite _ m _ => m == 0
  | _ => false

/-- The whole number that a floating-point number equals, if there is one. -/
def toInt? (x : Binary64) : Option Int :=
  match x.meaning with
  | .finite negative m e =>
    let (n, d) := ratio m e
    if n % d = 0 then some (if negative then -(n / d : Nat) else (n / d : Nat)) else none
  | _ => none

/-- The whole part of a finite number. -/
def truncate? (x : Binary64) : Option Int :=
  match x.meaning with
  | .finite negative m e =>
    let (n, d) := ratio m e
    some (if negative then -(n / d : Nat) else (n / d : Nat))
  | _ => none

/-- Equality of the numbers stood for: the two zeros are equal, and what is not a number
equals only itself. -/
def same (x y : Binary64) : Bool := x == y || (x.isZero && y.isZero)

/-- Opposite number. -/
def neg (x : Binary64) : Binary64 :=
  ⟨x.bits ^^^ 0x8000000000000000⟩

/-- The number a signed quotient rounds to. -/
def ofSigned (num : Int) (den : Nat) : Binary64 := ofRatio (num < 0) num.natAbs den

/-- Sum, rounded once. -/
def add (x y : Binary64) : Binary64 :=
  match x.meaning, y.meaning with
  | .nan, _ | _, .nan => nan
  | .infinite s, .infinite t => if s == t then x else nan
  | .infinite _, _ => x
  | _, .infinite _ => y
  | .finite s m e, .finite t n f =>
    if m = 0 && n = 0 then zero (s && t)
    else
      let (a, b) := ratio m e
      let (c, d) := ratio n f
      let signed (negative : Bool) (k : Nat) : Int := if negative then -k else k
      ofSigned (signed s (a * d) + signed t (c * b)) (b * d)

/-- Product, rounded once. -/
def mul (x y : Binary64) : Binary64 :=
  match x.meaning, y.meaning with
  | .nan, _ | _, .nan => nan
  | .infinite s, .infinite t => infinity (s != t)
  | .infinite s, .finite t n _ | .finite t n _, .infinite s => if n = 0 then nan else infinity (s != t)
  | .finite s m e, .finite t n f =>
    let (a, b) := ratio m e
    let (c, d) := ratio n f
    ofRatio (s != t) (a * c) (b * d)

end Binary64

end ShellCompletion
