import ShellCompletion.Document.Value
import ShellCompletion.Document.Yaml.Fault
import ShellCompletion.Document.Yaml.Resolve
import ShellCompletion.Number.Reading

/-! The values of scalars in YAML by their tags. A text that does not fit its tag is a
defect of the scalar. -/
namespace ShellCompletion.Document.Yaml

open Text Calendar

/-- Why a scalar has no value. -/
inductive Defect where
  | noBool (word : String)
  | noInt (base : Nat) (text : String)
  | noFloat (text : String)
  /-- A part of a sum counts more often than a floating-point number can say. -/
  | tooLarge
  | noMoment
  /-- A moment is given by a mapping. -/
  | momentOfMapping
  | empty
  | outOfRange (e : RangeError)
  | noCharacter (code : Nat)
  /-- A mapping stands for the text of a value in it, and so comes to stand for itself. -/
  | endless
deriving DecidableEq, Repr

/-- How much of the literal of a text a message shows that is no whole number. -/
def shownLength : Nat := 200

def Defect.message : Defect → String
  | noBool word => Text.literal word
  | noInt base text =>
    s!"invalid literal for int() with base {base}: " ++
      String.ofList ((Text.literalChars text.toList).take shownLength)
  | noFloat text => "could not convert string to float: " ++ Text.literal text
  | tooLarge => "int too large to convert to float"
  | noMoment => "'NoneType' object has no attribute 'groupdict'"
  | momentOfMapping => "expected string or bytes-like object, got 'list'"
  | empty => "string index out of range"
  | outOfRange e => e.message
  | noCharacter code => (Problem.noCharacter code).text
  | endless => "maximum recursion depth exceeded"

/-- A text cut at every colon. -/
def splitColons (s : List Char) : List (List Char) :=
  s.foldr (fun c parts =>
    if c == ':' then [] :: parts
    else match parts with
      | p :: ps => (c :: p) :: ps
      | [] => [[c]]) [[]]

def boolValue (s : List Char) : Except Defect Bool :=
  let word := String.ofList (lower s)
  if ["yes", "true", "on"].contains word then .ok true
  else if ["no", "false", "off"].contains word then .ok false
  else .error (.noBool word)

def readBase (base : Nat) (s : List Char) : Except Defect Int :=
  match readInt? base s with
  | some n => .ok n
  | none => .error (.noInt base (String.ofList s))

/-- A number without its sign. -/
def unsignedInt (s : List Char) : Except Defect Int :=
  match s with
  | [] => .error .empty
  | ['0'] => .ok 0
  | '0' :: 'b' :: r => readBase 2 r
  | '0' :: 'x' :: r => readBase 16 r
  | '0' :: _ => readBase 8 s
  | s =>
    if s.contains ':' then do
      let digits ← (splitColons s).mapM (readBase 10)
      return digits.foldl (fun n d => n * 60 + d) 0
    else readBase 10 s

/-- Low lines only part digits. -/
def withoutLines (s : List Char) : List Char := s.filter (· != '_')

def intValue (s : List Char) : Except Defect Int := do
  match withoutLines s with
  | [] => throw .empty
  | c :: r =>
    let n ← unsignedInt (if isSign c then r else c :: r)
    return if c == '-' then -n else n

def readPart (s : List Char) : Except Defect Binary64 :=
  match Binary64.read? s with
  | some x => .ok x
  | none => .error (.noFloat (String.ofList s))

/-- Add parts to a sum, the first of which counts `weight` times, the next one sixty times as
often, and so on. -/
def sixtySumFrom (sum : Binary64) (weight : Nat) : List Binary64 → Except Defect Binary64
  | [] => .ok sum
  | x :: xs =>
    let factor := Binary64.ofNat weight
    match factor.meaning with
    | .infinite _ => .error .tooLarge
    | _ => sixtySumFrom (sum.add (x.mul factor)) (weight * 60) xs

/-- The sum of parts, the last of which counts once. -/
def sixtySum (parts : List Binary64) : Except Defect Binary64 :=
  sixtySumFrom (.zero false) 1 parts.reverse

def nanName : List Char := ['.', 'n', 'a', 'n']

def unsignedFloat (s : List Char) : Except Defect Binary64 :=
  if s = ['.', 'i', 'n', 'f'] then .ok (.infinity false)
  else if s = nanName then .ok .nan
  else if s.contains ':' then do sixtySum (← (splitColons s).mapM readPart)
  else readPart s

/-- The number that the scalar at a node stands for. What is not a number is told apart by its
node, unless it is given by its name. -/
def floatValue (node : Nat) (s : List Char) : Except Defect Binary64 := do
  match lower (withoutLines s) with
  | [] => throw .empty
  | c :: r =>
    let unsigned := if isSign c then r else c :: r
    let x ← unsignedFloat unsigned
    return if x.isNaN then if unsigned = nanName then .nan else .nanOf (node + 1)
      else if c == '-' then x.neg else x

def number (ds : List Char) : Nat := valueOf 10 (ds.filterMap digitValue?)

/-- Microseconds from the digits of a fraction, six of which count. -/
def microseconds (ds : List Char) : Nat :=
  let kept := ds.take 6
  number (kept ++ List.replicate (6 - kept.length) '0')

/-- The minutes by which a clock is ahead. -/
def zoneMinutes (zone : Char × List Char × List Char) : Int :=
  let (sign, hours, minutes) := zone
  let n : Int := number hours * 60 + number minutes
  if sign == '-' then -n else n

def timestampValue (s : List Char) : Except Defect Value :=
  match (timeParts? s).or (timeParts? (dropLastNewline s)) with
  | none => .error .noMoment
  | some p =>
    let d : Date := ⟨number p.year, number p.month, number p.day⟩
    let checked := match p.time with
      | none => d.check.map Value.date
      | some (hour, minute, second, fraction) =>
        (Moment.check ⟨d, ⟨number hour, number minute, number second, microseconds fraction⟩,
          p.zone.map zoneMinutes⟩).map Value.moment
    match checked with
    | .ok v => .ok v
    | .error e => .error (.outOfRange e)

/-! ### Bytes in base sixty-four -/

/-- The value of a digit of base sixty-four. -/
def base64Digit? (c : Char) : Option Nat :=
  let n := c.toNat
  if 0x41 ≤ n && n ≤ 0x5A then some (n - 0x41)
  else if 0x61 ≤ n && n ≤ 0x7A then some (n - 0x61 + 26)
  else if 0x30 ≤ n && n ≤ 0x39 then some (n - 0x30 + 52)
  else if c == '+' then some 62
  else if c == '/' then some 63
  else none

/-- Reading groups of four digits: how many digits of the current group are read, the bits
left over from the last one, the paddings since then, and the bytes, last first. -/
structure Base64 where
  place : Nat := 0
  left : Nat := 0
  pads : Nat := 0
  bytes : List UInt8 := []

def Base64.digit (b : Base64) (d : Nat) : Base64 :=
  match b.place with
  | 0 => ⟨1, d, 0, b.bytes⟩
  | 1 => ⟨2, d % 16, 0, UInt8.ofNat (b.left * 4 + d / 16) :: b.bytes⟩
  | 2 => ⟨3, d % 4, 0, UInt8.ofNat (b.left * 16 + d / 4) :: b.bytes⟩
  | _ => ⟨0, 0, 0, UInt8.ofNat (b.left * 64 + d) :: b.bytes⟩

/-- Padding ends the bytes when it completes a group; other characters are skipped. -/
def base64From (b : Base64) : List Char → Except String (List UInt8)
  | [] =>
    if b.place = 0 then .ok b.bytes.reverse
    else if b.place = 1 then
      .error ("Invalid base64-encoded string: number of data characters " ++
        s!"({b.bytes.length / 3 * 4 + 1}) cannot be 1 more than a multiple of 4")
    else .error "Incorrect padding"
  | '=' :: r =>
    if 2 ≤ b.place then
      if 4 ≤ b.place + b.pads + 1 then .ok b.bytes.reverse
      else base64From { b with pads := b.pads + 1 } r
    else base64From b r
  | c :: r =>
    match base64Digit? c with
    | some d => base64From (b.digit d) r
    | none => base64From b r

def isAscii (c : Char) : Bool := c.toNat < 0x80

/-- The first characters that are not of the basic Latin script, and how they are told. -/
def notAsciiText (s : List Char) : String :=
  let start := (s.takeWhile isAscii).length
  let bad := (s.drop start).takeWhile (!isAscii ·)
  let place := match bad with
    | [c] => "character '" ++ String.ofList (escapeCode c.toNat) ++ s!"' in position {start}"
    | bad => s!"characters in position {start}-{start + bad.length - 1}"
  "'ascii' codec can't encode " ++ place ++ ": ordinal not in range(128)"

def binaryValue (s : List Char) : Except Problem Value :=
  if s.all isAscii then
    match base64From {} s with
    | .ok data => .ok (.bytes data)
    | .error e => .error (.badBase64 e)
  else .error (.notAscii (notAsciiText s))

end ShellCompletion.Document.Yaml
