import ShellCompletion.Document.Toml.Fault
import ShellCompletion.Document.Value
import ShellCompletion.Number.Reading

/-! The scalars of TOML: strings in four forms, numbers, dates and times. -/
namespace ShellCompletion.Document.Toml

open Text Calendar

def isSpace (c : Char) : Bool := c == ' ' || c == '\t'

def isSpaceOrNewline (c : Char) : Bool := isSpace c || c == '\n'

/-- Control characters other than the tab may not stand in a line. -/
def isControl (c : Char) : Bool := (c.toNat < 0x20 && c != '\t') || c.toNat == 0x7F

/-- Over several lines, newlines are fine. -/
def isControlInLines (c : Char) : Bool := isControl c && c != '\n'

/-- How many characters stand before a text, if the text occurs. -/
def indexOf? (s : List Char) : List Char → Option Nat
  | [] => if s.isEmpty then some 0 else none
  | c :: r => if s.isPrefixOf (c :: r) then some 0 else (indexOf? s r).map (· + 1)

/-- The characters before a closing text, none of which may be bad. -/
def readUntil (close : List Char) (bad : Char → Bool) (closed : Bool) (r : Rest) :
    Except Fault (List Char × Rest) :=
  match indexOf? close r.chars, closed with
  | none, true => fault (.expected (String.ofList close)) (r.drop r.chars.length)
  | found, _ =>
    let body := r.chars.take (found.getD r.chars.length)
    match body.find? bad with
    | some c => fault (.invalid c) (r.drop (body.takeWhile (!bad ·)).length)
    | none => .ok (body, r.drop body.length)

/-- A comment, if there is one. -/
def skipComment (r : Rest) : Except Fault Rest :=
  match r.chars with
  | '#' :: _ => (readUntil ['\n'] isControl false (r.drop 1)).map (·.2)
  | _ => .ok r

/-- A string between single quotes, which means what it says. -/
def literalString (r : Rest) : Except Fault (List Char × Rest) := do
  let (s, r) ← readUntil ['\''] isControl true (r.drop 1)
  return (s, r.drop 1)

/-- A character given by its number in so many hexadecimal digits. -/
def hexChar (count : Nat) (r : Rest) : Except Fault (Char × Rest) :=
  let ds := r.chars.take count
  match ds.length == count, ds.mapM (baseDigit? 16) with
  | true, some values =>
    let n := valueOf 16 values
    if n < 0xD800 || (0xDFFF < n && n ≤ 0x10FFFF) then .ok (Char.ofNat n, r.drop count)
    else fault .noScalar (r.drop count)
  | _, _ => fault .hexValue r

/-- What a backslash stands for together with what follows it. -/
def escapeSequence (lines : Bool) (r : Rest) : Except Fault (List Char × Rest) :=
  let after := r.drop 2
  match r.chars.drop 1 with
  | 'b' :: _ => .ok (['\x08'], after)
  | 't' :: _ => .ok (['\t'], after)
  | 'n' :: _ => .ok (['\n'], after)
  | 'f' :: _ => .ok (['\x0c'], after)
  | 'r' :: _ => .ok (['\r'], after)
  | '"' :: _ => .ok (['"'], after)
  | '\\' :: _ => .ok (['\\'], after)
  | 'u' :: _ => (hexChar 4 after).map fun (c, r) => ([c], r)
  | 'U' :: _ => (hexChar 8 after).map fun (c, r) => ([c], r)
  | c :: _ =>
    if lines && c == '\n' then .ok ([], after.skip isSpaceOrNewline)
    else if lines && isSpace c then
      let r := after.skip isSpace
      match r.chars with
      | [] => .ok ([], r)
      | '\n' :: _ => .ok ([], r.skip isSpaceOrNewline)
      | _ => fault .backslash r
    else fault .backslash after
  | [] => fault .backslash after

/-- A string between double quotes from after the opening ones; `done` holds what has been
read, last first. -/
def basicString (lines : Bool) : Nat → List Char → Rest → Except Fault (List Char × Rest)
  | 0, _, r => fault .unterminated r
  | fuel + 1, done, r =>
    match r.chars with
    | [] => fault .unterminated r
    | '"' :: more =>
      if !lines then .ok (done.reverse, r.drop 1)
      else if ['"', '"'].isPrefixOf more then .ok (done.reverse, r.drop 3)
      else basicString lines fuel ('"' :: done) (r.drop 1)
    | '\\' :: _ => do
      let (cs, r) ← escapeSequence lines r
      basicString lines fuel (cs.reverse ++ done) r
    | c :: _ =>
      if (if lines then isControlInLines c else isControl c) then fault (.illegal c) r
      else basicString lines fuel (c :: done) (r.drop 1)

def oneLineString (r : Rest) : Except Fault (List Char × Rest) :=
  basicString false r.chars.length [] (r.drop 1)

/-- A string over several lines, from its opening quotes on. A first newline is dropped, and
up to two more quotes may stand before the closing three. -/
def manyLineString (quote : Char) (r : Rest) : Except Fault (List Char × Rest) := do
  let r := r.drop 3
  let r := if r.startsWith ['\n'] then r.drop 1 else r
  let (s, r) ←
    if quote == '\'' then do
      let (s, r) ← readUntil ['\'', '\'', '\''] isControlInLines true r
      pure (s, r.drop 3)
    else basicString true (r.chars.length + 1) [] r
  let extra := (r.chars.take 2).takeWhile (· == quote)
  return (s ++ extra, r.drop extra.length)

/-! ### Numbers -/

/-- Digits with single underscores between them; what follows such an underscore that is no
digit is not taken. -/
def digitRun (isDigit : Char → Bool) : List Char → List Char
  | [] => []
  | c :: '_' :: r =>
    if isDigit c then
      match r with
      | d :: _ => if isDigit d then c :: '_' :: digitRun isDigit r else [c]
      | [] => [c]
    else []
  | c :: r => if isDigit c then c :: digitRun isDigit r else []

def isBaseDigit (base : Nat) (c : Char) : Bool := (baseDigit? base c).isSome

/-- The number that digits stand for. -/
def digitsValue (base : Nat) (s : List Char) : Nat := valueOf base (s.filterMap (baseDigit? base))

/-- A number with the mark of its base, and its length. -/
def markedNumber? (s : List Char) : Option (Value × Nat) :=
  let read (base : Nat) (r : List Char) : Option (Value × Nat) :=
    let ds := digitRun (isBaseDigit base) r
    if ds.isEmpty then none else some (.int (digitsValue base ds), ds.length + 2)
  match s with
  | '0' :: 'x' :: r => read 16 r
  | '0' :: 'b' :: r => read 2 r
  | '0' :: 'o' :: r => read 8 r
  | _ => none

/-- The fraction of a number, with its point. -/
def fraction (s : List Char) : List Char :=
  match s with
  | '.' :: r =>
    let ds := digitRun isDigit r
    if ds.isEmpty then [] else '.' :: ds
  | _ => []

def signPart (s : List Char) : List Char := (s.take 1).takeWhile fun c => c == '+' || c == '-'

/-- The power of ten of a number, with its letter. -/
def powerOfTen (s : List Char) : List Char :=
  match s with
  | e :: r =>
    if e == 'e' || e == 'E' then
      let sign := signPart r
      let ds := digitRun isDigit (r.drop sign.length)
      if ds.isEmpty then [] else e :: sign ++ ds
    else []
  | [] => []

/-- A decimal number, and its length. -/
def decimalNumber? (s : List Char) : Option (Value × Nat) :=
  let sign := signPart s
  let rest := s.drop sign.length
  let whole := match rest with
    | '0' :: _ => ['0']
    | rest => digitRun isDigit rest
  if whole.isEmpty then none
  else
    let rest := rest.drop whole.length
    let places := fraction rest
    let power := powerOfTen (rest.drop places.length)
    let all := sign ++ whole ++ places ++ power
    let n := digitsValue 10 whole
    let v : Option Value :=
      if places.isEmpty && power.isEmpty then some (.int (if sign == ['-'] then -n else n))
      else (Binary64.read? (all.filter (· != '_'))).map .float
    v.map (·, all.length)

def number? (s : List Char) : Option (Value × Nat) := (markedNumber? s).or (decimalNumber? s)

/-- The names of infinity and of what is not a number, with a sign or without. -/
def namedNumber? (s : List Char) : Option (Value × Nat) :=
  let sign := signPart s
  match s.drop sign.length with
  | 'i' :: 'n' :: 'f' :: _ => some (.float (.infinity (sign == ['-'])), sign.length + 3)
  | 'n' :: 'a' :: 'n' :: _ => some (.float .nan, sign.length + 3)
  | _ => none

/-! ### Dates and times -/

/-- A number of so many digits within a range, and the rest. -/
def fixedNumber? (count low high : Nat) (s : List Char) : Option (Nat × List Char) :=
  let ds := s.take count
  if ds.length == count && ds.all isDigit then
    let n := digitsValue 10 ds
    if low ≤ n && n ≤ high then some (n, s.drop count) else none
  else none

def exactly? (c : Char) (s : List Char) : Option (List Char) :=
  if s.head? == some c then some (s.drop 1) else none

/-- Microseconds from the digits of a fraction, six of which count. -/
def microseconds (ds : List Char) : Nat :=
  let kept := ds.take 6
  digitsValue 10 (kept ++ List.replicate (6 - kept.length) '0')

def date? (s : List Char) : Option (Date × List Char) := do
  let (year, s) ← fixedNumber? 4 0 9999 s
  let (month, s) ← fixedNumber? 2 1 12 (← exactly? '-' s)
  let (day, s) ← fixedNumber? 2 1 31 (← exactly? '-' s)
  return (⟨year, month, day⟩, s)

def time? (s : List Char) : Option (TimeOfDay × List Char) := do
  let (hour, s) ← fixedNumber? 2 0 23 s
  let (minute, s) ← fixedNumber? 2 0 59 (← exactly? ':' s)
  let (second, s) ← fixedNumber? 2 0 59 (← exactly? ':' s)
  let ds := match s with
    | '.' :: r => r.takeWhile isDigit
    | _ => []
  return (⟨hour, minute, second, microseconds ds⟩, if ds.isEmpty then s else s.drop (ds.length + 1))

/-- The distance from universal time, and the rest. -/
def ahead? (s : List Char) : Option (Int × List Char) :=
  match s with
  | 'Z' :: r | 'z' :: r => some (0, r)
  | c :: r =>
    if c == '+' || c == '-' then do
      let (hours, r) ← fixedNumber? 2 0 23 r
      let (minutes, r) ← fixedNumber? 2 0 59 (← exactly? ':' r)
      let n : Int := hours * 60 + minutes
      return (if c == '-' then -n else n, r)
    else none
  | [] => none

/-- A date, or a date with a time; and the rest. -/
def dateOrMoment? (s : List Char) : Option (Except RangeError Value × List Char) := do
  let (d, rest) ← date? s
  let alone := (d.check.map Value.date, rest)
  match rest with
  | c :: r =>
    if c == 'T' || c == 't' || c == ' ' then
      match time? r with
      | none => return alone
      | some (t, r) =>
        match ahead? r with
        | some (a, r) => return ((Moment.check ⟨d, t, some a⟩).map Value.moment, r)
        | none => return ((Moment.check ⟨d, t, none⟩).map Value.moment, r)
    else return alone
  | [] => return alone

/-- A date, a time or a number. -/
def plainScalar (r : Rest) : Except Fault (Value × Rest) :=
  match dateOrMoment? r.chars with
  | some (.ok v, rest) => .ok (v, r.drop (r.chars.length - rest.length))
  | some (.error _, _) => fault .date r
  | none =>
    match time? r.chars with
    | some (t, rest) => .ok (.time t, r.drop (r.chars.length - rest.length))
    | none =>
      match (number? r.chars).or (namedNumber? r.chars) with
      | some (v, size) => .ok (v, r.drop size)
      | none => fault .value r

end ShellCompletion.Document.Toml
