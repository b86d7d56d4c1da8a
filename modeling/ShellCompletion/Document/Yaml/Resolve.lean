import ShellCompletion.Text.Digit

/-! The tags of scalars that are written without one: a text that looks like a null, a
truth value, a number, a date or a merge key is taken for it, and any other for a string. -/
namespace ShellCompletion.Document.Yaml

open Text

/-- The tags that values are built for. -/
inductive Tag where
  | null | bool | int | float | binary | timestamp | omap | pairs | set | str | seq | map
  | merge | value | indicator
  | other (name : String)
deriving DecidableEq, Repr

namespace Tag

/-- The start of the names of the known tags. -/
def root : String := "tag:yaml.org,2002:"

/-- The last part of the name of a known tag. -/
def known : List (String × Tag) := [
  ("null", null), ("bool", bool), ("int", int), ("float", float), ("binary", binary),
  ("timestamp", timestamp), ("omap", omap), ("pairs", pairs), ("set", set), ("str", str),
  ("seq", seq), ("map", map), ("merge", merge), ("value", value), ("yaml", indicator)]

def ofName (s : String) : Tag :=
  ((known.find? fun t => root ++ t.1 == s).map (·.2)).getD (other s)

def name (t : Tag) : String :=
  match t with
  | other s => s
  | t => root ++ ((known.find? fun k => k.2 == t).map (·.1)).getD ""

end Tag

/-! ### The looks of scalars -/

def isSign (c : Char) : Bool := c == '-' || c == '+'

def dropSign (s : List Char) : List Char :=
  match s with
  | c :: r => if isSign c then r else s
  | [] => []

def isDigitOrLine (c : Char) : Bool := isDigit c || c == '_'

/-- A digit and after it digits and low lines: the part, and the rest. -/
def spanLinedDigits (s : List Char) : Option (List Char) :=
  match s with
  | c :: r => if isDigit c then some (r.dropWhile isDigitOrLine) else none
  | [] => none

/-- The words for truth values. -/
def boolWords : List String :=
  ["yes", "Yes", "YES", "no", "No", "NO", "true", "True", "TRUE", "false", "False", "FALSE",
    "on", "On", "ON", "off", "Off", "OFF"]

def isBool (s : List Char) : Bool := boolWords.contains (String.ofList s)

def isNull (s : List Char) : Bool := ["", "~", "null", "Null", "NULL"].contains (String.ofList s)

/-- Groups of up to two digits below sixty, each after a colon, up to the rest. -/
def dropSixties : Nat → List Char → List Char
  | 0, s => s
  | fuel + 1, s =>
    match s with
    | ':' :: a :: b :: r =>
      if '0' ≤ a && a ≤ '5' && isDigit b then dropSixties fuel r
      else if isDigit a then dropSixties fuel (b :: r)
      else s
    | [':', a] => if isDigit a then [] else s
    | s => s

/-- One group at least. -/
def sixties? (s : List Char) : Option (List Char) :=
  let rest := dropSixties s.length s
  if rest.length < s.length then some rest else none

/-- An optional power of ten, whose sign is written. -/
def isPower (s : List Char) : Bool :=
  match s with
  | [] => true
  | e :: sign :: ds => (e == 'e' || e == 'E') && isSign sign && !ds.isEmpty && ds.all isDigit
  | _ => false

/-- A number with a point, in base ten or sixty, or an infinity. -/
def isFloat (s : List Char) : Bool :=
  let body := dropSign s
  let ten := match spanLinedDigits body with
    | some ('.' :: r) => isPower (r.dropWhile isDigitOrLine)
    | _ => false
  let bare := match s with
    | '.' :: r =>
      match spanLinedDigits r with
      | some r => isPower r
      | none => false
    | _ => false
  let sixty := match (spanLinedDigits body).bind sixties? with
    | some ('.' :: r) => r.all isDigitOrLine
    | _ => false
  ten || bare || sixty || [".inf", ".Inf", ".INF"].contains (String.ofList body) ||
    [".nan", ".NaN", ".NAN"].contains (String.ofList s)

/-- A whole number in base two, eight, ten, sixteen or sixty. -/
def isInt (s : List Char) : Bool :=
  let body := dropSign s
  let all (p : Char → Bool) (r : List Char) : Bool := !r.isEmpty && r.all p
  match body with
  | ['0'] => true
  | '0' :: 'b' :: r => all (fun c => c == '0' || c == '1' || c == '_') r
  | '0' :: 'x' :: r => all (fun c => isHexDigit c || c == '_') r
  | '0' :: r => all (fun c => ('0' ≤ c && c ≤ '7') || c == '_') r
  | body =>
    match spanLinedDigits body with
    | some [] => true
    | some r => (sixties? r) == some []
    | none => false

/-- Between `low` and `high` digits, as many as there are, and the rest. -/
def digits? (low high : Nat) (s : List Char) : Option (List Char × List Char) :=
  let ds := (s.take high).takeWhile isDigit
  if low ≤ ds.length then some (ds, s.drop ds.length) else none

def mark? (c : Char) (s : List Char) : Option (List Char) :=
  if s.head? == some c then some (s.drop 1) else none

/-- The parts of a date or of a moment, as they are written. -/
structure TimeParts where
  year : List Char
  month : List Char
  day : List Char
  time : Option (List Char × List Char × List Char × List Char)
  /-- The sign, the hours and the minutes by which a clock is ahead; no digits for `Z`. -/
  zone : Option (Char × List Char × List Char)

def isTab (c : Char) : Bool := c == ' ' || c == '\t'

/-- The zone at the end of a moment; nothing may follow it. -/
def zone? (s : List Char) : Option (Option (Char × List Char × List Char)) :=
  match s.dropWhile isTab with
  | [] => if s.isEmpty then some none else none
  | ['Z'] => some (some ('Z', [], []))
  | c :: r =>
    if isSign c then do
      let (hours, r) ← digits? 1 2 r
      match r with
      | [] => some (some (c, hours, []))
      | r =>
        let (minutes, r) ← digits? 2 2 (← mark? ':' r)
        if r.isEmpty then some (some (c, hours, minutes)) else none
    else none

/-- The time of a moment, after its date. -/
def time? (s : List Char) : Option (List Char × List Char × List Char × List Char × List Char) := do
  let s ← match s with
    | c :: r => if c == 'T' || c == 't' then some r else if isTab c then some (r.dropWhile isTab) else none
    | [] => none
  let (hour, s) ← digits? 1 2 s
  let (minute, s) ← digits? 2 2 (← mark? ':' s)
  let (second, s) ← digits? 2 2 (← mark? ':' s)
  match s with
  | '.' :: r => some (hour, minute, second, r.takeWhile isDigit, r.dropWhile isDigit)
  | s => some (hour, minute, second, [], s)

/-- The parts of a date, or of a date with a time. -/
def timeParts? (s : List Char) : Option TimeParts := do
  let (year, s) ← digits? 4 4 s
  let (month, s) ← digits? 1 2 (← mark? '-' s)
  let (day, s) ← digits? 1 2 (← mark? '-' s)
  match s with
  | [] => some ⟨year, month, day, none, none⟩
  | s =>
    let (hour, minute, second, fraction, s) ← time? s
    some ⟨year, month, day, some (hour, minute, second, fraction), ← zone? s⟩

/-- A date alone must have two digits for its month and its day. -/
def isTimestamp (s : List Char) : Bool :=
  match timeParts? s with
  | some p => p.time.isSome || (p.month.length == 2 && p.day.length == 2)
  | none => false

/-- The looks of scalars in the order in which they are tried. -/
def looks : List ((List Char → Bool) × Tag) := [
  (isBool, .bool), (isFloat, .float), (isInt, .int), (fun s => s == ['<', '<'], .merge),
  (isNull, .null), (isTimestamp, .timestamp), (fun s => s == ['='], .value),
  (fun s => s == ['!'] || s == ['&'] || s == ['*'], .indicator)]

/-- A text without a newline at its end. -/
def dropLastNewline (s : List Char) : List Char :=
  if s.getLast? == some '\n' && s.length != 1 then s.dropLast else s

/-- The tag of a plain scalar. A newline at its end does not change its looks. -/
def plainTag (s : List Char) : Tag :=
  match looks.find? fun l => l.1 s || l.1 (dropLastNewline s) with
  | some (_, t) => t
  | none => .str

end ShellCompletion.Document.Yaml
