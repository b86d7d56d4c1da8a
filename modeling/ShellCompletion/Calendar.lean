import ShellCompletion.Text.Digit

/-! Dates, times of day and moments as documents write them. A moment may carry its
distance from universal time. Dates are those of the Gregorian calendar from year 1 to
year 9999; a part out of range has an error of its own. -/
namespace ShellCompletion.Calendar

structure Date where
  year : Nat
  month : Nat
  day : Nat
deriving DecidableEq, Repr

structure TimeOfDay where
  hour : Nat
  minute : Nat
  second : Nat
  microsecond : Nat
deriving DecidableEq, Repr

/-- A date with a time of day, and the minutes by which its clock is ahead of universal
time where that is known. -/
structure Moment where
  date : Date
  time : TimeOfDay
  ahead : Option Int
deriving DecidableEq, Repr

/-- Why numbers do not make a date, a time or a distance from universal time. -/
inductive RangeError where
  | year (given : Nat)
  | month
  | day
  | hour
  | minute
  | second
  | ahead (minutes : Int)
deriving DecidableEq, Repr

/-- A span of minutes as whole days and the seconds of the last day. -/
def spanText (minutes : Int) : String :=
  let days := Int.fdiv minutes 1440
  let seconds := Int.fmod minutes 1440 * 60
  let parts :=
    (if days = 0 then [] else [s!"days={days}"]) ++
      (if seconds = 0 then [] else [s!"seconds={seconds}"])
  "datetime.timedelta(" ++ (if parts.isEmpty then "0" else ", ".intercalate parts) ++ ")"

namespace RangeError

def message : RangeError → String
  | year given => s!"year {given} is out of range"
  | month => "month must be in 1..12"
  | day => "day is out of range for month"
  | hour => "hour must be in 0..23"
  | minute => "minute must be in 0..59"
  | second => "second must be in 0..59"
  | ahead minutes =>
    "offset must be a timedelta strictly between -timedelta(hours=24) and timedelta(hours=24), not " ++
      spanText minutes ++ "."

end RangeError

def isLeap (year : Nat) : Bool :=
  year % 4 = 0 && (year % 100 ≠ 0 || year % 400 = 0)

def daysIn (year month : Nat) : Nat :=
  if month = 2 then if isLeap year then 29 else 28
  else if [4, 6, 9, 11].contains month then 30
  else 31

def Date.check (d : Date) : Except RangeError Date :=
  if d.year < 1 || 9999 < d.year then .error (.year d.year)
  else if d.month < 1 || 12 < d.month then .error .month
  else if d.day < 1 || daysIn d.year d.month < d.day then .error .day
  else .ok d

def TimeOfDay.check (t : TimeOfDay) : Except RangeError TimeOfDay :=
  if 23 < t.hour then .error .hour
  else if 59 < t.minute then .error .minute
  else if 59 < t.second then .error .second
  else .ok t

/-- The distance comes first, then the date, then the time. -/
def Moment.check (m : Moment) : Except RangeError Moment := do
  match m.ahead with
  | some a => if a ≤ -1440 || 1440 ≤ a then throw (.ahead a)
  | none => pure ()
  let _ ← m.date.check
  let _ ← m.time.check
  return m

/-- The days of the calendar up to a date. -/
def Date.number (d : Date) : Nat :=
  let before := d.year - 1
  let months := (List.range (d.month - 1)).foldl (fun n m => n + daysIn d.year (m + 1)) 0
  before * 365 + before / 4 - before / 100 + before / 400 + months + d.day

/-- The microseconds since midnight. -/
def TimeOfDay.elapsed (t : TimeOfDay) : Nat :=
  ((t.hour * 60 + t.minute) * 60 + t.second) * 1000000 + t.microsecond

/-- The microseconds by its own clock. -/
def Moment.elapsed (m : Moment) : Nat := m.date.number * 86400000000 + m.time.elapsed

/-- Two moments are the same when they are at one point of time; a moment whose distance from
universal time is not known is the same only as one with the same date and time. -/
def Moment.same (m n : Moment) : Bool :=
  match m.ahead, n.ahead with
  | some a, some b => (m.elapsed : Int) - a * 60000000 == n.elapsed - b * 60000000
  | none, none => m == n
  | _, _ => false

def two (n : Nat) : String := String.ofList (Text.padded 2 n)

def Date.text (d : Date) : String :=
  s!"{String.ofList (Text.padded 4 d.year)}-{two d.month}-{two d.day}"

/-- Microseconds are written only when there are any. -/
def TimeOfDay.text (t : TimeOfDay) : String :=
  let fraction := if t.microsecond = 0 then "" else "." ++ String.ofList (Text.padded 6 t.microsecond)
  s!"{two t.hour}:{two t.minute}:{two t.second}{fraction}"

def aheadText : Option Int → String
  | none => ""
  | some a => (if a < 0 then "-" else "+") ++ two (a.natAbs / 60) ++ ":" ++ two (a.natAbs % 60)

/-- The text of a moment with the given mark between date and time. -/
def Moment.text (mark : String) (m : Moment) : String :=
  m.date.text ++ mark ++ m.time.text ++ aheadText m.ahead

/-! ### Literals -/

/-- A literal names a kind of value, and then has its parts. -/
def literalOf (kind : String) (parts : List String) : String :=
  "datetime." ++ kind ++ "(" ++ ", ".intercalate parts ++ ")"

def Date.parts (d : Date) : List String := [toString d.year, toString d.month, toString d.day]

/-- Microseconds that are zero are left out, and then seconds that are zero. -/
def TimeOfDay.parts (t : TimeOfDay) : List String :=
  [toString t.hour, toString t.minute] ++
    if t.microsecond ≠ 0 then [toString t.second, toString t.microsecond]
    else if t.second ≠ 0 then [toString t.second]
    else []

/-- Universal time has a name of its own. -/
def zoneLiteral (ahead : Int) : String :=
  if ahead = 0 then "datetime.timezone.utc" else "datetime.timezone(" ++ spanText ahead ++ ")"

def Date.literal (d : Date) : String := literalOf "date" d.parts

def TimeOfDay.literal (t : TimeOfDay) : String := literalOf "time" t.parts

def Moment.literal (m : Moment) : String :=
  literalOf "datetime"
    (m.date.parts ++ m.time.parts ++ (m.ahead.map fun a => "tzinfo=" ++ zoneLiteral a).toList)

end ShellCompletion.Calendar
