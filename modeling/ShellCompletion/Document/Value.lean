import ShellCompletion.Calendar
import ShellCompletion.Number.Shortest
import ShellCompletion.Text.Literal

/-! The values that documents hold: scalars, lists and mappings, with mappings kept in
the order of their entries. A document may also refer from inside a container back to
that container; such a place is kept as the number of containers to step out of. -/
namespace ShellCompletion.Document

inductive Value where
  | null
  | bool (b : Bool)
  | int (n : Int)
  | float (x : Binary64)
  | str (s : String)
  | bytes (data : List UInt8)
  | date (d : Calendar.Date)
  | time (t : Calendar.TimeOfDay)
  | moment (m : Calendar.Moment)
  | list (items : List Value)
  | tuple (items : List Value)
  | set (items : List Value)
  | map (entries : List (Value × Value))
  /-- The container that encloses this place, counted outwards from the nearest, which is
  number zero. -/
  | enclosing (level : Nat)
deriving Repr, Inhabited

/-- The entries of a mapping, in order. -/
abbrev Entries := List (Value × Value)

namespace Value

/-- The name of a value's type, as messages use it. -/
def typeName : Value → String
  | null => "NoneType"
  | bool _ => "bool"
  | int _ => "int"
  | float _ => "float"
  | str _ => "str"
  | bytes _ => "bytes"
  | date _ => "date"
  | time _ => "time"
  | moment _ => "datetime"
  | list _ => "list"
  | tuple _ => "tuple"
  | set _ => "set"
  | map _ => "dict"
  | enclosing _ => "list"

def isNull : Value → Bool
  | null => true
  | _ => false

def isMap : Value → Bool
  | map _ => true
  | _ => false

/-- Values that count as nothing: null, false, zero, and what is empty. -/
def isFalsy : Value → Bool
  | null => true
  | bool b => !b
  | int n => n == 0
  | float x => x.isZero
  | str s => s.isEmpty
  | bytes d => d.isEmpty
  | list xs | tuple xs | set xs => xs.isEmpty
  | map es => es.isEmpty
  | date _ | time _ | moment _ | enclosing _ => false

/-- The value of a key that is a text. -/
def isKey (name : String) : Value → Bool
  | str s => s == name
  | _ => false

end Value

namespace Entries

/-- The value under a text key, if the mapping has that key. -/
def find? (es : Entries) (name : String) : Option Value :=
  (List.find? (fun e => e.1.isKey name) es).map (·.2)

/-- The value under a text key, null when the key is absent. -/
def get (es : Entries) (name : String) : Value := (es.find? name).getD .null

theorem find?_cons_self (name : String) (v : Value) (es : Entries) :
    find? ((.str name, v) :: es) name = some v := by
  simp [find?, Value.isKey]

end Entries

namespace Value

/-- Equality of values as membership in a list of choices means it: numbers are equal by
value, the two truth values are the numbers zero and one, and containers are equal by
their contents. -/
def sameNumber : Value → Value → Option Bool
  | bool b, bool c => some (b == c)
  | bool b, int n | int n, bool b => some (n == if b then 1 else 0)
  | int m, int n => some (m == n)
  | float x, float y => some (x.same y)
  | float x, int n | int n, float x => some (x.toInt? == some n)
  | float x, bool b | bool b, float x => some (x.toInt? == some (if b then 1 else 0))
  | _, _ => none

mutual

def same : Value → Value → Bool
  | null, null => true
  | str s, str t => s == t
  | bytes s, bytes t => s == t
  | date s, date t => s == t
  | time s, time t => s == t
  | moment s, moment t => s.same t
  | list xs, list ys => sameAll xs ys
  | tuple xs, tuple ys => sameAll xs ys
  | set xs, set ys => xs.length == ys.length && sameSome xs ys
  | map xs, map ys => xs.length == ys.length && sameEntries xs ys
  | x, y => (sameNumber x y).getD false

/-- Equality of lists, element by element. -/
def sameAll : List Value → List Value → Bool
  | [], [] => true
  | x :: xs, y :: ys => same x y && sameAll xs ys
  | _, _ => false

/-- Every element of the first list is in the second. -/
def sameSome : List Value → List Value → Bool
  | [], _ => true
  | x :: xs, ys => ys.any (same x) && sameSome xs ys

/-- Every entry of the first list is in the second. -/
def sameEntries : List (Value × Value) → List (Value × Value) → Bool
  | [], _ => true
  | (k, v) :: es, fs => fs.any (fun f => same k f.1 && same v f.2) && sameEntries es fs

end

end Value

end ShellCompletion.Document
