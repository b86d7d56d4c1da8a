import ShellCompletion.Document.Literal
import ShellCompletion.Schema.Violation

/-! The rules that values of the right type may still break, such as that a list of flags
has no empty flag and that no two slots share an index. -/
namespace ShellCompletion.Schema

open Document

/-- The index that stands for every remaining argument. -/
def catchAll : String := "all"

/-- The index of a slot, as far as it can clash with another one. -/
inductive SlotKey where
  | number (n : Int)
  | word (s : String)
deriving DecidableEq, Repr

def SlotKey.literal : SlotKey → String
  | number n => toString n
  | word s => Text.literal s

/-- The value that declares an index. -/
def SlotKey.value : SlotKey → Value
  | number n => .int n
  | word s => .str s

/-- The index that an element of the list of arguments declares: no index is the word for
all remaining arguments. Elements of other types, and indices of other types, do not
clash. -/
def SlotKey.ofElement? : Value → Option SlotKey
  | .map es =>
    match Entries.get es "index" with
    | .null => some (.word catchAll)
    | .int n => some (.number n)
    | .str s => some (.word s)
    | _ => none
  | _ => none

/-- The elements that repeat an index, from the place `i` on; `seen` holds the places
where indices came first. -/
def repeatedIndices (seen : List (SlotKey × Nat)) : Nat → List Value → List Complaint
  | _, [] => []
  | i, v :: rest =>
    match SlotKey.ofElement? v with
    | none => repeatedIndices seen (i + 1) rest
    | some k =>
      match seen.lookup k with
      | some j => .repeatedIndex i k.literal j :: repeatedIndices seen (i + 1) rest
      | none => repeatedIndices ((k, i) :: seen) (i + 1) rest

/-- The empty texts of a list, from the place `i` on. -/
def emptyElements : Nat → List Value → List Complaint
  | _, [] => []
  | i, v :: rest =>
    if v.isKey "" then .emptyElement i :: emptyElements (i + 1) rest
    else emptyElements (i + 1) rest

/-- A source of candidates is built in or a command, and not both. -/
def sourceComplaints (es : Entries) : List Complaint :=
  match (es.get "builtin").isNull, (es.get "cmd").isNull with
  | false, false => [.twoSources]
  | true, true => [.noSource]
  | _, _ => []

/-- An index is a positive whole number or the word for all remaining arguments. -/
def indexComplaints (v : Value) : List Complaint :=
  let fine := match v with
    | .str s => s == catchAll
    | .int n => 1 ≤ n
    | .bool b => b
    | _ => false
  if fine then [] else [.badIndex v.literal]

namespace Rule

/-- What a value breaks of a rule. The elements of a mapping are its keys. -/
def complaints : Rule → Value → List Complaint
  | notEmpty, v => if v.isFalsy then [.empty] else []
  | notEmptyList, v => if v.isFalsy then [.noElement] else []
  | noEmptyElements, .list xs => emptyElements 0 xs
  | noEmptyElements, .map es => emptyElements 0 (es.map (·.1))
  | oneSource, .map es => sourceComplaints es
  | slotIndex, v => indexComplaints v
  | distinctSlots, .list xs => repeatedIndices [] 0 xs
  | noEmptyElements, _ | oneSource, _ | distinctSlots, _ => []

end Rule

end ShellCompletion.Schema
