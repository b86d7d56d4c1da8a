import ShellCompletion.Document.Mapping
import ShellCompletion.Document.Toml.Fault

/-! The tables of a document in TOML while it is being read: what they hold so far, and
which keys may no longer be declared or changed. -/
namespace ShellCompletion.Document.Toml

/-- Put a value under a text key. -/
def setKey (es : Entries) (name : String) (v : Value) : Entries := es.insert (.str name) v

/-- Change the table under a key, which is made if it is missing. Where the way leads
through a list of tables it goes on in the last one, if that is allowed. There is no way
through other values. -/
def changeTable (throughLists : Bool) (f : Entries → Option Entries) : Key → Entries → Option Entries
  | [], es => f es
  | k :: ks, es =>
    match es.find? k with
    | none => (changeTable throughLists f ks []).map fun t => setKey es k (.map t)
    | some (.map t) => (changeTable throughLists f ks t).map fun t => setKey es k (.map t)
    | some (.list xs) =>
      match throughLists, xs.getLast? with
      | true, some (.map t) =>
        (changeTable throughLists f ks t).map fun t => setKey es k (.list (xs.dropLast ++ [.map t]))
      | _, _ => none
    | some _ => none

/-- The table under a key. -/
def table? (throughLists : Bool) : Key → Entries → Option Entries
  | [], es => some es
  | k :: ks, es =>
    match es.find? k with
    | none => table? throughLists ks []
    | some (.map t) => table? throughLists ks t
    | some (.list xs) =>
      match throughLists, xs.getLast? with
      | true, some (.map t) => table? throughLists ks t
      | _, _ => none
    | some _ => none

/-- Add a table to the list of tables under a name. -/
def addTable (name : String) (es : Entries) : Option Entries :=
  match es.find? name with
  | none => some (setKey es name (.list [.map []]))
  | some (.list xs) => some (setKey es name (.list (xs ++ [.map []])))
  | some _ => none

/-- A document that is being read. -/
structure Tables where
  data : Entries := []
  /-- Keys that were declared as tables. -/
  declared : List Key := []
  /-- Keys whose values, and all below them, are complete. -/
  frozen : List Key := []
  /-- Keys that count as declared from the next heading on. -/
  pending : List Key := []
  /-- The key of the table that statements belong to. -/
  heading : Key := []

/-- Is a key below one of some keys, or one of them? The document itself is not. -/
def coveredBy (keys : List Key) (k : Key) : Bool := !k.isEmpty && keys.any (·.isPrefixOf k)

namespace Tables

def isFrozen (t : Tables) (k : Key) : Bool := coveredBy t.frozen k

def declare (t : Tables) (k : Key) : Tables := { t with declared := k :: t.declared }

/-- Forget what is known of a key and of all below it. -/
def release (t : Tables) (k : Key) : Tables :=
  { t with
    declared := t.declared.filter fun j => !k.isPrefixOf j
    frozen := t.frozen.filter fun j => !k.isPrefixOf j }

/-- A heading begins: what was pending is declared. -/
def settle (t : Tables) : Tables := { t with declared := t.pending ++ t.declared, pending := [] }

/-- Begin a table. -/
def openTable (t : Tables) (k : Key) : Except Problem Tables :=
  if t.declared.contains k || t.isFrozen k then .error (.declaredTwice k)
  else match changeTable true some k t.data with
    | none => .error .overwrite
    | some data => .ok { t.declare k with data, heading := k }

/-- Begin another table of a list. -/
def openListed (t : Tables) (k : Key) : Except Problem Tables :=
  if t.isFrozen k then .error (.immutable k)
  else match changeTable true (addTable (k.getLast?.getD "")) k.dropLast t.data with
    | none => .error .overwrite
    | some data => .ok { (t.release k).declare k with data, heading := k }

/-- The proper beginnings of a key, below a heading. -/
def beginnings (heading k : Key) : List Key :=
  (List.range (k.length - 1)).map fun n => heading ++ k.take (n + 1)

/-- Values that can hold others. -/
def isContainer : Value → Bool
  | .map _ | .list _ => true
  | _ => false

/-- Give a key of the current table a value. -/
def assign (t : Tables) (k : Key) (v : Value) : Except Problem Tables :=
  let inner := beginnings t.heading k
  match inner.find? t.declared.contains with
  | some j => .error (.redefined j)
  | none =>
    let parent := t.heading ++ k.dropLast
    let name := k.getLast?.getD ""
    if t.isFrozen parent then .error (.immutable parent)
    else
      match changeTable true (fun es =>
        if (es.find? name).isSome then none else some (setKey es name v)) parent t.data with
      | none => .error .overwrite
      | some data => .ok { t with
        data
        pending := inner ++ t.pending
        frozen := if isContainer v then (t.heading ++ k) :: t.frozen else t.frozen }

end Tables

/-- An inline table that is being read. -/
structure Inline where
  data : Entries := []
  frozen : List Key := []

/-- Give a key of an inline table a value. -/
def Inline.assign (t : Inline) (k : Key) (v : Value) : Except Problem Inline :=
  let name := k.getLast?.getD ""
  if coveredBy t.frozen k then .error (.immutable k)
  else match table? false k.dropLast t.data with
    | none => .error .overwrite
    | some es =>
      if (es.find? name).isSome then .error (.duplicate name)
      else match changeTable false (fun es => some (setKey es name v)) k.dropLast t.data with
        | none => .error .overwrite
        | some data => .ok {
          data
          frozen := if Tables.isContainer v then k :: t.frozen else t.frozen }

end ShellCompletion.Document.Toml
