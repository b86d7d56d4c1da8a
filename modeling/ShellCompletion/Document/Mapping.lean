import ShellCompletion.Document.Value

/-! Building mappings. Keys are told apart by their values: two keys that are the same
number are one key, which keeps its first place and form and takes the last value. -/
namespace ShellCompletion.Document

theorem Value.same_str (k : Value) (name : String) : k.same (.str name) = k.isKey name := by
  cases k <;> simp [Value.same, Value.isKey, Value.sameNumber]

/-- Put something under a key. -/
def insertKey {α : Type} (es : List (Value × α)) (k : Value) (v : α) : List (Value × α) :=
  match es with
  | [] => [(k, v)]
  | e :: es => if e.1.same k then (e.1, v) :: es else e :: insertKey es k v

namespace Entries

/-- Put a value under a key. -/
def insert (es : Entries) (k v : Value) : Entries := insertKey es k v

end Entries

/-! ### References to enclosing containers -/

namespace Value

/-- What a value stands for among the containers around it, and the containers around that:
a reference stands for the container that it refers to. -/
def referent (around : List Value) : Value → Value × List Value
  | .enclosing n => ((around[n]?).getD .null, around.drop (n + 1))
  | v => (v, around)

/-- A value with every reference to an enclosing container replaced by that container, down to
a depth. The enclosing containers are given from the nearest on. -/
def unroll : Nat → List Value → Value → Value
  | 0, _, _ => .null
  | depth + 1, around, v =>
    let (v, around) := v.referent around
    match v with
    | .list xs => .list (xs.map (unroll depth (v :: around)))
    | .tuple xs => .tuple (xs.map (unroll depth (v :: around)))
    | .map es => .map (es.map fun (k, x) => (k, unroll depth (v :: around) x))
    | v => v

end Value

end ShellCompletion.Document
