import ShellCompletion.Document.Value

/-! The fields that a mapping of a document may have. A field has a type, which says
what its value is made of down to any depth, and it may be required, limited to some
choices, and bound to a rule. Fields are looked up by name, with a memory of the fields
found before; the main statement says that the memory never changes an answer. -/
namespace ShellCompletion.Schema

open Document

/-- The kinds of values that types speak of. -/
inductive Kind where
  | str | int | float | bool | list | map
deriving DecidableEq, Repr

/-- A kind, possibly with types for what it holds. -/
inductive TypeExpr where
  | basic (kind : Kind)
  | generic (kind : Kind) (params : List TypeExpr)
deriving Repr

/-- Rules that a value of the right type may still break. -/
inductive Rule where
  | notEmpty
  | notEmptyList
  | noEmptyElements
  | oneSource
  | slotIndex
  | distinctSlots
deriving DecidableEq, Repr

/-- The type of a field whose inner fields are of type `α`. -/
inductive FieldType (α : Type) where
  | one (type : TypeExpr)
  | oneOf (types : List TypeExpr)
  | listOf (kind : Kind)
  | listOfMaps (fields : List α)
  | mapOf (fields : List α)

/-- One field of a mapping. -/
structure Field where
  name : String
  type : FieldType Field := .one (.basic .str)
  required : Bool := false
  choices : Option (List Value) := none
  rule : Option Rule := none

instance : Inhabited Field := ⟨{ name := "" }⟩

instance : Inhabited TypeExpr := ⟨.basic .str⟩

namespace Kind

def name : Kind → String
  | str => "str"
  | int => "int"
  | float => "float"
  | bool => "bool"
  | list => "list"
  | map => "dict"

end Kind

namespace TypeExpr

mutual

def name : TypeExpr → String
  | basic k => k.name
  | generic k ps => if ps.isEmpty then k.name else k.name ++ "[" ++ ", ".intercalate (names ps) ++ "]"

def names : List TypeExpr → List String
  | [] => []
  | t :: ts => name t :: names ts

end

end TypeExpr

namespace FieldType

variable {α : Type}

/-- The name of a type; alternatives are joined by "or". -/
def name : FieldType α → String
  | one t => t.name
  | oneOf ts => " or ".intercalate (TypeExpr.names ts)
  | listOf _ | listOfMaps _ => "list"
  | mapOf _ => "dict"

/-- The kind that stands for a type in advice: of alternatives, the first. -/
def leading? : FieldType α → Option Kind
  | one (.basic k) => some k
  | oneOf (.basic k :: _) => some k
  | one _ | oneOf _ => none
  | listOf _ | listOfMaps _ => some .list
  | mapOf _ => some .map

end FieldType

/-- The first field of a name. -/
def field? (fields : List Field) (name : String) : Option Field :=
  fields.find? (·.name == name)

/-- Fields together with those already looked up, by name. -/
structure Lookup where
  fields : List Field
  found : List (String × Field) := []

namespace Lookup

/-- The field of a name, remembered for the next time. -/
def get (l : Lookup) (name : String) : Option Field × Lookup :=
  match l.found.lookup name with
  | some f => (some f, l)
  | none =>
    match field? l.fields name with
    | some f => (some f, { l with found := (name, f) :: l.found })
    | none => (none, l)

/-- Look up several names in turn. -/
def getAll (l : Lookup) : List String → List (Option Field) × Lookup
  | [] => ([], l)
  | n :: ns =>
    let (f, l) := l.get n
    let (fs, l) := l.getAll ns
    (f :: fs, l)

/-- Every remembered field is the first of its name. -/
def Faithful (l : Lookup) : Prop :=
  ∀ n f, l.found.lookup n = some f → field? l.fields n = some f

theorem get_fields (l : Lookup) (name : String) : (l.get name).2.fields = l.fields := by
  unfold get
  split
  · rfl
  · split <;> rfl

theorem get_faithful {l : Lookup} (h : l.Faithful) (name : String) :
    (l.get name).1 = field? l.fields name ∧ (l.get name).2.Faithful := by
  unfold get
  split
  · rename_i f hf
    exact ⟨(h _ _ hf).symm, h⟩
  · split
    · rename_i f hf
      refine ⟨hf.symm, fun n g hg => ?_⟩
      by_cases hn : n = name
      · subst hn
        simp_all
      · have : (n == name) = false := by simpa using hn
        simp only [List.lookup_cons, this] at hg
        exact h n g hg
    · rename_i hf
      exact ⟨hf.symm, h⟩

end Lookup

end ShellCompletion.Schema
