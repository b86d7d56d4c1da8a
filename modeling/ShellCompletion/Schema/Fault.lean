import ShellCompletion.Schema.Check

/-! Faults of a schema, which end a check of a mapping: a type whose values can not be told, a
rule put to a value that it can not look at, a required field without alternatives. A check
comes upon them in the order of the fields; types come before rules, and alternatives are
tried until one admits the value. -/
namespace ShellCompletion.Schema

open Document

/-- Why a check can not go on. -/
inductive CheckFault where
  /-- A type has parameters. -/
  | parameters
  | noElements (found : String)
  | noKeys (found : String)
  | noAlternative
deriving DecidableEq, Repr

def CheckFault.message : CheckFault → String
  | parameters => "isinstance() argument 2 cannot be a parameterized generic"
  | noElements found => "'" ++ found ++ "' object is not iterable"
  | noKeys found => "'" ++ found ++ "' object has no attribute 'get'"
  | noAlternative => "tuple index out of range"

/-- The fault of trying alternatives on a value. -/
def alternativesFault? (v : Value) : List TypeExpr → Option CheckFault
  | [] => none
  | .generic _ _ :: _ => some .parameters
  | .basic k :: ts => if k.admits v then none else alternativesFault? v ts

/-- Does a value have elements? Those of a text are its characters. -/
def hasElements : Value → Bool
  | .str _ | .list _ | .tuple _ | .set _ | .map _ => true
  | _ => false

/-- The fault of putting a rule to a value. -/
def Rule.fault? : Rule → Value → Option CheckFault
  | oneSource, v => if v.isMap then none else some (.noKeys v.typeName)
  | noEmptyElements, v | distinctSlots, v => if hasElements v then none else some (.noElements v.typeName)
  | notEmpty, _ | notEmptyList, _ | slotIndex, _ => none

/-- Is this a type without a single alternative? -/
def FieldType.isVoid {α : Type} : FieldType α → Bool
  | oneOf ts => ts.isEmpty
  | _ => false

/-- The fault of the rule of a field. A rule is put only to values of the right type. -/
def Field.ruleFault? (f : Field) (v : Value) : Option CheckFault :=
  if (f.checkType [] v).violations.isEmpty then f.rule.bind (·.fault? v) else none

mutual

/-- The fault of checking the type of a value that is not null. -/
def Field.typeFault? (f : Field) (v : Value) : Option CheckFault :=
  match f with
  | ⟨_, type, _, _, _⟩ =>
    match type, v with
    | .one t, v => alternativesFault? v [t]
    | .oneOf ts, v => alternativesFault? v ts
    | .listOfMaps fields, .list xs =>
      xs.findSome? fun
        | .map es => fieldsFault? fields es
        | _ => none
    | .mapOf fields, .map es => fieldsFault? fields es
    | _, _ => none

/-- The first fault of checking the fields of a mapping in turn. -/
def fieldsFault? : List Field → Entries → Option CheckFault
  | [], _ => none
  | f :: fs, es =>
    let v := es.get f.name
    (if v.isNull then if f.required && f.type.isVoid then some .noAlternative else none
      else (Field.typeFault? f v).or (f.ruleFault? v)).or (fieldsFault? fs es)

end

/-- Check a mapping by any fields, good or bad. -/
def check (fields : List Field) (path : Path) (es : Entries) : Except CheckFault Findings :=
  match fieldsFault? fields es with
  | some f => .error f
  | none => .ok (checkMap fields path es)

end ShellCompletion.Schema
