import ShellCompletion.Schema.Rule
import ShellCompletion.Text.LowerCase
import ShellCompletion.Text.Similarity

/-! Checking a mapping against its fields. Every violation is collected, those of a field
in the order of the fields; keys that no field has are only warned about, those of an
inner mapping before those of the mapping around it. A field that is null counts as
absent. -/
namespace ShellCompletion.Schema

open Document

/-- Words that say yes. -/
def trueWords : List String := ["true", "yes", "on", "1", "enabled"]

/-- Words that say no. -/
def falseWords : List String := ["false", "no", "off", "0", "disabled"]

/-- A text that says yes or no, in any case. -/
def isBoolWord (s : String) : Bool :=
  (trueWords ++ falseWords).contains (String.ofList (Text.lower s.toList))

/-- Is a value of a kind? Whole numbers and others are not told apart, and a word for yes
or no counts as a truth value. -/
def Kind.admits : Kind → Value → Bool
  | bool, .bool _ => true
  | bool, .str s => isBoolWord s
  | int, .int _ | int, .float _ | float, .int _ | float, .float _ => true
  | str, .str _ => true
  | list, .list _ => true
  | map, .map _ => true
  | _, _ => false

/-- A type with parameters has no values of its own. -/
def TypeExpr.admits : TypeExpr → Value → Bool
  | basic k, v => k.admits v
  | generic _ _, _ => false

/-- The field that a key may have been meant for. -/
def meantField? (fields : List Field) (key : String) : Option String :=
  (Text.closest key (fields.map (·.name))).filter (!·.isEmpty)

/-- Warnings for the keys of a mapping that no field has. -/
def unknownKeys (fields : List Field) (path : Path) (es : Entries) : List Warning :=
  es.filterMap fun (k, _) =>
    if fields.any fun f => k.isKey f.name then none
    else some ⟨path, k.plainText, meantField? fields k.plainText⟩

/-- The elements of a list that are not of a kind. -/
def strangers (kind : Kind) (path : Path) (items : List Value) : List Violation :=
  (items.mapIdx fun i v =>
    if kind.admits v then [] else [⟨path.item i, .wrongType kind.name v.typeName none⟩]).flatten

/-- What is left to check of a value of the right type: its choices and its rule. -/
def Field.breaches (f : Field) (path : Path) (v : Value) : List Violation :=
  (match f.choices with
    | some cs => if cs.any (v.same ·) then [] else [⟨path, .noChoice v.literal (cs.map (·.literal))⟩]
    | none => []) ++
  (match f.rule with
    | some r => (r.complaints v).map fun c => ⟨path, .broken c⟩
    | none => [])

/-- The value is not of the type of the field. -/
def Field.mismatch (f : Field) (path : Path) (v : Value) : Findings :=
  .problem path (.wrongType f.type.name v.typeName
    (match f.type with | .oneOf _ => none | _ => f.type.leading?))

mutual

/-- Check the type of a value that is not null. -/
def Field.checkType (f : Field) (path : Path) (v : Value) : Findings :=
  match f with
  | ⟨name, type, required, choices, rule⟩ =>
    match type, v with
    | .one t, v => if t.admits v then {} else Field.mismatch ⟨name, .one t, required, choices, rule⟩ path v
    | .oneOf ts, v =>
      if ts.any (·.admits v) then {} else Field.mismatch ⟨name, .oneOf ts, required, choices, rule⟩ path v
    | .listOf k, .list xs => { violations := strangers k path xs }
    | .listOfMaps fields, .list xs =>
      .join (xs.mapIdx fun i x =>
        match x with
        | .map es => checkFields fields (path.item i) es ++
            { warnings := unknownKeys fields (path.item i) es }
        | x => .problem (path.item i) (.wrongType Kind.map.name x.typeName none))
    | .mapOf fields, .map es =>
      checkFields fields path es ++ { warnings := unknownKeys fields path es }
    | type, v => Field.mismatch ⟨name, type, required, choices, rule⟩ path v

/-- Check the fields of a mapping in turn. -/
def checkFields : List Field → Path → Entries → Findings
  | [], _, _ => {}
  | f :: fs, path, es =>
    let v := es.get f.name
    let place := path.key f.name
    (if v.isNull then
      if f.required then .problem place (.missing f.name f.type.leading? path) else {}
    else
      let found := Field.checkType f place v
      if found.violations.isEmpty then found ++ { violations := f.breaches place v } else found) ++
    checkFields fs path es

end

/-- Check a mapping: its fields, then its keys. -/
def checkMap (fields : List Field) (path : Path) (es : Entries) : Findings :=
  checkFields fields path es ++ { warnings := unknownKeys fields path es }

end ShellCompletion.Schema
