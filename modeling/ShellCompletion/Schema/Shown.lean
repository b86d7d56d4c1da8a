import ShellCompletion.Schema.Check

/-! What a check of a mapping shows on its way, in order: each key that no field has, inside a
warning, and each value inside the text of a violation. A whole number of too many digits can not
be shown: it ends the check, and only the warnings before it have been given. -/
namespace ShellCompletion.Schema

open Document

/-- Something that is shown. -/
inductive Shown where
  | key (k : Value) (warning : Warning)
  | value (v : Value)

namespace Shown

def isShowable : Shown → Bool
  | key k _ => k.isShowable
  | value v => v.isShowable

def warning? : Shown → Option Warning
  | key _ w => some w
  | value _ => none

end Shown

/-- The warnings before the first thing that can not be shown, if there is such a thing. -/
def warnedBefore? (shown : List Shown) : Option (List Warning) :=
  if shown.all (·.isShowable) then none
  else some ((shown.takeWhile (·.isShowable)).filterMap (·.warning?))

/-- The keys of a mapping that no field has. -/
def keysShown (fields : List Field) (path : Path) (es : Entries) : List Shown :=
  es.filterMap fun (k, _) =>
    if fields.any fun f => k.isKey f.name then none
    else some (.key k ⟨path, k.plainText, meantField? fields k.plainText⟩)

/-- The value that a complaint shows, where a rule has been put to a value. An index that is
repeated is that of an element. -/
def Complaint.shown? (v : Value) : Complaint → Option Value
  | badIndex _ => some v
  | repeatedIndex i _ _ =>
    match v with
    | .list xs => (xs[i]?.bind SlotKey.ofElement?).map (·.value)
    | _ => none
  | _ => none

/-- What is shown of a value of the right type: the choices and the value if it is none of them,
and what its rule complains of. -/
def Field.breachesShown (f : Field) (v : Value) : List Shown :=
  (match f.choices with
    | some cs => if cs.any (v.same ·) then [] else (cs ++ [v]).map .value
    | none => []) ++
  (match f.rule with
    | some r => ((r.complaints v).filterMap (·.shown? v)).map .value
    | none => [])

mutual

/-- What is shown while the type of a value is checked. -/
def Field.typeShown (f : Field) (path : Path) (v : Value) : List Shown :=
  match f with
  | ⟨_, type, _, _, _⟩ =>
    match type, v with
    | .listOfMaps fields, .list xs =>
      (xs.mapIdx fun i x =>
        match x with
        | .map es => fieldsShown fields (path.item i) es ++ keysShown fields (path.item i) es
        | _ => []).flatten
    | .mapOf fields, .map es => fieldsShown fields path es ++ keysShown fields path es
    | _, _ => []

/-- What is shown while the fields of a mapping are checked in turn. -/
def fieldsShown : List Field → Path → Entries → List Shown
  | [], _, _ => []
  | f :: fs, path, es =>
    let v := es.get f.name
    let place := path.key f.name
    (if v.isNull then []
    else
      f.typeShown place v ++
        if (f.checkType place v).violations.isEmpty then f.breachesShown v else []) ++
    fieldsShown fs path es

end

/-- What a check of a mapping shows. -/
def mapShown (fields : List Field) (path : Path) (es : Entries) : List Shown :=
  fieldsShown fields path es ++ keysShown fields path es

end ShellCompletion.Schema
