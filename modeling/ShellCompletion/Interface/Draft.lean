import ShellCompletion.Interface.Basic
import ShellCompletion.Schema.Check
import ShellCompletion.Text.Blank

/-! What a document says of an interface, before it is known whether names are texts and
indices numbers: every such part is kept as the value that it is. What is null or absent, and
what counts as nothing, stands for the default of its place. -/
namespace ShellCompletion

open Document

/-- Why a document describes no interface. -/
inductive BuildError where
  | missingKey (name : String)
  | unknownBuiltin (literal : String)
  /-- A value without elements stands where elements are taken. -/
  | noElements (found : String)
  /-- A value without keys stands where a key is looked up. -/
  | noKeys (found : String)
  /-- The document itself is no mapping. -/
  | noMapping (found : String)
  | unexpected (found : String)
deriving DecidableEq, Repr

def BuildError.message : BuildError → String
  | missingKey name => Text.literal name
  | unknownBuiltin literal => literal ++ " is not a valid BuiltinKind"
  | noElements found => "'" ++ found ++ "' object is not iterable"
  | noKeys found => "'" ++ found ++ "' object has no attribute 'get'"
  | noMapping found =>
    if found = "list" then "list indices must be integers or slices, not str"
    else if found = "str" then "string indices must be integers, not 'str'"
    else "'" ++ found ++ "' object is not subscriptable"
  | unexpected found => "unexpected " ++ found

/-- The truth value that a value stands for. A text is true unless it is blank or says no;
any other value is true unless it counts as nothing. -/
def coerceBool (default : Bool) : Value → Bool
  | .null => default
  | .str s =>
    let lowered := Text.trim (Text.lower s.toList)
    !(Text.trim s.toList).isEmpty && !Schema.falseWords.contains (String.ofList lowered)
  | v => !v.isFalsy

namespace Draft

/-- A source of candidates. -/
inductive Source where
  | builtin (kind : Builtin)
  | command (argv : List Value)

/-- The value that an option takes. -/
structure ValueSpec where
  name : Value
  source : Option Source

structure OptionSpec where
  flags : List Value
  description : Value
  value : Option ValueSpec

structure SlotSpec where
  index : Value
  name : Value
  source : Option Source
  skipIf : Option (List Value)

/-- A value, or a default text for what counts as nothing. -/
def orText (default : String) (v : Value) : Value := if v.isFalsy then .str default else v

def entries : Value → Except BuildError Entries
  | .map es => .ok es
  | v => .error (.noKeys v.typeName)

/-- The elements of a list. Those of a text are its characters, and those of a mapping its
keys. -/
def elements : Value → Except BuildError (List Value)
  | .list xs | .tuple xs | .set xs => .ok xs
  | .str s => .ok (s.toList.map fun c => .str c.toString)
  | .map es => .ok (es.map (·.1))
  | v => .error (.noElements v.typeName)

/-- The elements of a list, or none for what counts as nothing. -/
def elementsOrNone (v : Value) : Except BuildError (List Value) :=
  if v.isFalsy then .ok [] else elements v

/-- Build from the entries of a value that is not null. -/
def optional {α : Type} (build : Entries → Except BuildError α) (v : Value) :
    Except BuildError (Option α) :=
  if v.isNull then .ok none else do return some (← build (← entries v))

/-- A source of candidates; a builtin one is preferred. -/
def Source.ofEntries (es : Entries) : Except BuildError Source :=
  let word := es.get "builtin"
  if word.isNull then
    match es.find? "cmd" with
    | none => .error (.missingKey "cmd")
    | some v => do return command (← elements v)
  else
    match word with
    | .str s =>
      match Builtin.ofWord? s with
      | some k => .ok (builtin k)
      | none => .error (.unknownBuiltin word.literal)
    | v => .error (.unknownBuiltin v.literal)

def ValueSpec.ofEntries (es : Entries) : Except BuildError ValueSpec := do
  return { name := orText "" (es.get "name"), source := ← optional Source.ofEntries (es.get "comp") }

def OptionSpec.ofValue (v : Value) : Except BuildError OptionSpec := do
  let es ← entries v
  return {
    flags := ← elementsOrNone (es.get "short")
    description := orText "" (es.get "description")
    value := ← optional ValueSpec.ofEntries (es.get "value") }

def SlotSpec.ofValue (v : Value) : Except BuildError SlotSpec := do
  let es ← entries v
  let index := es.get "index"
  return {
    index := if index.isNull then .str Schema.catchAll else index
    name := orText "" (es.get "name")
    source := ← optional Source.ofEntries (es.get "comp")
    skipIf := ← optional (fun es => elementsOrNone (es.get "has_opt_any")) (es.get "skip_if") }

def OptionSpec.takesValue (o : OptionSpec) : Bool := o.value.isSome

def SlotSpec.isCatchAll (s : SlotSpec) : Bool := s.index.isKey Schema.catchAll

end Draft

/-- The draft of an interface. -/
structure Draft where
  name : Value
  doubleDash : Bool
  flagMark : Value
  options : List Draft.OptionSpec
  slots : List Draft.SlotSpec

namespace Draft

/-- The draft that a mapping describes. -/
def ofEntries (es : Entries) : Except BuildError Draft := do
  let name ← match es.find? "name" with
    | some v => pure v
    | none => throw (.missingKey "name")
  return {
    name
    doubleDash := coerceBool false (es.get "use_doubledash")
    flagMark := orText "-" (es.get "short_opt_prefix")
    options := ← (← elementsOrNone (es.get "opts")).mapM OptionSpec.ofValue
    slots := ← (← elementsOrNone (es.get "args")).mapM SlotSpec.ofValue }

/-- The draft that a document describes. -/
def ofDocument : Value → Except BuildError Draft
  | .map es => ofEntries es
  | v => .error (.noMapping v.typeName)

/-- Every flag that is declared, in order. -/
def flags (d : Draft) : List Value := d.options.flatMap (·.flags)

/-- Is a flag declared at all? -/
def hasFlags (d : Draft) : Bool := d.options.any fun o => !o.flags.isEmpty

theorem hasFlags_eq (d : Draft) : d.hasFlags = !d.flags.isEmpty := by
  unfold hasFlags flags
  induction d.options with
  | nil => rfl
  | cons o os ih => cases h : o.flags <;> simp_all

end Draft

end ShellCompletion
