import ShellCompletion.Document.Mapping
import ShellCompletion.Log.Layout

/-! Messages: templates with arguments in their places. The arguments are taken in turn, or,
when the only argument is a mapping, by key. -/
namespace ShellCompletion.Log

open Document

/-- The arguments that are still to be taken. -/
inductive Arguments where
  | sequence (values : List Value)
  /-- The values of a mapping, and the one that is taken next: the mapping itself until a key
  is asked for. -/
  | mapping (entries : Entries) (next : Option Value)

namespace Arguments

/-- A mapping without entries is an argument like any other. -/
def ofList : List Value → Arguments
  | [.map (e :: es)] => mapping (e :: es) (some (.map (e :: es)))
  | vs => sequence vs

/-- All arguments of a sequence have to be taken. -/
def isDone : Arguments → Bool
  | sequence vs => vs.isEmpty
  | mapping _ _ => true

end Arguments

abbrev Filling := StateT Arguments (Except TemplateError)

namespace Filling

/-- Take the next argument. -/
def take : Filling Value := do
  match ← get with
  | .sequence (v :: vs) =>
    set (Arguments.sequence vs)
    return v
  | .mapping es (some v) =>
    set (Arguments.mapping es none)
    return v
  | _ => throw .tooFew

/-- Make the value of a key the next argument. -/
def select (key : PlaceKey) : Filling Unit := do
  match key, ← get with
  | .unsaid, _ => return
  | _, .sequence _ => throw .noMapping
  | .unclosed, _ => throw .unclosedKey
  | .named k, .mapping es _ =>
    match es.find? k with
    | some v => set (Arguments.mapping es (some v))
    | none => throw (.missingKey k)

/-- A number that a place gives, as far as a counter up to `largest` can hold it; one that is
asked for may be negative. -/
def number (largest : Nat) (tooBig : TemplateError) (counted : String) : Size → Filling (Option Int)
  | .unsaid => return none
  | .given n => if largest < n then throw tooBig else return some n
  | .asked => do
    match integerOf? (← take) with
    | none => throw .noSize
    | some n =>
      if (largest : Int) < n || n < -(largest : Int) - 1 then throw (.sizeOutOfRange counted)
      else return some n

/-- Fill a place whose letter stands at an index. A width below zero is one to the left, and a
precision below zero is zero. -/
def place (p : Place) (index : Nat) : Filling (List Char) := do
  select p.key
  let width := (← number 0x7FFFFFFFFFFFFFFF .widthTooBig "ssize_t" p.width).getD 0
  let precision ← number 0x7FFFFFFF .precisionTooBig "int" p.precision
  match p.letter with
  | none => throw .incomplete
  | some letter =>
    let fits := width.natAbs ≤ Layout.maxWidth
    let layout : Layout := {
      flags := { p.flags with left := p.flags.left || width < 0 }
      width := if fits then width.natAbs else 0
      precision := precision.map Int.toNat }
    let s ← layout.write letter index (← take)
    if fits then return s else throw .tooWide

/-- Fill pieces in turn; every argument has to be taken in the end. -/
def pieces : List Piece → Filling (List Char)
  | [] => do if (← get).isDone then return [] else throw .tooMany
  | .char c :: ps => return c :: (← pieces ps)
  | .place p index :: ps => return (← place p index) ++ (← pieces ps)

end Filling

/-- Put arguments into a template. Without arguments the template is the message. -/
def fillTemplate (template : String) (args : List Value) : Except TemplateError String :=
  if args.isEmpty then .ok template
  else ((Filling.pieces (pieces template)).run' (.ofList args)).map String.ofList

end ShellCompletion.Log
