import ShellCompletion.Interface.Basic
import ShellCompletion.Text.Blank

/-! The plan of a script: which option each flag stands for, and which slot each index
stands for. The first declaration of a flag, of an index and of the catch-all slot counts;
slots with an index are put in the order of their indices. -/
namespace ShellCompletion

/-- A flag with the option that it stands for and the place of that option. -/
structure FlagEntry where
  literal : String
  place : Nat
  option : OptionSpec
deriving DecidableEq, Repr

/-- A slot with its place among the slots. -/
structure Slot where
  ordinal : Nat
  spec : SlotSpec
deriving DecidableEq, Repr

structure Plan where
  interface : Interface
  flags : List FlagEntry
  slots : List Slot
  /-- The slots that have an index, in the order of the indices. -/
  explicitOrder : List Slot
  catchAll : Option Slot
deriving DecidableEq, Repr

/-- The first element of each key, for the keys that are not yet seen. -/
def keepFirst {α β : Type} [BEq β] (key : α → β) (seen : List β) : List α → List α
  | [] => []
  | x :: xs =>
    if seen.contains (key x) then keepFirst key seen xs
    else x :: keepFirst key (key x :: seen) xs

def FlagEntry.takesValue (e : FlagEntry) : Bool := e.option.takesValue

namespace Slot

/-- The index of a slot that has one. -/
def number? (s : Slot) : Option Int :=
  match s.spec.index with
  | .number n => some n
  | .all => none

/-- What a slot is for, as comments say it, where its number can be shown. -/
def label (s : Slot) : String :=
  let place := match s.spec.index with
    | .number n => s!"argument {n}"
    | .all => "remaining arguments"
  if s.spec.name.isEmpty then place else place ++ " (" ++ s.spec.name ++ ")"

def before (s t : Slot) : Bool := s.number?.getD 0 ≤ t.number?.getD 0

end Slot

namespace Plan

/-- Every declaration of a flag. -/
def declarations (options : List OptionSpec) : List FlagEntry :=
  (options.mapIdx fun k o => o.flags.map fun f => ⟨f, k, o⟩).flatten

def ofInterface (i : Interface) : Plan :=
  let slots := i.slots.mapIdx Slot.mk
  { interface := i
    flags := keepFirst FlagEntry.literal [] (declarations i.options)
    slots
    explicitOrder :=
      (keepFirst Slot.number? [] (slots.filter (·.number?.isSome))).mergeSort Slot.before
    catchAll := slots.find? (·.number?.isNone) }

def hasFlags (p : Plan) : Bool := !p.flags.isEmpty

/-- The flags that stand for the option at a place. -/
def flagsFor (p : Plan) (place : Nat) : List FlagEntry := p.flags.filter (·.place == place)

end Plan

theorem keepFirst_sublist {α β : Type} [BEq β] (key : α → β) (seen : List β) (xs : List α) :
    (keepFirst key seen xs).Sublist xs := by
  induction xs generalizing seen with
  | nil => exact .slnil
  | cons x xs ih =>
    rw [keepFirst]
    split
    · exact (ih _).cons _
    · exact (ih _).cons_cons _

end ShellCompletion
