import Mathlib.Data.List.Basic
import ShellCompletion.Proofs.Shell.Legible
import ShellCompletion.Script.Text

/-! What a script does, apart from its text. Branches that offer candidates are described by
what selects them and by the source of the candidates; the behaviour of a script is its
command with the tables that steer the scan and with these branches. The remarks are the words
of its comments, which the shell does not read. The main statements are that the branches of a
plan are those of its offers. -/
namespace ShellCompletion.Script

open Shell

/-- Candidates from a source for a key, with a note on them. -/
structure Offer (κ : Type) where
  key : κ
  note : String
  source : Source

def Offer.branch {κ : Type} (pattern : κ → List Piece) (o : Offer κ) : Branch where
  pattern := pattern o.key
  note := o.note
  body := sourceLines (some o.source)

/-! ### Offers of a plan -/

def valueOffer? (p : Plan) (place : Nat) (o : OptionSpec) : Option (Offer (List FlagEntry)) := do
  let value ← o.value
  let source ← value.source
  if (p.flagsFor place).isEmpty then none
  else some { key := p.flagsFor place, note := value.name, source }

/-- What is offered for the values of options, by the flags of the option. -/
def valueOffers (p : Plan) : List (Offer (List FlagEntry)) :=
  (p.interface.options.mapIdx (valueOffer? p)).filterMap id

def slotOffer? (key : Option Nat) (s : Slot) : Option (Offer (Option Nat)) :=
  s.spec.source.map fun source => { key, note := s.label, source }

/-- What is offered for arguments, by the slot, and without one for all that remain. -/
def slotOffers (p : Plan) : List (Offer (Option Nat)) :=
  (p.explicitOrder.filterMap fun s => slotOffer? (some s.ordinal) s) ++
    (p.catchAll.bind (slotOffer? none)).toList

/-- The label of a slot, or of all arguments that remain. -/
def slotPattern (key : Option Nat) : List Piece := [.code (key.elim "all" toString)]

theorem valueBranches_eq (p : Plan) :
    valueBranches p = (valueOffers p).map (Offer.branch alternatives) := by
  have h (k : Nat) (o : OptionSpec) :
      valueBranch? p k o = (valueOffer? p k o).map (Offer.branch alternatives) := by
    unfold valueBranch? valueOffer?
    cases o.value with
    | none => rfl
    | some v =>
      cases hs : v.source with
      | none => simp [hs]
      | some c => by_cases hf : (p.flagsFor k).isEmpty <;> simp [hs, hf, Offer.branch]
  rw [valueBranches, valueOffers, List.mapIdx_eq_zipIdx_map, List.mapIdx_eq_zipIdx_map,
    List.filterMap_map, List.filterMap_map, List.map_filterMap]
  exact List.filterMap_congr fun z _ => h z.2 z.1

theorem slotBranches_eq_map (p : Plan) :
    slotBranches p = (slotOffers p).map (Offer.branch slotPattern) := by
  have h (key : Option Nat) (s : Slot) : slotBranch? (key.elim "all" toString) s =
      (slotOffer? key s).map (Offer.branch slotPattern) := by
    rw [slotBranch?, slotOffer?, Option.map_map]
    rfl
  have ho : p.explicitOrder.filterMap (fun s => slotBranch? (toString s.ordinal) s) =
      (p.explicitOrder.filterMap fun s => slotOffer? (some s.ordinal) s).map
        (Offer.branch slotPattern) := by
    rw [List.map_filterMap]
    exact List.filterMap_congr fun s _ => h (some s.ordinal) s
  rw [slotBranches, slotOffers, List.map_append, ho]
  cases p.catchAll with
  | none => rfl
  | some s =>
    rw [Option.bind_some, Option.bind_some, ← Option.toList_map, ← h none s]
    rfl

theorem flags_eq_nil {p : Plan} (h : p.hasFlags = false) : p.flags = [] := by
  simpa only [Plan.hasFlags, Bool.not_eq_false', List.isEmpty_iff] using h

/-- Without flags, no value is ever completed. -/
theorem valueOffers_eq_nil {p : Plan} (h : p.hasFlags = false) : valueOffers p = [] := by
  have hf (k : Nat) : p.flagsFor k = [] := by rw [Plan.flagsFor, flags_eq_nil h, List.filter_nil]
  have hn (k : Nat) (o : OptionSpec) : valueOffer? p k o = none := by
    unfold valueOffer?
    cases o.value with
    | none => rfl
    | some v => cases v.source <;> simp [hf]
  rw [valueOffers, List.filterMap_eq_nil_iff]
  intro o ho
  obtain ⟨k, hk, rfl⟩ := List.mem_mapIdx.1 ho
  exact hn k _

theorem slotOffers_eq_nil {i : Interface} (h : i.slots = []) :
    slotOffers (.ofInterface i) = [] := by
  simp [slotOffers, Plan.ofInterface, h, keepFirst]

/-- The flags that lift slots, each after the slot, in the order of the tests. -/
def lifts (p : Plan) : List (Nat × String) :=
  p.slots.flatMap fun s => (s.spec.skipIf.getD []).map (s.ordinal, ·)

theorem skipLines_eq (p : Plan) : skipLines p = (lifts p).flatMap fun z => liftLines z.1 z.2 := by
  simp [skipLines, lifts, List.flatMap_assoc, List.flatMap_map]

/-! ### Behaviour and remarks -/

@[ext] structure Behaviour where
  command : String
  doubleDash : Bool
  flagMark : String
  /-- The flags, each with whether a value follows it. -/
  flags : List (String × Bool)
  slotCount : Nat
  /-- The slots that take one argument each, in order. -/
  order : List Nat
  lifts : List (Nat × String)
  values : List (List String × Source)
  arguments : List (Option Nat × Source)
deriving DecidableEq, Repr

/-- The words of comments; what is offered for a value may have none. -/
@[ext] structure Remarks where
  slots : List String
  values : List (Option String)
  arguments : List (Option String)
deriving DecidableEq, Repr

/-- What the comment on a slot says. -/
def slotNote (s : Slot) : String := s!"slot {s.ordinal}: " ++ s.label

def behaviour (i : Interface) : Behaviour :=
  let p := Plan.ofInterface i
  { command := i.name
    doubleDash := i.doubleDash
    flagMark := i.flagMark
    flags := p.flags.map fun e => (e.literal, e.takesValue)
    slotCount := p.slots.length
    order := p.explicitOrder.map (·.ordinal)
    lifts := lifts p
    values := (valueOffers p).map fun o => (o.key.map (·.literal), o.source)
    arguments := (slotOffers p).map fun o => (o.key, o.source) }

def remarks (i : Interface) : Remarks :=
  let p := Plan.ofInterface i
  { slots := p.slots.map fun s => Text.collapse (slotNote s)
    values := (valueOffers p).map fun o => remark? o.note
    arguments := (slotOffers p).map fun o => remark? o.note }

end ShellCompletion.Script
