import ShellCompletion.Proofs.Shell.Closed
import ShellCompletion.Script.Text

/-! What program text depends on. The skeleton of a plan has no texts in it but keeps the
places of flags, the indices of slots, the kinds of sources and all numbers of things. Each
section of a script has the same skeleton for a plan and for the skeleton of the plan, so
that plans with one skeleton give scripts with one program text. -/
namespace ShellCompletion

/-- A source of the same kind and length. -/
def Source.skeleton : Source → Source
  | .builtin k => .builtin k
  | .command argv => .command (argv.map fun _ => "")

/-- Of the name it is kept whether there is one. -/
def ValueSpec.skeleton (v : ValueSpec) : ValueSpec where
  name := if v.name.isEmpty then "" else "_"
  source := v.source.map Source.skeleton

/-- The flags of an option are kept by the entries of a plan. -/
def OptionSpec.skeleton (o : OptionSpec) : OptionSpec where
  value := o.value.map ValueSpec.skeleton

def SlotSpec.skeleton (s : SlotSpec) : SlotSpec where
  index := s.index
  source := s.source.map Source.skeleton
  skipIf := s.skipIf.map (·.map fun _ => "")

def FlagEntry.skeleton (e : FlagEntry) : FlagEntry where
  literal := ""
  place := e.place
  option := e.option.skeleton

def Slot.skeleton (s : Slot) : Slot where
  ordinal := s.ordinal
  spec := s.spec.skeleton

def Plan.skeleton (p : Plan) : Plan where
  interface := {
    name := ""
    doubleDash := p.interface.doubleDash
    options := p.interface.options.map OptionSpec.skeleton
    slots := p.interface.slots.map SlotSpec.skeleton }
  flags := p.flags.map FlagEntry.skeleton
  slots := p.slots.map Slot.skeleton
  explicitOrder := p.explicitOrder.map Slot.skeleton
  catchAll := p.catchAll.map Slot.skeleton

namespace Shell

namespace Piece

@[simp] theorem skeleton_code (s : String) : (code s).skeleton = code s := rfl

@[simp] theorem skeleton_word (s : String) : (word s).skeleton = word "" := rfl

@[simp] theorem skeleton_wordList (ss : List String) : (wordList ss).skeleton = wordList [] := rfl

@[simp] theorem skeleton_skeleton (p : Piece) : p.skeleton.skeleton = p.skeleton := by
  cases p <;> rfl

end Piece

namespace Line

@[simp] theorem skeleton_mk (n : Nat) (ps : List Piece) :
    skeleton ⟨n, ps⟩ = ⟨n, ps.map Piece.skeleton⟩ := rfl

@[simp] theorem skeleton_plain (s : String) : (plain s).skeleton = plain s := rfl

@[simp] theorem skeleton_blank : blank.skeleton = blank := rfl

@[simp] theorem skeleton_comment (s : String) : (comment s).skeleton = comment "" := rfl

@[simp] theorem skeleton_deeper (n : Nat) (l : Line) :
    (l.deeper n).skeleton = l.skeleton.deeper n := rfl

@[simp] theorem skeleton_skeleton (l : Line) : l.skeleton.skeleton = l.skeleton := by
  simp [skeleton, Function.comp_def]

end Line

@[simp] theorem map_skeleton_indent (n : Nat) (ls : List Line) :
    (indent n ls).map Line.skeleton = indent n (ls.map Line.skeleton) := by
  simp [indent]

/-- The branch with the skeletons of its lines, and a note if there was one. -/
def Branch.skeleton (b : Branch) : Branch where
  pattern := b.pattern.map Piece.skeleton
  note := if b.note.isEmpty then "" else "_"
  body := b.body.map Line.skeleton

theorem map_skeleton_branchLines (b : Branch) :
    b.skeleton.lines.map Line.skeleton = b.lines.map Line.skeleton := by
  by_cases h : b.note = "" <;> simp [Branch.lines, Branch.skeleton, Function.comp_def, h]

/-- The skeleton of a case statement depends on the skeletons of its branches. -/
theorem map_skeleton_caseLines (subject : String) {bs cs : List Branch}
    (h : bs.map Branch.skeleton = cs.map Branch.skeleton) :
    (caseLines subject bs).map Line.skeleton = (caseLines subject cs).map Line.skeleton := by
  have hb (ds : List Branch) : (ds.flatMap Branch.lines).map Line.skeleton =
      (ds.map Branch.skeleton).flatMap fun b => b.lines.map Line.skeleton := by
    simp [List.map_flatMap, List.flatMap_map, map_skeleton_branchLines]
  simp [caseLines, hb, h]

end Shell

namespace Script

open Shell

variable (p : Plan)

theorem sourceLines_skeleton (s : Option Source) :
    (sourceLines (s.map Source.skeleton)).map Line.skeleton = (sourceLines s).map Line.skeleton := by
  match s with
  | none => rfl
  | some (.builtin k) => rfl
  | some (.command argv) =>
    by_cases h : argv = []
    · simp [sourceLines, Source.skeleton, h]
    · simp [sourceLines, Source.skeleton, h, List.flatMap_map, List.map_flatMap, -List.map_const']

@[simp] theorem takesValue_skeleton (e : FlagEntry) : e.skeleton.takesValue = e.takesValue := by
  simp [FlagEntry.takesValue, OptionSpec.takesValue, FlagEntry.skeleton, OptionSpec.skeleton]

@[simp] theorem hasFlags_skeleton : p.skeleton.hasFlags = p.hasFlags := by
  simp [Plan.hasFlags, Plan.skeleton]

@[simp] theorem flagsFor_skeleton (place : Nat) :
    p.skeleton.flagsFor place = (p.flagsFor place).map FlagEntry.skeleton := by
  simp [Plan.flagsFor, Plan.skeleton, List.filter_map, Function.comp_def, FlagEntry.skeleton]

theorem ordinals_skeleton (slots : List Slot) :
    ordinals (slots.map Slot.skeleton) = ordinals slots := by
  simp [ordinals, Slot.skeleton, Function.comp_def]

theorem entryLine_skeleton (table flag value : String) :
    (entryLine table flag value).skeleton = entryLine table "" value := rfl

theorem stateLines_skeleton :
    (stateLines p.skeleton).map Line.skeleton = (stateLines p).map Line.skeleton := by
  simp only [stateLines, hasFlags_skeleton]
  simp [Plan.skeleton, Function.comp_def, entryLine_skeleton, ordinals_skeleton]

theorem usedBranch_skeleton (e : FlagEntry) :
    (usedBranch e.skeleton).skeleton = (usedBranch e).skeleton := rfl

theorem scanLines_skeleton :
    (scanLines p.skeleton).map Line.skeleton = (scanLines p).map Line.skeleton := by
  have h : (p.skeleton.flags.map usedBranch).map Branch.skeleton =
      (p.flags.map usedBranch).map Branch.skeleton := by
    simp [Plan.skeleton, Function.comp_def, usedBranch_skeleton]
  simp [scanLines, scanBody, map_skeleton_caseLines _ h]

theorem liftLines_skeleton (ordinal : Nat) (flag : String) :
    (liftLines ordinal flag).map Line.skeleton = (liftLines ordinal "").map Line.skeleton := rfl

theorem skipLines_skeleton :
    (skipLines p.skeleton).map Line.skeleton = (skipLines p).map Line.skeleton := by
  have h (s : Slot) : (s.skeleton.spec.skipIf.getD []).flatMap
        (fun f => (liftLines s.skeleton.ordinal f).map Line.skeleton) =
      (s.spec.skipIf.getD []).flatMap fun f => (liftLines s.ordinal f).map Line.skeleton := by
    simp only [liftLines_skeleton _ _, Slot.skeleton, SlotSpec.skeleton]
    cases s.spec.skipIf with
    | none => rfl
    | some fs => simp only [Option.map_some, Option.getD_some, List.flatMap_map]
  simp only [skipLines, Plan.skeleton, List.flatMap_map, List.map_flatMap, h]

@[simp] theorem isEmpty_label (s : Slot) : s.label.isEmpty = false := by
  unfold Slot.label
  cases s.spec.index <;> by_cases hn : s.spec.name.isEmpty = true <;> simp +decide [hn]

theorem alternatives_skeleton (es : List FlagEntry) :
    (alternatives (es.map FlagEntry.skeleton)).map Piece.skeleton =
      (alternatives es).map Piece.skeleton := by
  induction es with
  | nil => rfl
  | cons e es ih =>
    cases es with
    | nil => rfl
    | cons f fs => simpa [alternatives] using ih

theorem valueBranch?_skeleton (place : Nat) (o : OptionSpec) :
    (valueBranch? p.skeleton place o.skeleton).map Branch.skeleton =
      (valueBranch? p place o).map Branch.skeleton := by
  cases hv : o.value with
  | none => simp [valueBranch?, OptionSpec.skeleton, hv]
  | some v =>
    cases hs : v.source with
    | none => simp [valueBranch?, OptionSpec.skeleton, ValueSpec.skeleton, hv, hs]
    | some c =>
      have hl := sourceLines_skeleton (some c)
      by_cases hf : p.flagsFor place = []
      · simp [valueBranch?, OptionSpec.skeleton, ValueSpec.skeleton, hv, hs, hf]
      · by_cases hn : v.name = "" <;>
          simp_all [valueBranch?, OptionSpec.skeleton, ValueSpec.skeleton, Branch.skeleton,
            alternatives_skeleton]

theorem valueBranches_skeleton :
    (valueBranches p.skeleton).map Branch.skeleton = (valueBranches p).map Branch.skeleton := by
  have h (q : Plan) : (valueBranches q).map Branch.skeleton =
      ((q.interface.options.mapIdx (valueBranch? q)).map (Option.map Branch.skeleton)).filterMap id := by
    rw [valueBranches, List.map_filterMap, List.filterMap_map]
    rfl
  have ho : p.skeleton.interface.options = p.interface.options.map OptionSpec.skeleton := rfl
  rw [h, h, ho]
  congr 1
  refine List.ext_getElem? fun k => ?_
  cases hk : p.interface.options[k]? <;> simp [hk, valueBranch?_skeleton]

theorem slotBranch?_skeleton (label : String) (s : Slot) :
    (slotBranch? label s.skeleton).map Branch.skeleton =
      (slotBranch? label s).map Branch.skeleton := by
  cases hs : s.spec.source with
  | none => simp [slotBranch?, Slot.skeleton, SlotSpec.skeleton, hs]
  | some c =>
    have hl := sourceLines_skeleton (some c)
    have hn : s.skeleton.label.isEmpty = false := isEmpty_label _
    simp_all [slotBranch?, Slot.skeleton, SlotSpec.skeleton, Branch.skeleton]

theorem slotBranches_skeleton :
    (slotBranches p.skeleton).map Branch.skeleton = (slotBranches p).map Branch.skeleton := by
  have hc : (p.skeleton.catchAll.bind (slotBranch? "all")).toList.map Branch.skeleton =
      (p.catchAll.bind (slotBranch? "all")).toList.map Branch.skeleton := by
    cases hs : p.catchAll with
    | none => simp [Plan.skeleton, hs]
    | some s =>
      have := congrArg Option.toList (slotBranch?_skeleton "all" s)
      simpa [Plan.skeleton, hs, Option.toList_map] using this
  have he : p.skeleton.explicitOrder = p.explicitOrder.map Slot.skeleton := rfl
  simp only [slotBranches, List.map_append, List.map_filterMap, hc, he, List.filterMap_map,
    Function.comp_def, slotBranch?_skeleton]
  rfl

theorem modeBranches_skeleton :
    (modeBranches p.skeleton).map Branch.skeleton = (modeBranches p).map Branch.skeleton := by
  have hs : p.skeleton.interface.slots.isEmpty = p.interface.slots.isEmpty := by
    simp [Plan.skeleton]
  have hf : (flagBranch p.skeleton).skeleton = (flagBranch p).skeleton := rfl
  have hv := map_skeleton_caseLines "$prev" (valueBranches_skeleton p)
  have hb : Branch.skeleton
        { pattern := [.code "opt_arg"], body := caseLines "$prev" (valueBranches p.skeleton) } =
      Branch.skeleton
        { pattern := [.code "opt_arg"], body := caseLines "$prev" (valueBranches p) } := by
    simp [Branch.skeleton, hv]
  have ha := map_skeleton_caseLines "$arg_slot" (slotBranches_skeleton p)
  simp only [modeBranches, hs, hasFlags_skeleton, List.map_append]
  congr 1
  · split
    · simp only [List.map_cons, List.map_nil, hf, hb]
    · rfl
  · split
    · rfl
    · simp [Branch.skeleton, ha]

theorem bodyLines_skeleton :
    (bodyLines p.skeleton).map Line.skeleton = (bodyLines p).map Line.skeleton := by
  have hc := map_skeleton_caseLines "$mode" (modeBranches_skeleton p)
  simp only [bodyLines, List.map_append, stateLines_skeleton, scanLines_skeleton,
    skipLines_skeleton, candidateLines, hc]

/-- The name of the function and the skeleton of the plan decide the skeleton of the script. -/
theorem lines_skeleton {i j : Interface} (hn : functionName i = functionName j)
    (hp : (Plan.ofInterface i).skeleton = (Plan.ofInterface j).skeleton) :
    (lines i).map Line.skeleton = (lines j).map Line.skeleton := by
  have hb : (bodyLines (.ofInterface i)).map Line.skeleton =
      (bodyLines (.ofInterface j)).map Line.skeleton := by
    rw [← bodyLines_skeleton, hp, bodyLines_skeleton]
  simp [lines, hn, hb]

theorem registration_skeleton {i j : Interface} (hn : functionName i = functionName j) :
    (registration i).skeleton = (registration j).skeleton := by
  simp [registration, hn]

end Script

end ShellCompletion
