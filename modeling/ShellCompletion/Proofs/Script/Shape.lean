import ShellCompletion.Proofs.Related
import ShellCompletion.Proofs.Script.Skeleton

/-! Interfaces of one shape: they agree in the name of the function, in the indices of slots
and the kinds of sources and in the numbers of things, and the flags of one are the flags of
the other under a renaming that does not identify flags that are declared. The main
statement says that their plans have the same skeleton, whatever their other texts are. -/
namespace ShellCompletion

/-- The same source of the shell, or commands with as many words. -/
def Source.SameShape : Source → Source → Prop
  | .builtin k, .builtin l => k = l
  | .command xs, .command ys => xs.length = ys.length
  | _, _ => False

structure ValueSpec.SameShape (v w : ValueSpec) : Prop where
  name : v.name = "" ↔ w.name = ""
  source : Option.Rel Source.SameShape v.source w.source

structure OptionSpec.SameShape (ρ : String → String) (o p : OptionSpec) : Prop where
  flags : p.flags = o.flags.map ρ
  value : Option.Rel ValueSpec.SameShape o.value p.value

structure SlotSpec.SameShape (ρ : String → String) (s t : SlotSpec) : Prop where
  index : s.index = t.index
  source : Option.Rel Source.SameShape s.source t.source
  skipIf : t.skipIf = s.skipIf.map (·.map ρ)

/-- The interfaces differ in texts only, and in their flags by the renaming. -/
structure Interface.SameShape (ρ : String → String) (i j : Interface) : Prop where
  function : Script.functionName i = Script.functionName j
  doubleDash : i.doubleDash = j.doubleDash
  options : List.Forall₂ (OptionSpec.SameShape ρ) i.options j.options
  slots : List.Forall₂ (SlotSpec.SameShape ρ) i.slots j.slots
  injective : ∀ f ∈ i.flags, ∀ g ∈ i.flags, ρ f = ρ g → f = g

/-! ### Skeletons of parts -/

namespace SameShape

theorem source {s t : Source} (h : s.SameShape t) : s.skeleton = t.skeleton := by
  cases s <;> cases t <;> simp_all [Source.SameShape, Source.skeleton]

theorem valueSpec {v w : ValueSpec} (h : v.SameShape w) : v.skeleton = w.skeleton := by
  have hs := map_eq_of_rel h.source fun _ _ => source
  simp [ValueSpec.skeleton, h.name, hs]

theorem optionSpec {ρ : String → String} {o p : OptionSpec} (h : o.SameShape ρ p) :
    o.skeleton = p.skeleton := by
  simp [OptionSpec.skeleton, map_eq_of_rel h.value fun _ _ => valueSpec]

theorem slotSpec {ρ : String → String} {s t : SlotSpec} (h : s.SameShape ρ t) :
    s.skeleton = t.skeleton := by
  have hs := map_eq_of_rel h.source fun _ _ => source
  simp [SlotSpec.skeleton, h.index, hs, h.skipIf, Function.comp_def]

end SameShape

@[simp] theorem Source.skeleton_skeleton (s : Source) : s.skeleton.skeleton = s.skeleton := by
  cases s <;> simp [skeleton]

@[simp] theorem ValueSpec.skeleton_skeleton (v : ValueSpec) : v.skeleton.skeleton = v.skeleton := by
  by_cases h : v.name = "" <;> simp [skeleton, h, Function.comp_def]

@[simp] theorem OptionSpec.skeleton_skeleton (o : OptionSpec) :
    o.skeleton.skeleton = o.skeleton := by
  simp [skeleton, Function.comp_def]

/-! ### Keeping the first of each key -/

section

variable {α β : Type} [BEq β] [LawfulBEq β] (key : α → β) (f : α → α)

/-- A change of the elements that renames their keys one to one keeps the same of them. -/
theorem keepFirst_map (ρ : β → β) (keys : β → Prop) (hf : ∀ x, key (f x) = ρ (key x))
    (hρ : ∀ a b, keys a → keys b → ρ a = ρ b → a = b) (seen : List β) (hs : ∀ b ∈ seen, keys b)
    (xs : List α) (hx : ∀ x ∈ xs, keys (key x)) :
    keepFirst key (seen.map ρ) (xs.map f) = (keepFirst key seen xs).map f := by
  induction xs generalizing seen with
  | nil => rfl
  | cons x xs ih =>
    have hk : keys (key x) := hx x (by simp)
    have hx : ∀ y ∈ xs, keys (key y) := fun y hy => hx y (by simp [hy])
    -- the keys seen are renamed along, so a key is new on both sides or on neither
    have hc : (seen.map ρ).contains (key (f x)) = seen.contains (key x) := by
      rw [hf, Bool.eq_iff_iff, List.contains_iff_mem, List.contains_iff_mem, List.mem_map]
      constructor
      · rintro ⟨b, hb, he⟩
        exact hρ b _ (hs b hb) hk he ▸ hb
      · exact fun h => ⟨key x, h, rfl⟩
    rw [List.map_cons, keepFirst, keepFirst, hc]
    split
    · exact ih seen hs hx
    · rw [List.map_cons, hf]
      have hs : ∀ b ∈ key x :: seen, keys b := by simpa using ⟨hk, hs⟩
      exact congrArg _ (ih _ hs hx)

theorem keepFirst_map_of_key_eq (hf : ∀ x, key (f x) = key x) (xs : List α) :
    keepFirst key [] (xs.map f) = (keepFirst key [] xs).map f :=
  keepFirst_map key f id (fun _ => True) hf (fun _ _ _ _ h => h) [] (by simp) xs (by simp)

end

/-! ### Plans -/

namespace Plan

/-- The entry with its flag renamed and with the skeleton of its option. -/
def renameEntry (ρ : String → String) (e : FlagEntry) : FlagEntry where
  literal := ρ e.literal
  place := e.place
  option := e.option.skeleton

theorem skeleton_renameEntry (ρ : String → String) (e : FlagEntry) :
    (renameEntry ρ e).skeleton = e.skeleton := by
  simp [FlagEntry.skeleton, renameEntry]

theorem literal_mem_of_mem_declarations {os : List OptionSpec} {e : FlagEntry}
    (h : e ∈ declarations os) : e.literal ∈ os.flatMap (·.flags) := by
  simp only [declarations, List.mem_flatten, List.mem_mapIdx] at h
  obtain ⟨_, ⟨k, hk, rfl⟩, h⟩ := h
  obtain ⟨f, hf, rfl⟩ := List.mem_map.1 h
  exact List.mem_flatMap.2 ⟨_, List.getElem_mem hk, hf⟩

variable {ρ : String → String} {i j : Interface}

theorem map_renameEntry_declarations {os ps : List OptionSpec}
    (h : List.Forall₂ (OptionSpec.SameShape ρ) os ps) :
    (declarations os).map (renameEntry ρ) = (declarations ps).map (renameEntry id) := by
  rw [declarations, declarations, List.map_flatten, List.map_flatten]
  refine congrArg _ (map_mapIdx_eq_of_forall₂ h fun k o p hop => ?_)
  simp [hop.flags, renameEntry, SameShape.optionSpec hop]

theorem flags_skeleton (h : i.SameShape ρ j) :
    (ofInterface i).flags.map FlagEntry.skeleton = (ofInterface j).flags.map FlagEntry.skeleton := by
  have hi : keepFirst FlagEntry.literal [] ((declarations i.options).map (renameEntry ρ)) =
      (ofInterface i).flags.map (renameEntry ρ) :=
    keepFirst_map FlagEntry.literal (renameEntry ρ) ρ (· ∈ i.flags) (fun _ => rfl)
      (fun a b ha hb => h.injective a ha b hb) [] (by simp) _ fun _ => literal_mem_of_mem_declarations
  have hj : keepFirst FlagEntry.literal [] ((declarations j.options).map (renameEntry id)) =
      (ofInterface j).flags.map (renameEntry id) :=
    keepFirst_map_of_key_eq FlagEntry.literal (renameEntry id) (fun _ => rfl) _
  rw [← map_renameEntry_declarations h.options, hi] at hj
  have := congrArg (List.map FlagEntry.skeleton) hj
  simpa [Function.comp_def, skeleton_renameEntry] using this

/-- The order of slots, in which nothing counts but their indices. -/
def inOrder (slots : List Slot) : List Slot :=
  (keepFirst Slot.number? [] (slots.filter (·.number?.isSome))).mergeSort Slot.before

theorem map_skeleton_inOrder (slots : List Slot) :
    (inOrder slots).map Slot.skeleton = inOrder (slots.map Slot.skeleton) := by
  have hf : (slots.map Slot.skeleton).filter (·.number?.isSome) =
      (slots.filter (·.number?.isSome)).map Slot.skeleton := List.filter_map
  rw [inOrder, inOrder, hf, keepFirst_map_of_key_eq Slot.number? Slot.skeleton fun _ => rfl]
  exact List.map_mergeSort fun _ _ _ _ => rfl

theorem map_skeleton_catchAll (slots : List Slot) :
    (slots.find? (·.number?.isNone)).map Slot.skeleton =
      (slots.map Slot.skeleton).find? (·.number?.isNone) := by
  rw [List.find?_map]
  rfl

/-- Plans of interfaces of one shape have the same skeleton. -/
theorem skeleton_eq (h : i.SameShape ρ j) : (ofInterface i).skeleton = (ofInterface j).skeleton := by
  have ho : i.options.map OptionSpec.skeleton = j.options.map OptionSpec.skeleton :=
    map_eq_of_forall₂ h.options fun _ _ => SameShape.optionSpec
  have ha : i.slots.map SlotSpec.skeleton = j.slots.map SlotSpec.skeleton :=
    map_eq_of_forall₂ h.slots fun _ _ => SameShape.slotSpec
  have hs : (i.slots.mapIdx Slot.mk).map Slot.skeleton = (j.slots.mapIdx Slot.mk).map Slot.skeleton :=
    map_mapIdx_eq_of_forall₂ h.slots fun k _ _ hst => by simp [Slot.skeleton, SameShape.slotSpec hst]
  have he := map_skeleton_inOrder (i.slots.mapIdx Slot.mk)
  rw [hs, ← map_skeleton_inOrder] at he
  have hc := map_skeleton_catchAll (i.slots.mapIdx Slot.mk)
  rw [hs, ← map_skeleton_catchAll] at hc
  have hf := flags_skeleton h
  simp only [skeleton, ofInterface, Plan.mk.injEq, Interface.mk.injEq, true_and] at hf ⊢
  exact ⟨⟨h.doubleDash, ho, ha⟩, hf, hs, he, hc⟩

end Plan

end ShellCompletion
