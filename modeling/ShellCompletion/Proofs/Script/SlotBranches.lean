import ShellCompletion.Proofs.Interface.WellFormed
import ShellCompletion.Proofs.Plan.Slots
import ShellCompletion.Proofs.Text.Numeral
import ShellCompletion.Script.Sections

/-! The branches for positional arguments. Each branch has the label of one slot, and where
no two slots have one index, each slot with a source has one branch. The main statement says
this of every accepted document: no argument of it is dropped on the way to the script. -/
namespace ShellCompletion

/-- The label of a slot in the case statement over slots. -/
def Slot.caseLabel (s : Slot) : String :=
  match s.spec.index with
  | .number _ => toString s.ordinal
  | .all => "all"

theorem toString_ne_all (n : Nat) : toString n ≠ "all" :=
  Text.toString_ne (c := 'a') (by decide) (by decide) n

namespace Script

open Shell

variable {i : Interface}

/-- The branch of a slot, if the slot has a source. -/
def branchOf? (s : Slot) : Option Branch := slotBranch? s.caseLabel s

theorem branchOf?_eq_some_iff (s : Slot) (b : Branch) : branchOf? s = some b ↔
    ∃ c, s.spec.source = some c ∧
      b = { pattern := [.code s.caseLabel], note := s.label, body := sourceLines (some c) } := by
  rw [branchOf?, slotBranch?, Option.map_eq_some_iff]
  simp only [eq_comm]

theorem slotBranches_eq (hn : (i.slots.map (·.index)).Nodup) : slotBranches (.ofInterface i) =
    ((Plan.ofInterface i).explicitOrder ++ (Plan.ofInterface i).catchAll.toList).filterMap
      branchOf? := by
  rw [slotBranches, List.filterMap_append]
  congr 1
  · refine List.filterMap_congr fun s hs => ?_
    obtain ⟨n, hn⟩ := Option.isSome_iff_exists.1 (Plan.isSome_number?_of_mem i hs)
    rw [branchOf?, Slot.caseLabel, (s.number?_eq_some_iff n).1 hn]
  · cases hc : (Plan.ofInterface i).catchAll with
    | none => rfl
    | some s =>
      have ha := ((Plan.catchAll_eq_some_iff hn s).1 hc).2
      have hb : slotBranch? "all" s = branchOf? s := by rw [branchOf?, Slot.caseLabel, ha]
      rw [Option.bind_some, hb, Option.toList_some]
      cases h : branchOf? s <;> simp [h]

theorem ordinal_injective {s t : Slot} (hs : s ∈ (Plan.ofInterface i).slots)
    (ht : t ∈ (Plan.ofInterface i).slots) (h : s.ordinal = t.ordinal) : s = t := by
  simp only [Plan.ofInterface, List.mem_mapIdx] at hs ht
  obtain ⟨k, hk, rfl⟩ := hs
  obtain ⟨l, hl, rfl⟩ := ht
  cases h
  rfl

/-- Different slots have different labels, for only one takes all that remain. -/
theorem caseLabel_injective (hn : (i.slots.map (·.index)).Nodup) {s t : Slot}
    (hs : s ∈ (Plan.ofInterface i).slots) (ht : t ∈ (Plan.ofInterface i).slots)
    (h : s.caseLabel = t.caseLabel) : s = t := by
  unfold Slot.caseLabel at h
  cases hsi : s.spec.index with
  | number m =>
    cases hti : t.spec.index with
    | number n =>
      simp only [hsi, hti] at h
      exact ordinal_injective hs ht (Text.toString_injective h)
    | all =>
      simp only [hsi, hti] at h
      exact absurd h (toString_ne_all _)
  | all =>
    cases hti : t.spec.index with
    | number n =>
      simp only [hsi, hti] at h
      exact absurd h.symm (toString_ne_all _)
    | all =>
      have hc := (Plan.catchAll_eq_some_iff hn s).2 ⟨hs, hsi⟩
      rw [(Plan.catchAll_eq_some_iff hn t).2 ⟨ht, hti⟩] at hc
      exact (Option.some.inj hc).symm

/-- Of what is made of the elements of a list, a test that knows one element apart finds what
is made of that one. -/
theorem filter_filterMap_of_nodup {α β : Type} [DecidableEq α] {xs : List α} {x : α}
    {f : α → Option β} {q : β → Bool} (hn : xs.Nodup) (hx : x ∈ xs)
    (hq : ∀ y ∈ xs, ∀ b, f y = some b → (q b = true ↔ y = x)) :
    (xs.filterMap f).filter q = (f x).toList := by
  have hf : ∀ y ∈ xs, (f y).filter q = if decide (y = x) = true then f y else none := by
    intro y hy
    cases hb : f y with
    | none => simp
    | some b => simp [Option.filter, hq y hy b hb]
  have hc : xs.count x = 1 := List.count_eq_one_of_mem hn hx
  rw [List.filter_filterMap, List.filterMap_congr hf, ← List.filterMap_filter, List.filter_eq, hc]
  cases h : f x <;> simp [h]

/-- The one branch with the label of a slot is that of the slot. -/
theorem filter_slotBranches (hn : (i.slots.map (·.index)).Nodup) {s : Slot}
    (hs : s ∈ (Plan.ofInterface i).slots) :
    (slotBranches (.ofInterface i)).filter (·.pattern = [.code s.caseLabel]) =
      (branchOf? s).toList := by
  have hl : ∀ t ∈ (Plan.ofInterface i).slots, ∀ b, branchOf? t = some b →
      (decide (b.pattern = [.code s.caseLabel]) = true ↔ t = s) := by
    intro t ht b hb
    obtain ⟨c, _, rfl⟩ := (branchOf?_eq_some_iff t b).1 hb
    simp only [List.cons.injEq, Piece.code.injEq, and_true, decide_eq_true_eq]
    exact ⟨caseLabel_injective hn ht hs, fun h => h ▸ rfl⟩
  have hp : (slotBranches (.ofInterface i)).Perm
      ((Plan.ofInterface i).slots.filterMap branchOf?) := by
    rw [slotBranches_eq hn]
    exact (Plan.explicitOrder_append_catchAll_perm hn).filterMap _
  have hf := hp.filter (·.pattern = [.code s.caseLabel])
  rw [filter_filterMap_of_nodup (Plan.nodup_index_slots hn).of_map hs hl] at hf
  -- at most one branch is left, so that the order does not count
  cases h : branchOf? s with
  | none =>
    rw [h] at hf
    exact hf.eq_nil
  | some b =>
    rw [h] at hf
    exact List.perm_singleton.1 hf

/-- There is a case statement over slots as soon as there is a slot. -/
theorem slotMode_mem_modeBranches {p : Plan} (h : p.interface.slots ≠ []) :
    { pattern := [.code "arg"], body := caseLines "$arg_slot" (slotBranches p) } ∈ modeBranches p := by
  refine List.mem_append_right _ ?_
  rw [List.isEmpty_eq_false_iff.2 h, if_neg Bool.false_ne_true]
  exact List.mem_singleton_self _

/-- An argument that takes all the arguments that remain: it says so, or has no index. -/
def TakesRest (arg : Document.Value) : Prop :=
  (Reading.entries arg).get "index" = .null ∨ (Reading.entries arg).get "index" = .str "all"

theorem index_slotSpec_eq_all_iff {arg : Document.Value} (h : Grammar.MapOf Grammar.SlotEntries arg) :
    (Reading.slotSpec arg).index = .all ↔ TakesRest arg := by
  obtain ⟨es, rfl, hs⟩ := h
  rcases hs.index with hv | hv | ⟨n, hv, _⟩ <;>
    simp [TakesRest, Reading.slotSpec, Reading.entries, Reading.slotIndex, hv]

theorem mapOf_slotEntries_of_mem {es : Document.Entries} (h : Grammar.InterfaceEntries es)
    {arg : Document.Value} (ha : arg ∈ Reading.elements (es.get "args")) :
    Grammar.MapOf Grammar.SlotEntries arg := by
  rcases h.slots with hv | ⟨xs, hv, hx, _⟩
  · simp [hv, Reading.elements] at ha
  · rw [hv] at ha
    exact hx arg ha

/-- The slots of a plan are those that the arguments of a document describe, in order. -/
theorem forall₂_slots (es : Document.Entries) :
    List.Forall₂ (fun arg s => (arg ∈ Reading.elements (es.get "args") ∧
        s ∈ (Plan.ofInterface (Reading.interface es)).slots) ∧ s.spec = Reading.slotSpec arg)
      (Reading.elements (es.get "args")) (Plan.ofInterface (Reading.interface es)).slots := by
  refine List.forall₂_iff_get.2 ⟨?_, fun k hk hk' => ⟨⟨List.get_mem .., List.get_mem ..⟩, ?_⟩⟩
  · simp [Plan.ofInterface, Reading.interface]
  · simp [Plan.ofInterface, Reading.interface]

/-- No argument of an accepted document is dropped: the slots in order and the catch-all are
all slots, the slots in order have increasing positions from one on, the catch-all is the slot
of the argument that takes the rest, and each slot with a source has one branch in the script. -/
theorem accepted_slots_kept {v : Document.Value} {i : Interface}
    (h : (Interface.validate v).1 = .accepted i) :
    let p := Plan.ofInterface i
    (p.explicitOrder ++ p.catchAll.toList).Perm p.slots ∧
      (∃ ns : List Int, p.explicitOrder.map (·.spec.index) = ns.map .number ∧
        ns.Pairwise (· < ·) ∧ ∀ n ∈ ns, 1 ≤ n) ∧
      (∃ es : Document.Entries, v = .map es ∧
        List.Forall₂ (fun arg s => s.spec = Reading.slotSpec arg ∧
            (p.catchAll = some s ↔ TakesRest arg))
          (Reading.elements (es.get "args")) p.slots) ∧
      ∀ s ∈ p.slots, ∀ c, s.spec.source = some c →
        { pattern := [.code "arg"], body := caseLines "$arg_slot" (slotBranches p) } ∈
            modeBranches p ∧
          (slotBranches p).filter (·.pattern = [.code s.caseLabel]) =
            [{ pattern := [.code s.caseLabel], note := s.label, body := sourceLines (some c) }] := by
  intro p
  obtain ⟨es, rfl, hg, rfl⟩ := (Interface.accepted_iff v i).1 h
  have hw := Reading.interface_wellFormed hg
  refine ⟨Plan.explicitOrder_append_catchAll_perm hw.distinct,
    ⟨_, Plan.map_index_explicitOrder _, Plan.positions_increasing _, fun n hn => ?_⟩,
    ⟨es, rfl, ?_⟩, fun s hs c hc => ⟨slotMode_mem_modeBranches ?_, ?_⟩⟩
  · obtain ⟨s, hs, hsn⟩ := Plan.exists_of_mem_positions _ hn
    exact (hw.slots s hs).position n hsn
  · refine (forall₂_slots es).imp fun arg s ⟨⟨ha, hs⟩, he⟩ => ⟨he, ?_⟩
    rw [Plan.catchAll_eq_some_iff hw.distinct, he,
      index_slotSpec_eq_all_iff (mapOf_slotEntries_of_mem hg ha)]
    exact and_iff_right hs
  · exact List.ne_nil_of_mem (Plan.spec_mem_of_mem_slots _ hs)
  · rw [filter_slotBranches hw.distinct hs, (branchOf?_eq_some_iff s _).2 ⟨c, hc, rfl⟩]
    rfl

/-- Two positions out of order, and an argument without one, which takes the rest. -/
theorem accepted_slots_kept_out_of_order :
    let document : Document.Value := .map [(.str "name", .str "demo"), (.str "args", .list [
      .map [(.str "index", .int 7), (.str "comp", .map [(.str "builtin", .str "files")])],
      .map [(.str "comp", .map [(.str "builtin", .str "directories")])],
      .map [(.str "index", .int 2)]])]
    let rest : SlotSpec := { index := .all, source := some (.builtin .directories) }
    let i : Interface := { name := "demo", slots := [
      { index := .number 7, source := some (.builtin .files) }, rest, { index := .number 2 }] }
    (Interface.validate document).1 = .accepted i ∧
      (Plan.ofInterface i).explicitOrder.map (·.ordinal) = [2, 0] ∧
      ((Plan.ofInterface i).explicitOrder ++ [Slot.mk 1 rest]).Perm (Plan.ofInterface i).slots ∧
      (slotBranches (.ofInterface i)).filter (·.pattern = [.code "all"]) =
        [{ pattern := [.code "all"], note := "remaining arguments",
           body := sourceLines (some (.builtin .directories)) }] := by
  intro document rest i
  have hv : (Interface.validate document).1 = .accepted i := by decide +kernel
  obtain ⟨hp, _, _, hb⟩ := accepted_slots_kept hv
  have ho : (Plan.ofInterface i).explicitOrder =
      [⟨2, { index := .number 2 }⟩, ⟨0, { index := .number 7, source := some (.builtin .files) }⟩] :=
    show [_, _].mergeSort Slot.before = _ by simp [List.mergeSort, Slot.before, Slot.number?]
  exact ⟨hv, by rw [ho]; rfl, hp, (hb ⟨1, rest⟩ (by decide) _ rfl).2⟩

end Script

end ShellCompletion
