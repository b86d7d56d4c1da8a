import ShellCompletion.Proofs.Script.Branches
import ShellCompletion.Proofs.Script.SlotBranches
import ShellCompletion.Proofs.Script.Tables

/-! The places in which a script refers to its slots. A slot has an ordinal by its place in the
declaration, an index, and a place in the order of the indices; a script refers to slots by their
ordinals alone. The main statement says that the arrays, the tests that lift slots and the branches
on the slot, as they are read from the text of the script, refer to the same slots. -/
namespace ShellCompletion.Script

open Shell

section

variable (i : Interface)

/-! ### Order -/

/-- The ordinals of the slots in order. -/
def order : List Nat := (Plan.ofInterface i).explicitOrder.map (·.ordinal)

theorem getElem?_of_mem_explicitOrder {s : Slot} (h : s ∈ (Plan.ofInterface i).explicitOrder) :
    i.slots[s.ordinal]? = some s.spec := ((Plan.mem_explicitOrder_iff i s).1 h).2.1

theorem order_increasing : (order i).Pairwise fun j k => ∃ a b m n, i.slots[j]? = some a ∧
    i.slots[k]? = some b ∧ a.index = .number m ∧ b.index = .number n ∧ m < n := by
  refine List.pairwise_map.2 ((Plan.explicitOrder_increasing i).imp_of_mem ?_)
  rintro s t hs ht ⟨m, n, h⟩
  exact ⟨s.spec, t.spec, m, n, getElem?_of_mem_explicitOrder i hs,
    getElem?_of_mem_explicitOrder i ht, h⟩

theorem nodup_order : (order i).Nodup := by
  refine (order_increasing i).imp ?_
  rintro j k ⟨a, b, m, n, ha, hb, hm, hn, hlt⟩ rfl
  rw [ha, Option.some.injEq] at hb
  rw [← hb, hm, SlotIndex.number.injEq] at hn
  exact absurd hlt (by omega)

theorem lt_of_mem_order {k : Nat} (h : k ∈ order i) : k < i.slots.length := by
  obtain ⟨s, hs, rfl⟩ := List.mem_map.1 h
  exact (List.getElem?_eq_some_iff.1 (getElem?_of_mem_explicitOrder i hs)).1

/-! ### Tests -/

/-- The test of a flag that lifts a slot, as it is read. -/
def liftTest (ordinal : Nat) (flag : String) : List Line := [
  { pieces := [.code "if $\x7bshort_opts_used[", .word flag, .code "]-false\x7d; then"] },
  .plain s!"args_required[{ordinal}]=false",
  .plain "fi"]

/-- All tests, slot by slot. -/
def liftTests : List Line :=
  (i.slots.mapIdx fun k a => (a.skipIf.getD []).flatMap (liftTest k)).flatten

theorem asRead_skipLines : asRead (skipLines (.ofInterface i)) = liftTests i := by
  have hs : (Plan.ofInterface i).slots = i.slots.mapIdx Slot.mk := rfl
  rw [skipLines, asRead_flatMap, liftTests, hs, List.flatMap_def, List.mapIdx_eq_zipIdx_map,
    List.mapIdx_eq_zipIdx_map, List.map_map]
  congr 1
  exact List.map_congr_left fun z _ => asRead_flatMap _ _

theorem empty_not_mem_liftMarks : "" ∉ liftMarks := by simp [liftMarks]

theorem liftMarks_subset : ∀ s ∈ liftMarks, s ∈ marks := fun _ => List.mem_append_right _

/-- Neither a flag nor a word of a declaration begins as a test does. -/
theorem startsWith_liftMarks {s : List Char} (h : [['i'], ['a']].all (apart · s) = true) (n : Nat)
    (t : String) (ps : List Piece) :
    (Line.mk n (.code (String.ofList s ++ t) :: ps)).startsWith liftMarks = false := by
  have hm : ∀ s ∈ liftMarks, ∃ t ∈ [['i'], ['a']], t <+: s.toList := by simp [liftMarks]
  exact Line.startsWith_code_append hm h n ps t

theorem landmarks_liftMarks_skipLines (p : Plan) :
    landmarks liftMarks (skipLines p) = testLines p :=
  landmarks_skipLines liftMarks (fun _ h => h)
    (startsWith_liftMarks (s := ['f', 'i']) rfl 0 "" []) p

/-- Of the lines of the tables none is a test. -/
theorem landmarks_liftMarks_markedLines (p : Plan) :
    landmarks liftMarks (markedLines p) = testLines p := by
  have he {table : List Char} (h : [['i'], ['a']].all (apart · table) = true)
      (value : FlagEntry → String) : landmarks liftMarks
        (p.flags.map fun e => entryLine (String.ofList table) e.literal (value e)) = [] :=
    landmarks_eq_nil (List.forall_mem_map.2 fun _ _ => startsWith_liftMarks h 0 "[" _)
  have hv : landmarks liftMarks (p.flags.map fun e =>
      entryLine "short_opts_requires_value" e.literal (boolWord e.takesValue)) = [] := he rfl _
  have hs (value : String) : landmarks liftMarks
      (p.flags.map fun e => entryLine "short_opts_used" e.literal value) = [] := he rfl _
  have ht : landmarks liftMarks (testLines p) = testLines p := by
    have hm := landmarks_skipLines marks liftMarks_subset (unmarked_code rfl 0 []) p
    rw [← hm, landmarks_landmarks liftMarks_subset, landmarks_liftMarks_skipLines, hm]
  have hf : (Line.plain ("local has_short_opts=" ++ boolWord p.hasFlags)).startsWith liftMarks =
      false := startsWith_liftMarks rfl 0 _ []
  have hr : (Line.plain ("local -a args_required=(" ++
      " ".intercalate (p.slots.map fun _ => "true") ++ ")")).startsWith liftMarks = false := by
    rw [String.append_assoc]
    exact startsWith_liftMarks rfl 0 _ []
  have ho : (Line.plain ("local -a explicit_slots=(" ++ ordinals p.explicitOrder ++ ")")).startsWith
      liftMarks = false := by
    rw [String.append_assoc]
    exact startsWith_liftMarks rfl 0 _ []
  simp only [markedLines, tableLines, landmarks_append, landmarks_cons, landmarks_nil, hv, hs, ht,
    hf, hr, ho]
  rfl

theorem landmarks_liftTests : landmarks liftMarks (liftTests i) = testLines (.ofInterface i) := by
  have h : ∀ l ∈ landmarks liftMarks (skipLines (.ofInterface i)), fuse l.pieces = l.pieces := by
    rw [landmarks_liftMarks_skipLines]
    simp only [testLines, List.forall_mem_flatMap, List.forall_mem_cons, List.not_mem_nil,
      false_implies, implies_true, and_true]
    exact fun _ _ => ⟨rfl, rfl⟩
  rw [← asRead_skipLines, landmarks_asRead empty_not_mem_liftMarks h, landmarks_liftMarks_skipLines]

/-- The tests stand between the scan and the assignment of slots. -/
theorem exists_readLines_eq : ∃ before after, readLines (text i) = before ++ liftTests i ++ after ∧
    [.plain "done", .plain "fi"] <:+ before ∧ [.plain "local arg_slot="] <+: after := by
  let p := Plan.ofInterface i
  obtain ⟨top, ht⟩ : ∃ top, lines i = top ++ indent 1 (bodyLines p) ++ [.plain "\x7d"] := ⟨_, rfl⟩
  obtain ⟨front, hf⟩ : ∃ front, bodyLines p = front ++ scanLines p ++ skipLines p ++ [.blank] ++
      slotLines ++ [.blank] ++ modeLines ++ [.blank] ++ candidateLines p := ⟨_, rfl⟩
  obtain ⟨scan, hs⟩ : ∃ scan, scanLines p = scan ++ [(Line.plain "done").deeper 1, .plain "fi"] :=
    ⟨_, rfl⟩
  have hl : asRead slotLines = .plain "local arg_slot=" :: asRead slotLines.tail := rfl
  refine ⟨asRead (top ++ front ++ scanLines p),
    asRead (slotLines ++ modeLines ++ candidateLines p ++ [.plain "\x7d"]), ?_, ?_, ?_⟩
  · rw [readLines_text, ht, hf, ← asRead_skipLines]
    simp [p]
  · rw [hs, ← List.append_assoc, asRead_append]
    exact List.suffix_append _ _
  · rw [asRead_append, asRead_append, asRead_append, hl]
    exact List.prefix_append _ _

/-- Where the tests stand, no other line before or after them begins as they do. -/
theorem startsWith_of_readLines_eq {before after : List Line}
    (h : readLines (text i) = before ++ liftTests i ++ after) :
    ∀ l ∈ before ++ after, l.startsWith liftMarks = false := by
  have hm : landmarks liftMarks (landmarks marks (readLines (text i))) =
      landmarks liftMarks (readLines (text i)) := landmarks_landmarks liftMarks_subset _
  rw [landmarks_readLines, landmarks_liftMarks_markedLines, h, landmarks_append,
    landmarks_append, landmarks_liftTests] at hm
  -- the tests are all landmarks already, so that nothing is left for the rest
  have hc := congrArg List.length hm
  have hn : landmarks liftMarks (before ++ after) = [] := by
    simp only [List.length_append] at hc
    rw [landmarks_append, List.append_eq_nil_iff, ← List.length_eq_zero_iff,
      ← List.length_eq_zero_iff]
    omega
  rw [landmarks, List.map_eq_nil_iff, List.filter_eq_nil_iff] at hn
  intro l hl
  simpa using hn l hl

/-! ### Branches -/

theorem slotPattern_injective {j k : Option Nat} (h : slotPattern j = slotPattern k) : j = k := by
  simp only [slotPattern, List.cons.injEq, Piece.code.injEq, and_true] at h
  cases j with
  | none =>
    cases k with
    | none => rfl
    | some n => exact absurd h.symm (toString_ne_all n)
  | some m =>
    cases k with
    | none => exact absurd h (toString_ne_all m)
    | some n => exact congrArg some (Text.toString_injective h)

theorem slotOffer?_eq_some_iff {key : Option Nat} {s : Slot} {offer : Offer (Option Nat)} :
    slotOffer? key s = some offer ↔
      ∃ c, s.spec.source = some c ∧ offer = { key, note := s.label, source := c } := by
  rw [slotOffer?, Option.map_eq_some_iff]
  simp only [eq_comm]

/-- No two offers are for one slot. -/
theorem nodup_key_slotOffers : ((slotOffers (.ofInterface i)).map (·.key)).Nodup := by
  rw [slotOffers, List.Nodup, List.pairwise_map, List.pairwise_append]
  refine ⟨?_, ?_, ?_⟩
  · refine List.pairwise_filterMap.2 ((List.pairwise_map.1 (nodup_order i)).imp ?_)
    intro s t hne o ho q hq
    obtain ⟨_, _, rfl⟩ := slotOffer?_eq_some_iff.1 ho
    obtain ⟨_, _, rfl⟩ := slotOffer?_eq_some_iff.1 hq
    simpa using hne
  · cases (Plan.ofInterface i).catchAll.bind (slotOffer? none) <;> simp
  · intro o ho q hq
    obtain ⟨s, _, ho⟩ := List.mem_filterMap.1 ho
    obtain ⟨t, _, hq⟩ := Option.bind_eq_some_iff.1 (Option.mem_toList.1 hq)
    obtain ⟨_, _, rfl⟩ := slotOffer?_eq_some_iff.1 ho
    obtain ⟨_, _, rfl⟩ := slotOffer?_eq_some_iff.1 hq
    simp

/-- What the branch with a label and a source is read as. -/
def sourceBranch (label : String) (c : Source) : Branch where
  pattern := [.code label]
  body := readLines (joined (sourceLines (some c)))

theorem inMode_arg_slot_eq : inMode "arg" "$arg_slot" (readLines (text i)) =
    (slotOffers (.ofInterface i)).map fun o => sourceBranch (o.key.elim "all" toString) o.source := by
  rw [inMode_arg_slot, slotBranches_eq_map, List.map_map]
  refine List.map_congr_left fun o _ => ?_
  rw [sourceBranch, readLines_joined (readable_sourceLines _)]
  rfl

/-- No two branches have one label. -/
theorem nodup_pattern_slotBranches :
    ((inMode "arg" "$arg_slot" (readLines (text i))).map (·.pattern)).Nodup := by
  have hm : (inMode "arg" "$arg_slot" (readLines (text i))).map (·.pattern) =
      ((slotOffers (.ofInterface i)).map (·.key)).map slotPattern := by
    rw [inMode_arg_slot_eq, List.map_map, List.map_map]
    rfl
  rw [hm]
  exact (nodup_key_slotOffers i).map fun _ _ => slotPattern_injective

theorem find?_isCatchAll :
    i.slots.find? (·.isCatchAll) = (Plan.ofInterface i).catchAll.map (·.spec) := by
  rw [Plan.catchAll_eq_find?, ← Plan.map_spec_slots i, List.find?_map]
  rfl

/-- The branches on the slot are those of the slots in order and of the first catch-all. -/
theorem mem_slotBranches_iff (b : Branch) :
    b ∈ inMode "arg" "$arg_slot" (readLines (text i)) ↔
      (∃ k ∈ order i, ∃ a c, i.slots[k]? = some a ∧ a.source = some c ∧
          b = sourceBranch (toString k) c) ∨
        ∃ a c, i.slots.find? (·.isCatchAll) = some a ∧ a.source = some c ∧
          b = sourceBranch "all" c := by
  rw [inMode_arg_slot_eq, find?_isCatchAll, List.mem_map]
  simp only [slotOffers, List.mem_append, List.mem_filterMap, Option.mem_toList,
    Option.bind_eq_some_iff, slotOffer?_eq_some_iff]
  constructor
  · rintro ⟨_, ⟨s, hs, c, hc, rfl⟩ | ⟨s, hs, c, hc, rfl⟩, rfl⟩
    · exact .inl ⟨s.ordinal, List.mem_map_of_mem hs, s.spec, c,
        getElem?_of_mem_explicitOrder i hs, hc, rfl⟩
    · exact .inr ⟨s.spec, c, by rw [hs]; rfl, hc, rfl⟩
  · rintro (⟨k, hk, a, c, ha, hc, rfl⟩ | ⟨a, c, ha, hc, rfl⟩)
    · obtain ⟨s, hs, rfl⟩ := List.mem_map.1 hk
      rw [getElem?_of_mem_explicitOrder i hs, Option.some.injEq] at ha
      exact ⟨_, .inl ⟨s, hs, c, ha ▸ hc, rfl⟩, rfl⟩
    · obtain ⟨s, hs, rfl⟩ := Option.map_eq_some_iff.1 ha
      exact ⟨_, .inr ⟨s, hs, c, hc, rfl⟩, rfl⟩

end

/-- The places in which a script refers to its slots agree. One array has an entry for each slot.
Another has ordinals of slots, no ordinal twice and in the order of the indices of their slots.
Between the scan and the assignment of slots stand the tests of flags that lift slots, slot by slot,
and nowhere else does a line begin as they do. The branches on the slot have different labels; they
are those of the ordinals in the second array and of the first catch-all, as far as these have
sources, each with the lines of the source of its slot. -/
theorem slotTables_agree (i : Interface) :
    let r := readLines (text i)
    let bs := inMode "arg" "$arg_slot" r
    (settings "local -a args_required=(" ")" r).map readWords =
        [some (List.replicate i.slots.length "true")] ∧
      (∃ before after, r = before ++ liftTests i ++ after ∧
        [.plain "done", .plain "fi"] <:+ before ∧ [.plain "local arg_slot="] <+: after ∧
        ∀ l ∈ before ++ after, l.startsWith liftMarks = false) ∧
      (bs.map (·.pattern)).Nodup ∧
      ∃ order : List Nat, (settings "local -a explicit_slots=(" ")" r).map readWords =
          [some (order.map toString)] ∧
        order.Nodup ∧ (∀ k ∈ order, k < i.slots.length) ∧
        (order.Pairwise fun j k => ∃ a b m n, i.slots[j]? = some a ∧ i.slots[k]? = some b ∧
          a.index = .number m ∧ b.index = .number n ∧ m < n) ∧
        ∀ b, b ∈ bs ↔
          (∃ k ∈ order, ∃ a c, i.slots[k]? = some a ∧ a.source = some c ∧
              b = sourceBranch (toString k) c) ∨
            ∃ a c, i.slots.find? (·.isCatchAll) = some a ∧ a.source = some c ∧
              b = sourceBranch "all" c := by
  intro r bs
  obtain ⟨before, after, hr, hb, ha⟩ := exists_readLines_eq i
  have ho : (settings "local -a explicit_slots=(" ")" r).map readWords =
      [some ((order i).map toString)] := by
    rw [settings_order, order, List.map_map]
    rfl
  exact ⟨settings_required i, ⟨before, after, hr, hb, ha, startsWith_of_readLines_eq i hr⟩,
    nodup_pattern_slotBranches i, order i, ho, nodup_order i, fun _ => lt_of_mem_order i,
    order_increasing i, mem_slotBranches_iff i⟩

end ShellCompletion.Script
