import ShellCompletion.Proofs.Plan.Flags

/-! The order of the slots of a plan. Of every interface, whatever indices its slots have, a
slot is in the order just when it has an index that no slot before it has, the indices in order
are strictly increasing, and the first slot without an index is the catch-all. So where no two
slots have one index, it does not count in which order they are declared. -/
namespace ShellCompletion

/-- Of each key that is not yet seen, the first element is kept. -/
theorem mem_keepFirst_iff {α β : Type} [BEq β] [LawfulBEq β] (key : α → β) {seen : List β}
    {xs : List α} {x : α} : x ∈ keepFirst key seen xs ↔
      key x ∉ seen ∧ xs.find? (fun y => key y == key x) = some x := by
  refine ⟨fun h => ⟨(nodup_map_keepFirst key seen xs).2 x h, find?_of_mem_keepFirst key h⟩, ?_⟩
  rintro ⟨hs, hf⟩
  induction xs generalizing seen with
  | nil => simp at hf
  | cons y ys ih =>
    rw [keepFirst]
    by_cases he : key y = key x
    · -- the first element of the key is the head, whose key is not seen
      rw [List.find?_cons_of_pos (by simp [he]), Option.some.injEq] at hf
      subst hf
      rw [if_neg (by simpa using hs)]
      exact List.mem_cons_self
    · rw [List.find?_cons_of_neg (by simp [he])] at hf
      split
      · exact ih hs hf
      · refine List.mem_cons_of_mem y (ih ?_ hf)
        rw [List.mem_cons, not_or]
        exact ⟨Ne.symm he, hs⟩

namespace Slot

theorem number?_isSome (s : Slot) : s.number?.isSome = !s.spec.isCatchAll := by
  cases h : s.spec.index <;> simp [number?, SlotSpec.isCatchAll, h]

theorem number?_isNone (s : Slot) : s.number?.isNone = s.spec.isCatchAll := by
  rw [← Option.not_isSome, number?_isSome, Bool.not_not]

/-- Slots have one position just when they have one index. -/
theorem number?_eq_iff (s t : Slot) : s.number? = t.number? ↔ s.spec.index = t.spec.index := by
  cases hs : s.spec.index <;> cases ht : t.spec.index <;> simp [number?, hs, ht]

end Slot

namespace Plan

variable (i : Interface)

theorem getElem?_slots (k : Nat) : (ofInterface i).slots[k]? = i.slots[k]?.map (Slot.mk k) := by
  simp [ofInterface]

theorem mem_slots_iff (s : Slot) :
    s ∈ (ofInterface i).slots ↔ i.slots[s.ordinal]? = some s.spec := by
  rw [List.mem_iff_getElem?]
  simp only [getElem?_slots, Option.map_eq_some_iff]
  constructor
  · rintro ⟨k, a, ha, rfl⟩
    exact ha
  · exact fun h => ⟨s.ordinal, s.spec, h, rfl⟩

theorem map_spec_slots : (ofInterface i).slots.map (·.spec) = i.slots := by
  apply List.ext_getElem?
  intro k
  rw [List.getElem?_map, getElem?_slots, Option.map_map]
  exact Option.map_id'

theorem map_spec_filter (q : SlotSpec → Bool) :
    ((ofInterface i).slots.filter fun s => q s.spec).map (·.spec) = i.slots.filter q := by
  have hf := List.filter_map (p := q) (f := Slot.spec) (l := (ofInterface i).slots)
  rw [map_spec_slots] at hf
  exact hf.symm

/-- The first slot that passes a test. -/
theorem find?_slots_eq_some_iff (q : Slot → Bool) (s : Slot) :
    (ofInterface i).slots.find? q = some s ↔
      q s = true ∧ i.slots[s.ordinal]? = some s.spec ∧
        ∀ k < s.ordinal, ∀ a, i.slots[k]? = some a → q ⟨k, a⟩ = false := by
  rw [List.find?_eq_some_iff_getElem]
  constructor
  · rintro ⟨hq, n, hn, hs, hb⟩
    have ho := getElem?_slots i n
    rw [List.getElem?_eq_getElem hn, hs] at ho
    obtain ⟨a, ha, rfl⟩ := Option.map_eq_some_iff.1 ho.symm
    refine ⟨hq, ha, fun k hk b hkb => ?_⟩
    have hkn := getElem?_slots i k
    rw [hkb, Option.map_some] at hkn
    obtain ⟨hlt, hkb⟩ := List.getElem?_eq_some_iff.1 hkn
    simpa [hkb] using hb k hk
  · rintro ⟨hq, ha, hb⟩
    have hs := getElem?_slots i s.ordinal
    rw [ha, Option.map_some] at hs
    obtain ⟨hn, hs⟩ := List.getElem?_eq_some_iff.1 hs
    refine ⟨hq, s.ordinal, hn, hs, fun k hk => ?_⟩
    have hkn := getElem?_slots i k
    rw [List.getElem?_eq_getElem (Nat.lt_trans hk hn)] at hkn
    obtain ⟨a, ha, he⟩ := Option.map_eq_some_iff.1 hkn.symm
    rw [← he, hb k hk a ha]
    rfl

/-- The slots in order are the first ones of their indices. -/
theorem mem_explicitOrder_iff (s : Slot) : s ∈ (ofInterface i).explicitOrder ↔
    s.spec.isCatchAll = false ∧ i.slots[s.ordinal]? = some s.spec ∧
      ∀ k < s.ordinal, ∀ a, i.slots[k]? = some a → a.index ≠ s.spec.index := by
  have hf : ((ofInterface i).slots.filter (·.number?.isSome)).find?
        (fun t => t.number? == s.number?) = some s ↔
      s.spec.isCatchAll = false ∧
        (ofInterface i).slots.find? (fun t => t.number? == s.number?) = some s := by
    cases hs : s.spec.isCatchAll with
    | true =>
      -- what has no index is not among the slots that have one
      have hn := s.number?_isSome
      rw [hs, Bool.not_true] at hn
      refine iff_of_false (fun h => ?_) (by simp)
      have hm := (List.mem_filter.1 (List.mem_of_find?_eq_some h)).2
      rw [hn] at hm
      exact Bool.false_ne_true hm
    | false =>
      have hn := s.number?_isSome
      rw [hs, Bool.not_false] at hn
      have hp : (fun t : Slot =>
          decide (t.number?.isSome = true ∧ (t.number? == s.number?) = true)) =
          fun t => t.number? == s.number? := by
        funext t
        by_cases he : t.number? = s.number? <;> simp [he, hn]
      rw [List.find?_filter, hp]
      exact (and_iff_right rfl).symm
  rw [(explicitOrder_perm i).mem_iff, mem_keepFirst_iff, and_iff_right List.not_mem_nil, hf,
    find?_slots_eq_some_iff, and_iff_right (beq_self_eq_true _)]
  simp [beq_eq_false_iff_ne, Slot.number?_eq_iff]

theorem catchAll_eq_find? : (ofInterface i).catchAll =
    (ofInterface i).slots.find? (·.spec.isCatchAll) := by
  simp only [← Slot.number?_isNone]
  rfl

/-- The indices of the slots in order increase. -/
theorem explicitOrder_increasing : (ofInterface i).explicitOrder.Pairwise fun s t =>
    ∃ m n, s.spec.index = .number m ∧ t.spec.index = .number n ∧ m < n := by
  refine List.Pairwise.imp_of_mem ?_ (List.pairwise_map.1 (positions_increasing i))
  intro s t hs ht hlt
  obtain ⟨m, hm⟩ := Option.isSome_iff_exists.1 (isSome_number?_of_mem i hs)
  obtain ⟨n, hn⟩ := Option.isSome_iff_exists.1 (isSome_number?_of_mem i ht)
  rw [hm, hn] at hlt
  exact ⟨m, n, (s.number?_eq_some_iff m).1 hm, (t.number?_eq_some_iff n).1 hn, hlt⟩

section Permuted

variable {i} {j : Interface} (hp : i.slots.Perm j.slots) (hn : (i.slots.map (·.index)).Nodup)
include hp hn

/-- Slots of different indices come into one order, however they are declared. -/
theorem map_spec_explicitOrder_eq :
    (ofInterface i).explicitOrder.map (·.spec) = (ofInterface j).explicitOrder.map (·.spec) := by
  have hperm {i : Interface} (h : (i.slots.map (·.index)).Nodup) :
      ((ofInterface i).explicitOrder.map (·.spec)).Perm (i.slots.filter fun a => !a.isCatchAll) := by
    have hs := (explicitOrder_perm_filter h).map (·.spec)
    simp only [Slot.number?_isSome] at hs
    rwa [map_spec_filter i fun a => !a.isCatchAll] at hs
  have hsorted (i : Interface) : ((ofInterface i).explicitOrder.map (·.spec)).Pairwise fun a b =>
      ∃ m n, a.index = .number m ∧ b.index = .number n ∧ m < n :=
    List.pairwise_map.2 (explicitOrder_increasing i)
  have hm := (hp.map (·.index)).nodup_iff.1 hn
  refine ((hperm hn).trans ((hp.filter _).trans (hperm hm).symm)).eq_of_pairwise ?_
    (hsorted i) (hsorted j)
  rintro a b _ _ ⟨m, n, ha, hb, hlt⟩ ⟨n', m', hb', ha', hlt'⟩
  rw [ha] at ha'
  rw [hb] at hb'
  cases ha'
  cases hb'
  omega

/-- A catch-all that is alone is found wherever it is declared. -/
theorem map_spec_catchAll_eq :
    (ofInterface i).catchAll.map (·.spec) = (ofInterface j).catchAll.map (·.spec) := by
  have hperm {i : Interface} (h : (i.slots.map (·.index)).Nodup) :
      ((ofInterface i).catchAll.map (·.spec)).toList.Perm (i.slots.filter (·.isCatchAll)) := by
    have hs := (toList_catchAll h).map (·.spec)
    simp only [Slot.number?_isNone] at hs
    rwa [map_spec_filter i SlotSpec.isCatchAll, ← Option.toList_map] at hs
  have hm := (hp.map (·.index)).nodup_iff.1 hn
  have ht := (hperm hn).trans ((hp.filter _).trans (hperm hm).symm)
  generalize (ofInterface i).catchAll.map (·.spec) = o at ht ⊢
  generalize (ofInterface j).catchAll.map (·.spec) = o' at ht ⊢
  cases o <;> cases o' <;> simp_all

end Permuted

/-- What becomes of the slots of an interface. Each has its place in the declaration; those in
order are the first ones of their indices, and the indices increase; the catch-all is the first
slot that has none. Slots of different indices may be declared in any order. -/
theorem slots_resolved :
    (∀ k, (ofInterface i).slots[k]? = i.slots[k]?.map (Slot.mk k)) ∧
      ((ofInterface i).explicitOrder.Pairwise fun s t =>
        ∃ m n, s.spec.index = .number m ∧ t.spec.index = .number n ∧ m < n) ∧
      (∀ s, s ∈ (ofInterface i).explicitOrder ↔
        s.spec.isCatchAll = false ∧ s ∈ (ofInterface i).slots ∧
          ∀ k < s.ordinal, ∀ a, i.slots[k]? = some a → a.index ≠ s.spec.index) ∧
      (∀ s, (ofInterface i).catchAll = some s ↔
        s.spec.isCatchAll = true ∧ s ∈ (ofInterface i).slots ∧
          ∀ t ∈ (ofInterface i).slots, t.spec.isCatchAll = true → s.ordinal ≤ t.ordinal) ∧
      ((ofInterface i).catchAll = none ↔ ∀ a ∈ i.slots, a.isCatchAll = false) ∧
      ∀ j : Interface, i.slots.Perm j.slots → (i.slots.map (·.index)).Nodup →
        (ofInterface i).explicitOrder.map (·.spec) = (ofInterface j).explicitOrder.map (·.spec) ∧
          (ofInterface i).catchAll.map (·.spec) = (ofInterface j).catchAll.map (·.spec) := by
  refine ⟨getElem?_slots i, explicitOrder_increasing i, fun s => ?_, fun s => ?_, ?_,
    fun j hp hn => ⟨map_spec_explicitOrder_eq hp hn, map_spec_catchAll_eq hp hn⟩⟩
  · rw [mem_explicitOrder_iff, mem_slots_iff]
  · rw [catchAll_eq_find?, find?_slots_eq_some_iff, mem_slots_iff]
    refine and_congr_right fun _ => and_congr_right fun _ =>
      ⟨fun h t ht ha => ?_, fun h k hk a ha => ?_⟩
    · -- an earlier one would be a slot without an index before the first
      by_contra hlt
      have hf := h t.ordinal (Nat.lt_of_not_le hlt) t.spec ((mem_slots_iff i t).1 ht)
      rw [ha] at hf
      exact Bool.false_ne_true hf.symm
    · have ht := h ⟨k, a⟩ ((mem_slots_iff i _).2 ha)
      rw [← Bool.not_eq_true]
      exact fun hc => Nat.not_le_of_lt hk (ht hc)
  · rw [catchAll_eq_find?, List.find?_eq_none, ← map_spec_slots i]
    simp

/-- Three slots declared in two orders, one with an index below zero; and five slots, in which
that index comes twice. -/
theorem slots_resolved_permuted :
    let low : SlotSpec := { index := .number (-1), name := "low" }
    let rest : SlotSpec := { index := .all }
    let high : SlotSpec := { index := .number 7 }
    let i : Interface := { name := "demo", slots := [high, rest, low] }
    let j : Interface := { name := "demo", slots := [low, high, rest] }
    let twice : Interface :=
      { name := "demo", slots := [high, low, rest, { low with name := "" }, rest] }
    (ofInterface i).explicitOrder.map (·.spec) = (ofInterface j).explicitOrder.map (·.spec) ∧
      (ofInterface i).catchAll = some ⟨1, rest⟩ ∧ (ofInterface j).catchAll = some ⟨2, rest⟩ ∧
      ⟨1, low⟩ ∈ (ofInterface twice).explicitOrder ∧
      ⟨3, { low with name := "" }⟩ ∉ (ofInterface twice).explicitOrder := by
  intro low rest high i j twice
  obtain ⟨_, _, hk, _⟩ := slots_resolved twice
  have hp : i.slots.Perm j.slots := by decide
  refine ⟨((slots_resolved i).2.2.2.2.2 j hp (by decide)).1, by decide, by decide, ?_, ?_⟩
  · refine (hk _).2 ⟨rfl, by decide, fun k hlt a ha => ?_⟩
    obtain rfl : k = 0 := Nat.lt_one_iff.1 hlt
    cases ha
    decide
  · exact fun h => ((hk _).1 h).2.2 1 (by decide) low rfl rfl

end Plan

end ShellCompletion
