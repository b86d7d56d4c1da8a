import Mathlib.Data.List.Nodup
import Mathlib.Data.List.Perm.Basic
import Mathlib.Order.Basic
import ShellCompletion.Plan

/-! The slots of a plan. The slots in order have strictly increasing positions, whatever the
interface; where no two slots of an interface have one index, the slots in order and the
catch-all are all slots, and none is dropped. -/
namespace ShellCompletion

section KeepFirst

variable {α β : Type} [BEq β] [LawfulBEq β] (key : α → β)

/-- No key is kept twice, and none that was seen before. -/
theorem nodup_map_keepFirst (seen : List β) (xs : List α) :
    ((keepFirst key seen xs).map key).Nodup ∧ ∀ x ∈ keepFirst key seen xs, key x ∉ seen := by
  induction xs generalizing seen with
  | nil => simp [keepFirst]
  | cons x xs ih =>
    rw [keepFirst]
    split
    · exact ih seen
    · rename_i hx
      obtain ⟨hn, hs⟩ := ih (key x :: seen)
      have hk : key x ∉ (keepFirst key (key x :: seen) xs).map key := by
        rw [List.mem_map]
        rintro ⟨y, hy, he⟩
        exact hs y hy (by simp [he])
      refine ⟨List.nodup_cons.2 ⟨hk, hn⟩, ?_⟩
      rw [List.forall_mem_cons]
      refine ⟨by simpa using hx, fun y hy => ?_⟩
      have := hs y hy
      simp only [List.mem_cons, not_or] at this
      exact this.2

/-- Where no key is met again, all is kept. -/
theorem keepFirst_of_nodup (seen : List β) (xs : List α) (hn : (xs.map key).Nodup)
    (hs : ∀ x ∈ xs, key x ∉ seen) : keepFirst key seen xs = xs := by
  induction xs generalizing seen with
  | nil => rfl
  | cons x xs ih =>
    rw [List.map_cons, List.nodup_cons] at hn
    rw [List.forall_mem_cons] at hs
    have hx : seen.contains (key x) = false := by simpa using hs.1
    rw [keepFirst, hx, if_neg Bool.false_ne_true]
    congr 1
    refine ih _ hn.2 fun y hy => ?_
    rw [List.mem_cons, not_or]
    exact ⟨fun he => hn.1 (List.mem_map.2 ⟨y, hy, he⟩), hs.2 y hy⟩

end KeepFirst

namespace Slot

theorem number?_eq_some_iff (s : Slot) (n : Int) : s.number? = some n ↔ s.spec.index = .number n := by
  cases h : s.spec.index <;> simp [number?, h]

theorem number?_eq_none_iff (s : Slot) : s.number? = none ↔ s.spec.index = .all := by
  cases h : s.spec.index <;> simp [number?, h]

theorem before_trans (r s t : Slot) (h : r.before s) (h' : s.before t) : r.before t := by
  simp only [before, decide_eq_true_eq] at h h' ⊢
  omega

theorem before_total (s t : Slot) : s.before t || t.before s := by
  simp only [before, Bool.or_eq_true, decide_eq_true_eq]
  omega

end Slot

namespace Plan

variable (i : Interface)

theorem map_index_slots : (ofInterface i).slots.map (·.spec.index) = i.slots.map (·.index) := by
  apply List.ext_getElem?
  intro k
  simp only [ofInterface, List.getElem?_map, List.getElem?_mapIdx, Option.map_map]
  rfl

theorem spec_mem_of_mem_slots {s : Slot} (h : s ∈ (ofInterface i).slots) : s.spec ∈ i.slots := by
  simp only [ofInterface, List.mem_mapIdx] at h
  obtain ⟨k, hk, rfl⟩ := h
  exact List.getElem_mem hk

/-- The slots in order are those that are kept of the slots with an index. -/
theorem explicitOrder_perm : (ofInterface i).explicitOrder.Perm
    (keepFirst Slot.number? [] ((ofInterface i).slots.filter (·.number?.isSome))) :=
  List.mergeSort_perm _ _

theorem mem_slots_of_mem_explicitOrder {s : Slot} (h : s ∈ (ofInterface i).explicitOrder) :
    s ∈ (ofInterface i).slots := by
  have hk := (explicitOrder_perm i).mem_iff.1 h
  exact (List.mem_filter.1 ((keepFirst_sublist _ _ _).mem hk)).1

theorem isSome_number?_of_mem {s : Slot} (h : s ∈ (ofInterface i).explicitOrder) :
    s.number?.isSome = true := by
  have hk := (explicitOrder_perm i).mem_iff.1 h
  exact (List.mem_filter.1 ((keepFirst_sublist _ _ _).mem hk)).2

/-- The positions of the slots in order. -/
def positions : List Int := (ofInterface i).explicitOrder.map fun s => s.number?.getD 0

theorem map_index_explicitOrder :
    (ofInterface i).explicitOrder.map (·.spec.index) = (positions i).map .number := by
  rw [positions, List.map_map]
  refine List.map_congr_left fun s hs => ?_
  obtain ⟨n, hn⟩ := Option.isSome_iff_exists.1 (isSome_number?_of_mem i hs)
  rw [(s.number?_eq_some_iff n).1 hn, Function.comp_apply, hn, Option.getD_some]

/-- The slots in order have strictly increasing positions. -/
theorem positions_increasing : (positions i).Pairwise (· < ·) := by
  have hs : (ofInterface i).explicitOrder.Pairwise fun s t => s.before t :=
    List.pairwise_mergeSort Slot.before_trans Slot.before_total _
  have hn : ((ofInterface i).explicitOrder.map Slot.number?).Nodup :=
    ((explicitOrder_perm i).map _).nodup_iff.2 (nodup_map_keepFirst Slot.number? [] _).1
  rw [positions, List.pairwise_map]
  have hd := List.pairwise_map.1 hn
  refine List.Pairwise.imp_of_mem ?_ (hs.and hd)
  intro s t hs ht ⟨hb, hne⟩
  obtain ⟨m, hm⟩ := Option.isSome_iff_exists.1 (isSome_number?_of_mem i hs)
  obtain ⟨n, hn⟩ := Option.isSome_iff_exists.1 (isSome_number?_of_mem i ht)
  simp only [Slot.before, hm, hn, Option.getD_some, decide_eq_true_eq, ne_eq,
    Option.some.injEq] at hb hne ⊢
  omega

/-- A position is the index of a slot of the interface. -/
theorem exists_of_mem_positions {n : Int} (h : n ∈ positions i) :
    ∃ s ∈ i.slots, s.index = .number n := by
  have hm : SlotIndex.number n ∈ (ofInterface i).explicitOrder.map (·.spec.index) := by
    rw [map_index_explicitOrder]
    exact List.mem_map_of_mem h
  obtain ⟨s, hs, hn⟩ := List.mem_map.1 hm
  exact ⟨s.spec, spec_mem_of_mem_slots i (mem_slots_of_mem_explicitOrder i hs), hn⟩

variable {i} (h : (i.slots.map (·.index)).Nodup)
include h

theorem nodup_index_slots : ((ofInterface i).slots.map (·.spec.index)).Nodup := by
  rwa [map_index_slots]

/-- Of different indices each is kept. -/
theorem explicitOrder_perm_filter :
    (ofInterface i).explicitOrder.Perm ((ofInterface i).slots.filter (·.number?.isSome)) := by
  have hk : (((ofInterface i).slots.filter (·.number?.isSome)).map Slot.number?).Nodup := by
    refine List.Nodup.map_on ?_ ((nodup_index_slots h).of_map.filter _)
    intro s hs t ht he
    rw [List.mem_filter] at hs ht
    obtain ⟨n, hn⟩ := Option.isSome_iff_exists.1 hs.2
    refine List.inj_on_of_nodup_map (nodup_index_slots h) hs.1 ht.1 ?_
    rw [(s.number?_eq_some_iff n).1 hn, (t.number?_eq_some_iff n).1 (he ▸ hn)]
  have hp := explicitOrder_perm i
  rwa [keepFirst_of_nodup Slot.number? [] _ hk fun _ _ => List.not_mem_nil] at hp

/-- A slot without a position is the catch-all. -/
theorem catchAll_eq_some_iff (s : Slot) :
    (ofInterface i).catchAll = some s ↔ s ∈ (ofInterface i).slots ∧ s.spec.index = .all := by
  have hc : (ofInterface i).catchAll = (ofInterface i).slots.find? (·.number?.isNone) := rfl
  constructor
  · intro hs
    rw [hc] at hs
    have hn := List.find?_some hs
    exact ⟨List.mem_of_find?_eq_some hs, s.number?_eq_none_iff.1 (Option.isNone_iff_eq_none.1 hn)⟩
  · rintro ⟨hs, ha⟩
    have hn : s.number?.isNone = true := by rw [s.number?_eq_none_iff.2 ha]; rfl
    have he : ((ofInterface i).slots.find? (·.number?.isNone)).isSome = true :=
      List.find?_isSome.2 ⟨s, hs, hn⟩
    obtain ⟨t, ht⟩ := Option.isSome_iff_exists.1 he
    have hnt : t.number?.isNone = true := by simpa using List.find?_some ht
    have hta := t.number?_eq_none_iff.1 (Option.isNone_iff_eq_none.1 hnt)
    have hts : t = s :=
      List.inj_on_of_nodup_map (nodup_index_slots h) (List.mem_of_find?_eq_some ht) hs (hta.trans ha.symm)
    rw [hc, ht, hts]

theorem toList_catchAll :
    (ofInterface i).catchAll.toList.Perm ((ofInterface i).slots.filter (·.number?.isNone)) := by
  refine (List.perm_ext_iff_of_nodup ?_ ((nodup_index_slots h).of_map.filter _)).2 fun s => ?_
  · cases (ofInterface i).catchAll <;> simp
  · rw [Option.mem_toList, catchAll_eq_some_iff h, List.mem_filter, Option.isNone_iff_eq_none,
      s.number?_eq_none_iff]

/-- No slot is dropped. -/
theorem explicitOrder_append_catchAll_perm :
    ((ofInterface i).explicitOrder ++ (ofInterface i).catchAll.toList).Perm (ofInterface i).slots := by
  have hf := List.filter_append_perm (fun s : Slot => s.number?.isSome) (ofInterface i).slots
  simp only [Option.not_isSome] at hf
  exact ((explicitOrder_perm_filter h).append (toList_catchAll h)).trans hf

end Plan

end ShellCompletion
