import Mathlib.Data.List.Nodup
import ShellCompletion.Proofs.Schema.Visits

/-! The order in which a check comes to mappings. The main statement says that a mapping comes
after those inside it, and that the check comes to none twice: what comes later is at another
place, and this is no place inside an earlier one. -/
namespace ShellCompletion.Schema

open Document

/-- The mapping is neither the other one nor inside it. -/
def Visit.Outside (n m : Visit) : Prop := ¬m.place <+: n.place

theorem prefix_of_mem_itemVisits {fields : List Field} {path : Path} {x : Value} {m : Visit}
    (h : m ∈ itemVisits fields path x) : path <+: m.place := by
  cases x with
  | map es => exact prefix_of_mem_visits h
  | _ => cases h

theorem prefix_of_mem_fieldVisits {f : Field} {path : Path} {v : Value} {m : Visit}
    (h : m ∈ f.visits path v) : path <+: m.place := by
  obtain ⟨name, type, required, choices, rule⟩ := f
  cases type with
  | one | oneOf | listOf => simp at h
  | listOfMaps fields =>
    cases v with
    | list xs =>
      rw [visits_listOfMaps, List.mem_flatten] at h
      obtain ⟨_, hl, h⟩ := h
      obtain ⟨i, hi, rfl⟩ := List.mem_mapIdx.1 hl
      exact (List.prefix_append path _).trans (prefix_of_mem_itemVisits h)
    | _ => simp [Field.visits] at h
  | mapOf fields =>
    cases v with
    | map es =>
      rw [visits_mapOf] at h
      exact prefix_of_mem_visits h
    | _ => simp [Field.visits] at h

/-- Mappings at or inside different places next to each other. -/
theorem outside_of_step_ne {path : Path} {s t : Step} (hst : s ≠ t) {m n : Visit}
    (hm : path ++ [s] <+: m.place) (hn : path ++ [t] <+: n.place) : n.Outside m := by
  intro h
  have hp := List.prefix_of_prefix_length_le (hm.trans h) hn (by simp)
  exact hst (by simpa using hp.eq_of_length (by simp))

/-- A mapping is not inside a mapping in it. -/
theorem visits_pairwise_of_visitsIn {fields : List Field} {path : Path} {es : Entries}
    (h : (visitsIn fields path es).Pairwise fun m n => n.Outside m) :
    (visits fields path es).Pairwise fun m n => n.Outside m := by
  rw [visits, List.pairwise_append]
  refine ⟨h, List.pairwise_singleton .., fun m hm n hn hp => ?_⟩
  obtain rfl := List.mem_singleton.1 hn
  rw [visitsIn_eq, List.mem_flatMap] at hm
  obtain ⟨f, _, hm⟩ := hm
  have hl := ((prefix_of_mem_fieldVisits hm).trans hp).length_le
  rw [Path.key, List.length_append] at hl
  exact absurd hl (Nat.not_succ_le_self _)

mutual

theorem fieldVisits_pairwise (f : Field) (hf : f.looksByName = true) (path : Path) (v : Value) :
    (f.visits path v).Pairwise fun m n => n.Outside m := by
  match f with
  | ⟨name, .one t, required, choices, rule⟩ => simp
  | ⟨name, .oneOf ts, required, choices, rule⟩ => simp
  | ⟨name, .listOf k, required, choices, rule⟩ => simp
  | ⟨name, .listOfMaps fields, required, choices, rule⟩ =>
    cases v with
    | list xs =>
      have hi := visitsIn_pairwise fields (lookByName_inner hf (.inr rfl))
      rw [visits_listOfMaps, List.pairwise_flatten]
      refine ⟨fun l hl => ?_, ?_⟩
      · obtain ⟨i, hx, rfl⟩ := List.mem_mapIdx.1 hl
        cases xs[i] with
        | map es => exact visits_pairwise_of_visitsIn (hi _ es)
        | _ => exact .nil
      · rw [List.pairwise_iff_getElem]
        intro i j hx hy hij m hm n hn
        rw [List.getElem_mapIdx] at hm hn
        have hs : Step.item i ≠ .item j := fun h => by cases h; exact Nat.lt_irrefl i hij
        exact outside_of_step_ne hs (prefix_of_mem_itemVisits hm) (prefix_of_mem_itemVisits hn)
    | _ => simp [Field.visits]
  | ⟨name, .mapOf fields, required, choices, rule⟩ =>
    cases v with
    | map es =>
      rw [visits_mapOf]
      exact visits_pairwise_of_visitsIn
        (visitsIn_pairwise fields (lookByName_inner hf (.inl rfl)) path es)
    | _ => simp [Field.visits]

theorem visitsIn_pairwise (fields : List Field) (hl : lookByName fields = true) (path : Path)
    (es : Entries) : (visitsIn fields path es).Pairwise fun m n => n.Outside m := by
  match fields with
  | [] => exact .nil
  | f :: fields =>
    simp only [lookByName, Bool.and_eq_true, Bool.not_eq_true', hasName, List.any_eq_false,
      beq_iff_eq] at hl
    obtain ⟨⟨hn, hf⟩, hl⟩ := hl
    rw [visitsIn, List.pairwise_append]
    refine ⟨fieldVisits_pairwise f hf _ _, visitsIn_pairwise fields hl path es, ?_⟩
    intro m hm n hg
    rw [visitsIn_eq, List.mem_flatMap] at hg
    obtain ⟨g, hmem, hg⟩ := hg
    have hs : Step.key f.name ≠ .key g.name := fun h => hn g hmem (Step.key.inj h).symm
    exact outside_of_step_ne hs (prefix_of_mem_fieldVisits hm) (prefix_of_mem_fieldVisits hg)

end

/-- A mapping comes after those inside it, and none comes twice. -/
theorem visits_pairwise {fields : List Field} (hl : lookByName fields = true) (path : Path)
    (es : Entries) : (visits fields path es).Pairwise fun m n => n.Outside m :=
  visits_pairwise_of_visitsIn (visitsIn_pairwise fields hl path es)

/-- A check comes to one mapping at a place. -/
theorem eq_of_place_eq {fields : List Field} {path : Path} {es : Entries} {m n : Visit}
    (hl : lookByName fields = true) (hm : m ∈ visits fields path es)
    (hn : n ∈ visits fields path es) (h : m.place = n.place) : m = n := by
  have ho {m n : Visit} (ho : n.Outside m) : m.place ≠ n.place :=
    fun he => ho (he ▸ List.prefix_rfl)
  have hp : ((visits fields path es).map Visit.place).Nodup :=
    List.pairwise_map.2 ((visits_pairwise hl path es).imp ho)
  exact List.inj_on_of_nodup_map hp hm hn h

end ShellCompletion.Schema
