import Mathlib.Data.List.Basic

/-! Texts joined by a separator. A joined text has the characters of the separator and of the
parts and no others, and words joined by spaces are told by the text. -/
namespace ShellCompletion.Text

theorem forall_mem_intercalate {p : Char → Prop} {sep : String} {ts : List String}
    (hs : ∀ c ∈ sep.toList, p c) (h : ∀ t ∈ ts, ∀ c ∈ t.toList, p c) :
    ∀ c ∈ (sep.intercalate ts).toList, p c := by
  induction ts with
  | nil => simp
  | cons t ts ih =>
    have ih := ih fun u hu => h u (List.mem_cons_of_mem t hu)
    cases ts with
    | nil => simpa using h t (by simp)
    | cons u us =>
      rw [String.intercalate_cons_cons, String.toList_append, String.toList_append]
      simp only [List.forall_mem_append]
      exact ⟨⟨h t List.mem_cons_self, hs⟩, ih⟩

theorem not_mem_intercalate {c : Char} {sep : String} {ts : List String} (hs : c ∉ sep.toList)
    (h : ∀ t ∈ ts, c ∉ t.toList) : c ∉ (sep.intercalate ts).toList := fun hm =>
  forall_mem_intercalate (p := (· ≠ c)) (fun _ hd => ne_of_mem_of_not_mem hd hs)
    (fun t ht _ hd => ne_of_mem_of_not_mem hd (h t ht)) c hm rfl

/-- A text that may be one of several words joined by spaces. -/
def IsWord (s : String) : Prop := s ≠ "" ∧ ' ' ∉ s.toList

theorem splitOn_intercalate_space {us : List String} (hu : ∀ u ∈ us, IsWord u) (hn : us ≠ []) :
    (" ".intercalate us).toList.splitOn ' ' = us.map String.toList := by
  rw [String.toList_intercalate]
  refine List.splitOn_intercalate ' ' (fun w hw => ?_) (by simpa using hn)
  obtain ⟨u, hm, rfl⟩ := List.mem_map.1 hw
  exact (hu u hm).2

theorem intercalate_space_ne_empty {us : List String} (hu : ∀ u ∈ us, IsWord u) (hn : us ≠ []) :
    " ".intercalate us ≠ "" := by
  intro h
  have hs := splitOn_intercalate_space hu hn
  rw [h] at hs
  obtain ⟨u, vs, rfl⟩ := List.exists_cons_of_ne_nil hn
  simp only [String.toList_empty, List.splitOn_nil, List.map_cons, List.cons.injEq] at hs
  exact (hu u List.mem_cons_self).1 (String.toList_eq_nil_iff.1 hs.1.symm)

/-- Words are told by the text that joins them. -/
theorem intercalate_space_inj {us vs : List String} (hu : ∀ u ∈ us, IsWord u)
    (hv : ∀ v ∈ vs, IsWord v) : " ".intercalate us = " ".intercalate vs ↔ us = vs := by
  refine ⟨fun h => ?_, congrArg _⟩
  by_cases hun : us = []
  · by_contra hne
    subst hun
    exact intercalate_space_ne_empty hv (Ne.symm hne) h.symm
  by_cases hvn : vs = []
  · subst hvn
    exact absurd h (intercalate_space_ne_empty hu hun)
  have hm := splitOn_intercalate_space hu hun
  rw [h, splitOn_intercalate_space hv hvn] at hm
  exact (List.map_injective_iff.2 fun _ _ => String.toList_inj.1) hm.symm

end ShellCompletion.Text
