import ShellCompletion.Proofs.Schema.Visits

/-! What a check may report, case by case: at which place, with which problem, and what is then
known of the field and its value. The main statement says that whatever a check of a mapping
reports is reported of a field of a mapping that the check comes to, in one of these cases. -/
namespace ShellCompletion.Schema

open Document

/-- What is told of a violation: its place, what it is, and advice. -/
def Violation.told (v : Violation) : String × String × String := (v.place, v.message, v.suggestion)

/-- What may be reported of a field of the mapping at `inside` that has a value there. -/
inductive Field.Reports (f : Field) (inside : Path) (x : Value) : Violation → Prop
  | missing (null : x.isNull = true) (required : f.required = true) :
      f.Reports inside x ⟨inside.key f.name, .missing f.name f.type.leading? inside⟩
  | misfit (value : x.isNull = false) (hint : Option Kind) :
      f.Reports inside x ⟨inside.key f.name, .wrongType f.type.name x.typeName hint⟩
  /-- An element of a list is not of the kind of the elements. -/
  | stranger {xs : List Value} {y : Value} {i : Nat} (list : x = .list xs) (element : xs[i]? = some y)
      (k : Kind) : f.Reports inside x ⟨(inside.key f.name).item i, .wrongType k.name y.typeName none⟩
  | noChoice {cs : List Value} (value : x.isNull = false) (choices : f.choices = some cs) :
      f.Reports inside x ⟨inside.key f.name, .noChoice x.literal (cs.map (·.literal))⟩
  | broken {r : Rule} {c : Complaint} (value : x.isNull = false) (rule : f.rule = some r)
      (complaint : c ∈ r.complaints x) : f.Reports inside x ⟨inside.key f.name, .broken c⟩

variable {f : Field} {inside : Path} {x : Value} {v : Violation}

theorem reports_of_mem_strangers {k : Kind} {xs : List Value} (hx : x = .list xs)
    (h : v ∈ strangers k (inside.key f.name) xs) : f.Reports inside x v := by
  rw [strangers_eq_flatMap] at h
  obtain ⟨⟨y, i⟩, hy, h⟩ := List.mem_flatMap.1 h
  dsimp only at h
  split at h
  · cases h
  · obtain rfl := List.mem_singleton.1 h
    exact .stranger hx (List.mem_zipIdx_iff_getElem?.1 hy) k

theorem reports_of_mem_misfits (hn : x.isNull = false) (h : v ∈ f.misfits (inside.key f.name) x) :
    f.Reports inside x v := by
  have hm (h : v ∈ (f.mismatch (inside.key f.name) x).violations) : f.Reports inside x v := by
    obtain rfl := List.mem_singleton.1 h
    exact .misfit hn _
  unfold Field.misfits at h
  split at h
  · exact reports_of_mem_strangers rfl h
  · exact reports_of_mem_strangers rfl h
  · cases h
  · split at h
    · cases h
    · exact hm h
  · split at h
    · cases h
    · exact hm h
  · exact hm h

theorem reports_of_mem_breaches (hn : x.isNull = false)
    (h : v ∈ f.breaches (inside.key f.name) x) : f.Reports inside x v := by
  rw [Field.breaches, List.mem_append] at h
  rcases h with h | h
  · split at h
    · next cs hc =>
      split at h
      · cases h
      · obtain rfl := List.mem_singleton.1 h
        exact .noChoice hn hc
    · cases h
  · split at h
    · next r hr =>
      obtain ⟨c, hc, rfl⟩ := List.mem_map.1 h
      exact .broken hn hr hc
    · cases h

theorem reports_of_mem_ownViolations (h : v ∈ f.ownViolations inside x) : f.Reports inside x v := by
  rw [Field.ownViolations] at h
  split at h
  · next hn =>
    split at h
    · next hr =>
      obtain rfl := List.mem_singleton.1 h
      exact .missing hn hr
    · cases h
  · next hn =>
    rw [Bool.not_eq_true] at hn
    rcases List.mem_append.1 h with h | h
    · exact reports_of_mem_misfits hn h
    · split at h
      · exact reports_of_mem_breaches hn h
      · cases h

/-- What is reported is at the place of the field or at that of an element of its value. -/
theorem Field.Reports.path_eq (h : f.Reports inside x v) :
    v.path = inside.key f.name ∨ ∃ i, v.path = (inside.key f.name).item i := by
  cases h with
  | stranger list element k => exact .inr ⟨_, rfl⟩
  | _ => exact .inl rfl

/-- What a check reports is reported of a field of a mapping that it comes to. -/
theorem exists_reports_of_mem_checkMap {fields : List Field} {path : Path} {es : Entries}
    (h : v ∈ (checkMap fields path es).violations) : ∃ m ∈ visits fields path es, ∃ f ∈ m.fields,
      f.Reports m.place (m.entries.get f.name) v := by
  rw [(checkMap_violations_perm fields path es).mem_iff, List.mem_flatMap] at h
  obtain ⟨m, hm, h⟩ := h
  obtain ⟨f, hf, h⟩ := List.mem_flatMap.1 h
  exact ⟨m, hm, f, hf, reports_of_mem_ownViolations h⟩

end ShellCompletion.Schema
