import ShellCompletion.Interface.Validation
import ShellCompletion.Proofs.Interface.Reading

/-! Which documents are accepted, and what a check of them ends in. The main statement says
that the accepted documents are those in the grammar. An accepted document gives the
interface that is read off it, and any other one is rejected for at least one reason: no
check ends without an interface or a reason. -/
namespace ShellCompletion.Interface

open Document Schema Grammar

theorem checkMap_violations_eq_nil_iff (es : Entries) :
    (checkMap documentFields [] es).violations = [] ↔ InterfaceEntries es := by
  simp [checkMap, checkFields_violations_eq_nil_iff, fits_documentFields_iff]

/-- The records of the unknown keys of a mapping and of those inside it. -/
def unknownRecords (es : Entries) : List Log.Record :=
  (checkMap documentFields [] es).warnings.map fun w => warningRecord w.text

def undeclaredRecords (i : Interface) : List Log.Record :=
  i.undeclaredFlags.map fun (k, f) => warningRecord (undeclaredText k f)

theorem ofEntries_eq_reading {es : Entries} (h : InterfaceEntries es) :
    ofEntries es = .ok (Reading.interface es) := by
  obtain ⟨d, hd, hs⟩ := Reading.builds_interface h
  rw [ofEntries_eq, hd]
  exact hs

theorem validate_map_of_grammar {es : Entries} (h : InterfaceEntries es) :
    validate (.map es) = (.accepted (Reading.interface es),
      unknownRecords es ++ undeclaredRecords (Reading.interface es)) := by
  simp only [validate, (checkMap_violations_eq_nil_iff es).2 h, List.isEmpty_nil, ↓reduceIte,
    ofEntries_eq_reading h, unknownRecords, undeclaredRecords]

theorem validate_map_of_not_grammar {es : Entries} (h : ¬InterfaceEntries es) :
    validate (.map es) = (.rejected (checkMap documentFields [] es).violations,
      unknownRecords es ++
        (checkMap documentFields [] es).violations.map fun v => ⟨.debug, v.text⟩) := by
  have hv : (checkMap documentFields [] es).violations.isEmpty = false := by
    simpa [checkMap_violations_eq_nil_iff] using h
  simp only [validate, hv, Bool.false_eq_true, ↓reduceIte, unknownRecords]

/-- What is no mapping is rejected for that reason alone. -/
theorem eq_map_or_validate_eq (v : Value) :
    (∃ es, v = .map es) ∨
      (∀ es, v ≠ .map es) ∧ validate v = (.rejected [⟨[], .noMapping v.typeName⟩], []) := by
  cases v <;> simp [validate]

/-- An accepted document is in the grammar, and its interface is the one read off it. -/
theorem accepted_iff (v : Value) (i : Interface) :
    (validate v).1 = .accepted i ↔
      ∃ es, v = .map es ∧ InterfaceEntries es ∧ i = Reading.interface es := by
  obtain ⟨es, rfl⟩ | ⟨hm, hv⟩ := eq_map_or_validate_eq v
  · by_cases h : InterfaceEntries es
    · simp [validate_map_of_grammar h, h, eq_comm]
    · simp [validate_map_of_not_grammar h, h]
  · simp [hm, hv]

/-- A rejected document is rejected for a reason. -/
theorem ne_nil_of_rejected {v : Value} {vs : List Violation} (h : (validate v).1 = .rejected vs) :
    vs ≠ [] := by
  obtain ⟨es, rfl⟩ | ⟨_, hv⟩ := eq_map_or_validate_eq v
  · by_cases hg : InterfaceEntries es
    · simp [validate_map_of_grammar hg] at h
    · simp only [validate_map_of_not_grammar hg, Verdict.rejected.injEq] at h
      rwa [← h, ne_eq, checkMap_violations_eq_nil_iff]
  · simp only [hv, Verdict.rejected.injEq] at h
    simp [← h]

/-- A check ends in an interface or in reasons against the document. -/
theorem accepted_or_rejected (v : Value) :
    (∃ i, (validate v).1 = .accepted i) ∨ ∃ vs, (validate v).1 = .rejected vs := by
  obtain ⟨es, rfl⟩ | ⟨_, hv⟩ := eq_map_or_validate_eq v
  · by_cases h : InterfaceEntries es
    · exact .inl ⟨_, by rw [validate_map_of_grammar h]⟩
    · exact .inr ⟨_, by rw [validate_map_of_not_grammar h]⟩
  · exact .inr ⟨_, by rw [hv]⟩

/-- The violations that a document is rejected for; an accepted document has none. -/
def violations (document : Value) : List Violation :=
  match (validate document).1 with
  | .rejected vs => vs
  | .accepted _ | .unbuilt _ => []

theorem violations_map (es : Entries) :
    violations (.map es) = (checkMap documentFields [] es).violations := by
  by_cases h : InterfaceEntries es
  · rw [violations, validate_map_of_grammar h, (checkMap_violations_eq_nil_iff es).2 h]
  · rw [violations, validate_map_of_not_grammar h]

end ShellCompletion.Interface
