import ShellCompletion.Proofs.Schema.Fits

/-! Mappings without unknown keys. A key is known when a field of its mapping has its name,
and this is asked of a mapping and of every mapping inside it that has fields. The main
statement says that a check warns of nothing exactly when all keys are known, whatever else
it finds. -/
namespace ShellCompletion.Schema

open Document

/-- Every key of the mapping is the name of a field. -/
def HasOnly (fields : List Field) (es : Entries) : Prop :=
  ∀ e ∈ es, ∃ f ∈ fields, e.1.isKey f.name = true

mutual

/-- The mappings that a field has fields for, inside its value, have only known keys. -/
def Field.Knows (f : Field) (v : Value) : Prop :=
  match f with
  | ⟨_, type, _, _, _⟩ =>
    match type with
    | .listOfMaps fields =>
      ∀ xs, v = .list xs → ∀ es, .map es ∈ xs → HasOnly fields es ∧ KnowAll fields es
    | .mapOf fields => ∀ es, v = .map es → HasOnly fields es ∧ KnowAll fields es
    | _ => True

def KnowAll : List Field → Entries → Prop
  | [], _ => True
  | f :: fs, es => f.Knows (es.get f.name) ∧ KnowAll fs es

end

/-- The mapping has no unknown keys, and no mapping inside it has any. -/
def Known (fields : List Field) (es : Entries) : Prop := HasOnly fields es ∧ KnowAll fields es

section

variable (name : String) (required : Bool) (choices : Option (List Value)) (rule : Option Rule)

@[simp] theorem knows_one (t : TypeExpr) (v : Value) :
    Field.Knows ⟨name, .one t, required, choices, rule⟩ v := by simp [Field.Knows]

@[simp] theorem knows_oneOf (ts : List TypeExpr) (v : Value) :
    Field.Knows ⟨name, .oneOf ts, required, choices, rule⟩ v := by simp [Field.Knows]

@[simp] theorem knows_listOf (k : Kind) (v : Value) :
    Field.Knows ⟨name, .listOf k, required, choices, rule⟩ v := by simp [Field.Knows]

theorem knows_listOfMaps_iff (fields : List Field) (xs : List Value) :
    Field.Knows ⟨name, .listOfMaps fields, required, choices, rule⟩ (.list xs) ↔
      ∀ es, .map es ∈ xs → Known fields es := by simp [Field.Knows, Known]

theorem knows_mapOf_iff (fields : List Field) (es : Entries) :
    Field.Knows ⟨name, .mapOf fields, required, choices, rule⟩ (.map es) ↔ Known fields es := by
  simp [Field.Knows, Known]

end

theorem unknownKeys_eq_nil_iff (fields : List Field) (path : Path) (es : Entries) :
    unknownKeys fields path es = [] ↔ HasOnly fields es := by
  simp [unknownKeys, HasOnly, List.filterMap_eq_nil_iff]

theorem join_warnings (fs : List Findings) :
    (Findings.join fs).warnings = fs.flatMap (·.warnings) := by
  induction fs with
  | nil => rfl
  | cons f fs ih => simp [Findings.join_cons, ih]

/-- Null has no mapping inside. -/
theorem knows_null (f : Field) : f.Knows .null := by
  obtain ⟨name, type, required, choices, rule⟩ := f
  cases type <;> simp [Field.Knows]

theorem mismatch_warnings (f : Field) (path : Path) (v : Value) :
    (f.mismatch path v).warnings = [] := rfl

mutual

theorem checkType_warnings_eq_nil_iff (f : Field) (path : Path) (v : Value) :
    (f.checkType path v).warnings = [] ↔ f.Knows v := by
  match f with
  | ⟨name, .one t, required, choices, rule⟩ =>
    simp only [Field.checkType, Field.Knows]
    split <;> simp [mismatch_warnings]
  | ⟨name, .oneOf ts, required, choices, rule⟩ =>
    simp only [Field.checkType, Field.Knows]
    split <;> simp [mismatch_warnings]
  | ⟨name, .listOf k, required, choices, rule⟩ =>
    cases v <;> simp [Field.checkType, Field.Knows, mismatch_warnings]
  | ⟨name, .listOfMaps fields, required, choices, rule⟩ =>
    cases v with
    | list xs =>
      have hm (i : Nat) := checkFields_warnings_eq_nil_iff fields (path.item i)
      simp only [Field.checkType, Field.Knows, Value.list.injEq, forall_eq',
        join_warnings, flatMap_mapIdx_eq_nil_iff]
      constructor
      · intro h es he
        obtain ⟨i, hi, hx⟩ := List.getElem_of_mem he
        have := h i hi
        rw [hx] at this
        simpa [hm, unknownKeys_eq_nil_iff, and_comm] using this
      · intro h i hi
        cases hx : xs[i] with
        | map es =>
          have he : .map es ∈ xs := hx ▸ List.getElem_mem hi
          simpa [hm, unknownKeys_eq_nil_iff, and_comm] using h es he
        | _ => rfl
    | _ => simp [Field.checkType, Field.Knows, mismatch_warnings]
  | ⟨name, .mapOf fields, required, choices, rule⟩ =>
    have := checkFields_warnings_eq_nil_iff fields path
    cases v <;> simp [Field.checkType, Field.Knows, mismatch_warnings, this,
      unknownKeys_eq_nil_iff, and_comm]

theorem checkFields_warnings_eq_nil_iff (fields : List Field) (path : Path) (es : Entries) :
    (checkFields fields path es).warnings = [] ↔ KnowAll fields es := by
  match fields with
  | [] => simp [checkFields, KnowAll]
  | f :: fs =>
    have := checkFields_warnings_eq_nil_iff fs path es
    have ht := checkType_warnings_eq_nil_iff f (path.key f.name) (es.get f.name)
    simp only [checkFields, KnowAll, Findings.warnings_append, List.append_eq_nil_iff, this]
    refine and_congr_left fun _ => ?_
    cases hv : es.get f.name with
    | null => cases f.required <;> simp [Value.isNull, Findings.problem, knows_null]
    | _ =>
      rw [← hv, ← ht, hv]
      simp only [Value.isNull, Bool.false_eq_true, ↓reduceIte]
      split <;> simp

end

/-- A check warns of nothing when all keys are known, and only then. -/
theorem checkMap_warnings_eq_nil_iff (fields : List Field) (path : Path) (es : Entries) :
    (checkMap fields path es).warnings = [] ↔ Known fields es := by
  simp [checkMap, Known, checkFields_warnings_eq_nil_iff, unknownKeys_eq_nil_iff, and_comm]

end ShellCompletion.Schema
