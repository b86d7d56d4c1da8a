import ShellCompletion.Schema.Check

/-! What a schema asks of a mapping, said without a walk: a value fits a field when it is
of the field's type down to any depth, is one of its choices and breaks no complaint of
its rule, and a mapping fits when each of its fields does, null being as good as absent.
The main statement says that checking a mapping finds no violation exactly when the
mapping fits, at whatever place of the document it is checked. -/
namespace ShellCompletion.Schema

open Document

/-- A value is one of the choices of a field and does not break its rule. -/
def Field.Permits (f : Field) (v : Value) : Prop :=
  (∀ cs, f.choices = some cs → cs.any (v.same ·)) ∧ ∀ r, f.rule = some r → r.complaints v = []

mutual

/-- A value is of the type of a field. -/
def Field.Types (f : Field) (v : Value) : Prop :=
  match f with
  | ⟨_, type, _, _, _⟩ =>
    match type with
    | .one t => t.admits v
    | .oneOf ts => ts.any (·.admits v)
    | .listOf k => ∃ xs, v = .list xs ∧ ∀ x ∈ xs, k.admits x
    | .listOfMaps fields => ∃ xs, v = .list xs ∧ ∀ x ∈ xs, ∃ es, x = .map es ∧ Fits fields es
    | .mapOf fields => ∃ es, v = .map es ∧ Fits fields es

/-- Every field of a mapping that has a value has one of its type that it permits, and only
fields that are not required have none. -/
def Fits : List Field → Entries → Prop
  | [], _ => True
  | f :: fs, es =>
    (if (es.get f.name).isNull then f.required = false
      else f.Types (es.get f.name) ∧ f.Permits (es.get f.name)) ∧ Fits fs es

end

theorem breaches_eq_nil_iff (f : Field) (path : Path) (v : Value) :
    f.breaches path v = [] ↔ f.Permits v := by
  obtain ⟨name, type, required, choices, rule⟩ := f
  cases choices <;> cases rule <;> simp [Field.breaches, Field.Permits]

theorem strangers_eq_nil_iff (k : Kind) (path : Path) (xs : List Value) :
    strangers k path xs = [] ↔ ∀ x ∈ xs, k.admits x := by
  simp [strangers, List.mem_iff_getElem]
  grind

theorem mismatch_violations_ne_nil (f : Field) (path : Path) (v : Value) :
    (f.mismatch path v).violations ≠ [] := by
  simp [Field.mismatch, Findings.problem]

theorem join_violations (fs : List Findings) :
    (Findings.join fs).violations = fs.flatMap (·.violations) := by
  induction fs with
  | nil => rfl
  | cons f fs ih => simp [Findings.join_cons, ih]

theorem flatMap_mapIdx_eq_nil_iff {α β γ : Type} (h : β → List γ) (g : Nat → α → β) (xs : List α) :
    (xs.mapIdx g).flatMap h = [] ↔ ∀ i (hi : i < xs.length), h (g i xs[i]) = [] := by
  simp only [List.flatMap_eq_nil_iff, List.mem_mapIdx]
  constructor
  · intro hx i hi
    exact hx _ ⟨i, hi, rfl⟩
  · rintro hx b ⟨i, hi, rfl⟩
    exact hx i hi

mutual

theorem checkType_violations_eq_nil_iff (f : Field) (path : Path) (v : Value) :
    (f.checkType path v).violations = [] ↔ f.Types v := by
  match f with
  | ⟨name, .one t, required, choices, rule⟩ =>
    simp only [Field.checkType, Field.Types]
    split <;> simp_all [mismatch_violations_ne_nil]
  | ⟨name, .oneOf ts, required, choices, rule⟩ =>
    simp only [Field.checkType, Field.Types]
    split <;> simp_all [mismatch_violations_ne_nil]
  | ⟨name, .listOf k, required, choices, rule⟩ =>
    cases v <;> simp [Field.checkType, Field.Types, mismatch_violations_ne_nil,
      strangers_eq_nil_iff]
  | ⟨name, .listOfMaps fields, required, choices, rule⟩ =>
    cases v with
    | list xs =>
      have hm (i : Nat) := checkFields_violations_eq_nil_iff fields (path.item i)
      simp only [Field.checkType, Field.Types, Value.list.injEq, exists_eq_left',
        join_violations, flatMap_mapIdx_eq_nil_iff, List.forall_mem_iff_forall_getElem]
      refine forall_congr' fun i => forall_congr' fun hi => ?_
      cases xs[i] <;> simp [Findings.problem, hm]
    | _ => simp [Field.checkType, Field.Types, mismatch_violations_ne_nil]
  | ⟨name, .mapOf fields, required, choices, rule⟩ =>
    have := checkFields_violations_eq_nil_iff fields path
    cases v <;> simp [Field.checkType, Field.Types, mismatch_violations_ne_nil, this]

theorem checkFields_violations_eq_nil_iff (fields : List Field) (path : Path) (es : Entries) :
    (checkFields fields path es).violations = [] ↔ Fits fields es := by
  match fields with
  | [] => simp [checkFields, Fits]
  | f :: fs =>
    have := checkFields_violations_eq_nil_iff fs path es
    have ht := checkType_violations_eq_nil_iff f (path.key f.name) (es.get f.name)
    have hb := breaches_eq_nil_iff f (path.key f.name) (es.get f.name)
    simp only [checkFields, Fits, Findings.violations_append, List.append_eq_nil_iff, this]
    refine and_congr_left fun _ => ?_
    cases hv : (es.get f.name).isNull with
    | true => cases f.required <;> simp [Findings.problem]
    | false =>
      cases hf : (f.checkType (path.key f.name) (es.get f.name)).violations with
      | nil => simp [← ht, hf, hb]
      | cons w ws => simp [← ht, hf]

end

end ShellCompletion.Schema
