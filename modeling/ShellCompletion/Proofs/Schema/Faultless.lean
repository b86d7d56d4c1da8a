import ShellCompletion.Proofs.Schema.Fits
import ShellCompletion.Schema.Fault

/-! Schemas that no document can bring to a fault. Such a schema has no types with
parameters, puts each rule only where values have what the rule looks at, and gives every
required field an alternative. Being faultless can be computed; the main statement says
that a check by a faultless schema always ends in findings. -/
namespace ShellCompletion.Schema

open Document

def TypeExpr.isBasic : TypeExpr → Bool
  | basic _ => true
  | generic _ _ => false

/-- Can the rule be put to every value of the type? -/
def Rule.suits {α : Type} : Rule → FieldType α → Bool
  | oneSource, .mapOf _ => true
  | noEmptyElements, .listOf _ | noEmptyElements, .listOfMaps _ | noEmptyElements, .mapOf _ => true
  | distinctSlots, .listOf _ | distinctSlots, .listOfMaps _ | distinctSlots, .mapOf _ => true
  | notEmpty, _ | notEmptyList, _ | slotIndex, _ => true
  | _, _ => false

mutual

/-- Has the type no parameters, down to any depth? -/
def Field.isPlain : Field → Bool
  | ⟨_, type, _, _, _⟩ =>
    match type with
    | .one t => t.isBasic
    | .oneOf ts => ts.all (·.isBasic)
    | .listOf _ => true
    | .listOfMaps fields | .mapOf fields => areFaultless fields

def areFaultless : List Field → Bool
  | [] => true
  | f :: fs =>
    !(f.required && f.type.isVoid) && f.rule.all (·.suits f.type) && f.isPlain && areFaultless fs

end

theorem alternativesFault?_eq_none (ts : List TypeExpr) (h : ∀ t ∈ ts, t.isBasic = true)
    (v : Value) : alternativesFault? v ts = none := by
  induction ts with
  | nil => rfl
  | cons t ts ih =>
    cases t with
    | basic k =>
      have := ih fun t ht => h t (by simp [ht])
      simp [alternativesFault?, this]
    | generic k ps => simpa [TypeExpr.isBasic] using h (.generic k ps) (by simp)

theorem fault?_eq_none {f : Field} {r : Rule} (hr : r.suits f.type = true) {v : Value}
    (hv : f.Types v) : r.fault? v = none := by
  obtain ⟨name, type, required, choices, rule⟩ := f
  cases r <;> cases type <;> simp [Rule.suits] at hr <;> simp only [Field.Types] at hv
  all_goals try rfl
  all_goals
    obtain ⟨_, rfl, _⟩ := hv
    rfl

theorem ruleFault?_eq_none {f : Field} (h : f.rule.all (·.suits f.type) = true) (v : Value) :
    f.ruleFault? v = none := by
  rw [Field.ruleFault?]
  split
  · rename_i hv
    rw [List.isEmpty_iff, checkType_violations_eq_nil_iff] at hv
    cases hr : f.rule with
    | none => rfl
    | some r => exact fault?_eq_none (by simpa [hr] using h) hv
  · rfl

mutual

theorem typeFault?_eq_none {f : Field} (h : f.isPlain = true) (v : Value) :
    f.typeFault? v = none := by
  match f with
  | ⟨name, .one t, required, choices, rule⟩ =>
    simp only [Field.isPlain] at h
    simpa [Field.typeFault?] using alternativesFault?_eq_none [t] (by simp [h]) v
  | ⟨name, .oneOf ts, required, choices, rule⟩ =>
    simp only [Field.isPlain, List.all_eq_true] at h
    simpa [Field.typeFault?] using alternativesFault?_eq_none ts h v
  | ⟨name, .listOf k, required, choices, rule⟩ => cases v <;> rfl
  | ⟨name, .listOfMaps fields, required, choices, rule⟩ =>
    simp only [Field.isPlain] at h
    have hf := fieldsFault?_eq_none h
    cases v with
    | list xs =>
      simp only [Field.typeFault?, List.findSome?_eq_none_iff]
      intro x _
      cases x <;> simp [hf]
    | _ => simp [Field.typeFault?]
  | ⟨name, .mapOf fields, required, choices, rule⟩ =>
    simp only [Field.isPlain] at h
    have hf := fieldsFault?_eq_none h
    cases v <;> simp [Field.typeFault?, hf]

theorem fieldsFault?_eq_none {fields : List Field} (h : areFaultless fields = true)
    (es : Entries) : fieldsFault? fields es = none := by
  match fields with
  | [] => rfl
  | f :: fs =>
    simp only [areFaultless, Bool.and_eq_true, Bool.not_eq_eq_eq_not, Bool.not_true] at h
    obtain ⟨⟨⟨hq, hr⟩, hp⟩, hs⟩ := h
    simp [fieldsFault?, hq, ruleFault?_eq_none hr, typeFault?_eq_none hp,
      fieldsFault?_eq_none hs]

end

/-- A check by a faultless schema always ends in findings. -/
theorem check_eq_ok {fields : List Field} (h : areFaultless fields = true) (path : Path)
    (es : Entries) : check fields path es = .ok (checkMap fields path es) := by
  simp only [check, fieldsFault?_eq_none h]

end ShellCompletion.Schema
