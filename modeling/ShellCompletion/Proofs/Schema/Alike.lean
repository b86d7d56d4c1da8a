import ShellCompletion.Proofs.Related
import ShellCompletion.Proofs.Schema.Fits

/-! Mappings that fields can not tell apart. Under the name of each field they have values that
the field can not tell apart: equal ones, mappings that the fields inside can not tell apart,
lists of such, or containers that are not of the type of the field, into which it does not look;
null and an absent key are the same. A schema looks by name when its choices and rules look into
mappings through the names of its fields only. The main statement says that such a schema finds
the same violations in mappings that its fields can not tell apart. -/
namespace ShellCompletion.Schema

open Document

/-- Containers of one type, whatever they hold. -/
inductive SameOutside : Value → Value → Prop
  | list (xs ys : List Value) : SameOutside (.list xs) (.list ys)
  | tuple (xs ys : List Value) : SameOutside (.tuple xs) (.tuple ys)
  | map (es fs : Entries) : SameOutside (.map es) (.map fs)

/-- Equal values, or containers of one type that are not admitted. -/
def SameFor (admits : Value → Bool) (v w : Value) : Prop :=
  v = w ∨ SameOutside v w ∧ admits v = false

mutual

/-- A field can not tell the values apart. -/
def Field.Alike (f : Field) (v w : Value) : Prop :=
  match f with
  | ⟨_, type, _, _, _⟩ =>
    match type with
    | .one t => SameFor t.admits v w
    | .oneOf ts => SameFor (fun v => ts.any (·.admits v)) v w
    | .listOf k => SameFor Kind.list.admits v w ∨
        ∃ xs ys, v = .list xs ∧ w = .list ys ∧ List.Forall₂ (SameFor k.admits) xs ys
    | .listOfMaps fields => SameFor Kind.list.admits v w ∨
        ∃ xs ys, v = .list xs ∧ w = .list ys ∧ List.Forall₂ (fun x y =>
          SameFor Kind.map.admits x y ∨
            ∃ es fs : Entries, x = .map es ∧ y = .map fs ∧ AlikeIn fields es fs) xs ys
    | .mapOf fields => SameFor Kind.map.admits v w ∨
        ∃ es fs : Entries, v = .map es ∧ w = .map fs ∧ AlikeIn fields es fs

/-- No field can tell the mappings apart. -/
def AlikeIn : List Field → Entries → Entries → Prop
  | [], _, _ => True
  | f :: fields, es, fs => f.Alike (es.get f.name) (fs.get f.name) ∧ AlikeIn fields es fs

end

/-- Elements of a list of mappings that the fields can not tell apart. -/
def AlikeItems (fields : List Field) (x y : Value) : Prop :=
  SameFor Kind.map.admits x y ∨ ∃ es fs : Entries, x = .map es ∧ y = .map fs ∧ AlikeIn fields es fs

/-! ### Containers seen from outside -/

namespace SameOutside

variable {v w : Value}

theorem typeName_eq (h : SameOutside v w) : v.typeName = w.typeName := by cases h <;> rfl

theorem isNull_eq (h : SameOutside v w) : v.isNull = w.isNull := by cases h <;> rfl

theorem kind_admits_eq (h : SameOutside v w) (k : Kind) : k.admits v = k.admits w := by
  cases h <;> cases k <;> rfl

theorem admits_eq (h : SameOutside v w) (t : TypeExpr) : t.admits v = t.admits w := by
  cases t with
  | basic k => exact h.kind_admits_eq k
  | generic k ts => rfl

end SameOutside

theorem sameFor_refl (admits : Value → Bool) (v : Value) : SameFor admits v v := .inl rfl

theorem SameFor.outside {admits : Value → Bool} {v w : Value} (h : SameFor admits v w) :
    v = w ∨ SameOutside v w := h.imp_right And.left

theorem SameFor.eq_of_admits {admits : Value → Bool} {v w : Value} (h : SameFor admits v w)
    (hv : admits v = true) : v = w := by
  obtain h | ⟨_, hn⟩ := h
  · exact h
  · rw [hv] at hn
    cases hn

section

variable {name : String} {required : Bool} {choices : Option (List Value)} {rule : Option Rule}
  {v w : Value}

theorem alike_one_iff {t : TypeExpr} :
    Field.Alike ⟨name, .one t, required, choices, rule⟩ v w ↔ SameFor t.admits v w := by
  simp only [Field.Alike]

theorem alike_oneOf_iff {ts : List TypeExpr} :
    Field.Alike ⟨name, .oneOf ts, required, choices, rule⟩ v w ↔
      SameFor (fun v => ts.any (·.admits v)) v w := by
  simp only [Field.Alike]

theorem alike_listOf_iff {k : Kind} :
    Field.Alike ⟨name, .listOf k, required, choices, rule⟩ v w ↔
      SameFor Kind.list.admits v w ∨
        ∃ xs ys, v = .list xs ∧ w = .list ys ∧ List.Forall₂ (SameFor k.admits) xs ys := by
  simp only [Field.Alike]

theorem alike_mapOf_iff {fields : List Field} :
    Field.Alike ⟨name, .mapOf fields, required, choices, rule⟩ v w ↔ AlikeItems fields v w := by
  simp only [Field.Alike, AlikeItems]

theorem alike_listOfMaps_iff {fields : List Field} :
    Field.Alike ⟨name, .listOfMaps fields, required, choices, rule⟩ v w ↔
      SameFor Kind.list.admits v w ∨ ∃ xs ys, v = .list xs ∧ w = .list ys ∧
        List.Forall₂ (AlikeItems fields) xs ys := by
  simp only [Field.Alike]
  rfl

end

theorem alikeItems_refl (fields : List Field) (x : Value) : AlikeItems fields x x :=
  .inl (sameFor_refl _ x)

theorem Field.alike_refl (f : Field) (v : Value) : f.Alike v v := by
  obtain ⟨name, type, required, choices, rule⟩ := f
  cases type with
  | one t => exact alike_one_iff.2 (sameFor_refl _ v)
  | oneOf ts => exact alike_oneOf_iff.2 (sameFor_refl _ v)
  | listOf k => exact alike_listOf_iff.2 (.inl (sameFor_refl _ v))
  | listOfMaps fields => exact alike_listOfMaps_iff.2 (.inl (sameFor_refl _ v))
  | mapOf fields => exact alike_mapOf_iff.2 (alikeItems_refl fields v)

theorem alikeIn_iff (fields : List Field) (es fs : Entries) :
    AlikeIn fields es fs ↔ ∀ f ∈ fields, f.Alike (es.get f.name) (fs.get f.name) := by
  induction fields with
  | nil => simp [AlikeIn]
  | cons f fields ih => simp [AlikeIn, ih]

theorem AlikeItems.outside {fields : List Field} {x y : Value} (h : AlikeItems fields x y) :
    x = y ∨ SameOutside x y := by
  obtain h | ⟨es, fs, rfl, rfl, _⟩ := h
  · exact h.outside
  · exact .inr (.map es fs)

/-- Values that a field can not tell apart are equal, or containers of one type. -/
theorem Field.Alike.outside {f : Field} {v w : Value} (h : f.Alike v w) :
    v = w ∨ SameOutside v w := by
  obtain ⟨name, type, required, choices, rule⟩ := f
  cases type with
  | one t => exact (alike_one_iff.1 h).outside
  | oneOf ts => exact (alike_oneOf_iff.1 h).outside
  | listOf k =>
    obtain h | ⟨xs, ys, rfl, rfl, _⟩ := alike_listOf_iff.1 h
    · exact h.outside
    · exact .inr (.list xs ys)
  | listOfMaps fields =>
    obtain h | ⟨xs, ys, rfl, rfl, _⟩ := alike_listOfMaps_iff.1 h
    · exact h.outside
    · exact .inr (.list xs ys)
  | mapOf fields => exact (alike_mapOf_iff.1 h).outside

theorem Field.Alike.isNull_eq {f : Field} {v w : Value} (h : f.Alike v w) :
    v.isNull = w.isNull := by
  obtain rfl | outside := h.outside
  · rfl
  · exact outside.isNull_eq

/-! ### Schemas that look by name -/

def hasName (fields : List Field) (name : String) : Bool := fields.any (·.name == name)

/-- Does a rule look into mappings by the names of their fields? -/
def Rule.looksByName : Rule → FieldType Field → Bool
  | oneSource, .mapOf fields => hasName fields "builtin" && hasName fields "cmd"
  | distinctSlots, .listOfMaps fields => hasName fields "index"
  | _, .mapOf _ | _, .listOfMaps _ => false
  | _, _ => true

mutual

/-- Are the choices, the rule and the fields inside such that mappings are looked into by name
only? -/
def Field.looksByName : Field → Bool
  | ⟨_, type, _, choices, rule⟩ =>
    match type with
    | .listOfMaps fields =>
      choices.isNone && rule.all (·.looksByName (.listOfMaps fields)) && lookByName fields
    | .mapOf fields =>
      choices.isNone && rule.all (·.looksByName (.mapOf fields)) && lookByName fields
    | _ => true

/-- Do the fields differ in name and look into mappings by name only? -/
def lookByName : List Field → Bool
  | [] => true
  | f :: fields => !hasName fields f.name && f.looksByName && lookByName fields

end

theorem exists_of_hasName {fields : List Field} {name : String} (h : hasName fields name = true) :
    ∃ f ∈ fields, f.name = name := by
  simpa [hasName] using h

theorem mem_looksByName {fields : List Field} (h : lookByName fields = true) {f : Field}
    (hf : f ∈ fields) : f.looksByName = true := by
  induction fields with
  | nil => simp at hf
  | cons g fields ih =>
    simp only [lookByName, Bool.and_eq_true] at h
    rcases List.mem_cons.1 hf with rfl | hf
    · exact h.1.2
    · exact ih h.2 hf

/-- Fields of one name are one field. -/
theorem eq_of_name_eq {fields : List Field} (h : lookByName fields = true) {f g : Field}
    (hf : f ∈ fields) (hg : g ∈ fields) (hn : f.name = g.name) : f = g := by
  induction fields with
  | nil => simp at hf
  | cons d fields ih =>
    simp only [lookByName, Bool.and_eq_true, Bool.not_eq_eq_eq_not, Bool.not_true] at h
    have hd (e : Field) (he : e ∈ fields) : e.name ≠ d.name := by
      have := h.1.1
      simp only [hasName, List.any_eq_false, beq_iff_eq] at this
      exact this e he
    rcases List.mem_cons.1 hf with hfd | hf <;> rcases List.mem_cons.1 hg with hgd | hg
    · rw [hfd, hgd]
    · exact absurd (hfd ▸ hn).symm (hd g hg)
    · exact absurd (hgd ▸ hn) (hd f hf)
    · exact ih h.2 hf hg

/-! ### The same complaints -/

/-- The value of a name that a field has is null in both mappings or in none. -/
theorem isNull_get_eq {fields : List Field} {es fs : Entries} (h : AlikeIn fields es fs)
    {name : String} (hn : hasName fields name = true) :
    (es.get name).isNull = (fs.get name).isNull := by
  obtain ⟨f, hf, rfl⟩ := exists_of_hasName hn
  exact ((alikeIn_iff ..).1 h f hf).isNull_eq

theorem ofElement?_eq {fields : List Field} (hn : hasName fields "index" = true) {x y : Value}
    (h : AlikeItems fields x y) : SlotKey.ofElement? x = SlotKey.ofElement? y := by
  obtain (rfl | ⟨outside, noMap⟩) | ⟨es, fs, rfl, rfl, hA⟩ := h
  · rfl
  · cases outside with
    | map es fs => simp [Kind.admits] at noMap
    | _ => rfl
  · obtain ⟨f, hf, hname⟩ := exists_of_hasName hn
    have hv := (alikeIn_iff ..).1 hA f hf
    rw [hname] at hv
    obtain he | outside := hv.outside
    · simp only [SlotKey.ofElement?, he]
    · -- a container is no index, whatever it holds
      simp only [SlotKey.ofElement?]
      generalize Entries.get es "index" = v, Entries.get fs "index" = w at outside ⊢
      cases outside <;> rfl

theorem repeatedIndices_eq {fields : List Field} (hn : hasName fields "index" = true)
    {xs ys : List Value} (h : List.Forall₂ (AlikeItems fields) xs ys) (seen : List (SlotKey × Nat))
    (i : Nat) : repeatedIndices seen i xs = repeatedIndices seen i ys := by
  induction h generalizing seen i with
  | nil => rfl
  | cons hx _ ih => simp only [repeatedIndices, ofElement?_eq hn hx, ih]

theorem eq_of_forall₂_sameFor {admits : Value → Bool} {xs ys : List Value}
    (h : List.Forall₂ (SameFor admits) xs ys) (hx : ∀ x ∈ xs, admits x = true) : xs = ys := by
  induction h with
  | nil => rfl
  | @cons x y xs ys hxy _ ih =>
    rw [hxy.eq_of_admits (hx x List.mem_cons_self),
      ih fun z hz => hx z (List.mem_cons_of_mem x hz)]

/-- Values that a field can not tell apart, of its type, are equal but for what the mappings in
them hold. -/
theorem Field.Alike.cases_of_types {f : Field} {v w : Value} (h : f.Alike v w)
    (ht : f.Types v) : v = w ∨
      (∃ fields es fs, f.type = .mapOf fields ∧ v = .map es ∧ w = .map fs ∧
        AlikeIn fields es fs) ∨
      ∃ fields xs ys, f.type = .listOfMaps fields ∧ v = .list xs ∧ w = .list ys ∧
        List.Forall₂ (AlikeItems fields) xs ys := by
  obtain ⟨name, type, required, choices, rule⟩ := f
  cases type <;> simp only [Field.Types] at ht
  case one t => exact .inl ((alike_one_iff.1 h).eq_of_admits ht)
  case oneOf ts => exact .inl ((alike_oneOf_iff.1 h).eq_of_admits ht)
  case listOf k =>
    obtain ⟨xs, rfl, hx⟩ := ht
    obtain h | ⟨xs', ys, hxs, rfl, hf⟩ := alike_listOf_iff.1 h
    · exact .inl (h.eq_of_admits rfl)
    · cases hxs
      exact .inl (congrArg Value.list (eq_of_forall₂_sameFor hf hx))
  case listOfMaps fields =>
    obtain ⟨xs, rfl, _⟩ := ht
    obtain h | ⟨xs', ys, hxs, rfl, hf⟩ := alike_listOfMaps_iff.1 h
    · exact .inl (h.eq_of_admits rfl)
    · exact .inr (.inr ⟨fields, xs', ys, rfl, hxs, rfl, hf⟩)
  case mapOf fields =>
    obtain ⟨es, rfl, _⟩ := ht
    obtain h | ⟨es', fs, hes, rfl, hA⟩ := alike_mapOf_iff.1 h
    · exact .inl (h.eq_of_admits rfl)
    · exact .inr (.inl ⟨fields, es', fs, rfl, hes, rfl, hA⟩)

/-- A rule that looks by name finds the same wrong with values of the type of its field that the
field can not tell apart. -/
theorem complaints_eq {f : Field} {r : Rule} (hr : r.looksByName f.type = true) {v w : Value}
    (h : f.Alike v w) (ht : f.Types v) : r.complaints v = r.complaints w := by
  obtain rfl | ⟨fields, es, fs, htype, rfl, rfl, hA⟩ | ⟨fields, xs, ys, htype, rfl, rfl, hA⟩ :=
    h.cases_of_types ht
  · rfl
  · rw [htype] at hr
    cases r with
    | oneSource =>
      simp only [Rule.looksByName, Bool.and_eq_true] at hr
      simp only [Rule.complaints, sourceComplaints, isNull_get_eq hA hr.1, isNull_get_eq hA hr.2]
    | _ => simp [Rule.looksByName] at hr
  · rw [htype] at hr
    cases r with
    | distinctSlots => exact repeatedIndices_eq hr hA [] 0
    | _ => simp [Rule.looksByName] at hr

/-- A field that looks by name has a rule that does, and has no choices if it looks into
mappings. -/
theorem looksByName_cases {f : Field} (hf : f.looksByName = true) {v w : Value} (h : f.Alike v w)
    (ht : f.Types v) : (v = w ∨ f.choices = none) ∧
      ∀ r, f.rule = some r → r.looksByName f.type = true := by
  refine ⟨(h.cases_of_types ht).imp_right fun looks => ?_, fun r hr => ?_⟩
  · obtain ⟨name, type, required, choices, rule⟩ := f
    obtain ⟨fields, _, _, rfl, _⟩ | ⟨fields, _, _, rfl, _⟩ := looks <;>
      simp_all [Field.looksByName]
  · obtain ⟨name, type, required, choices, rule⟩ := f
    cases type <;> simp_all [Field.looksByName, Rule.looksByName]

theorem breaches_eq {f : Field} (hf : f.looksByName = true) (path : Path) {v w : Value}
    (h : f.Alike v w) (ht : f.Types v) : f.breaches path v = f.breaches path w := by
  obtain ⟨rfl | hc, hr⟩ := looksByName_cases hf h ht
  · rfl
  · cases hrule : f.rule with
    | none => simp only [Field.breaches, hc, hrule]
    | some r => simp only [Field.breaches, hc, hrule, complaints_eq (hr r hrule) h ht]

/-! ### The same violations -/

theorem mismatch_eq (f : Field) (path : Path) {v w : Value} (h : SameOutside v w) :
    f.mismatch path v = f.mismatch path w := by
  simp only [Field.mismatch, h.typeName_eq]

theorem strangers_eq (k : Kind) (path : Path) {xs ys : List Value}
    (h : List.Forall₂ (SameFor k.admits) xs ys) : strangers k path xs = strangers k path ys := by
  have hm := map_mapIdx_eq_of_forall₂ (u := id) (v := id) (f := fun i v =>
    if k.admits v then [] else [(⟨path.item i, .wrongType k.name v.typeName none⟩ : Violation)]) h
    fun i x y hxy => by
      obtain rfl | ⟨outside, _⟩ := hxy
      · rfl
      · simp only [outside.kind_admits_eq k, outside.typeName_eq]
  simp only [List.map_id] at hm
  exact congrArg List.flatten hm

/-- What is no list is of the wrong type for a field of lists, whatever it holds. -/
theorem checkType_eq_of_sameFor {f : Field}
    (ht : (∃ k, f.type = .listOf k) ∨ ∃ fields, f.type = .listOfMaps fields) (path : Path)
    {v w : Value} (h : SameFor Kind.list.admits v w) :
    f.checkType path v = f.checkType path w := by
  obtain ⟨name, type, required, choices, rule⟩ := f
  obtain rfl | ⟨outside, noList⟩ := h
  · rfl
  cases outside with
  | list xs ys => simp [Kind.admits] at noList
  | tuple xs ys => obtain ⟨k, rfl⟩ | ⟨fields, rfl⟩ := ht <;> exact mismatch_eq _ path (.tuple xs ys)
  | map es fs => obtain ⟨k, rfl⟩ | ⟨fields, rfl⟩ := ht <;> exact mismatch_eq _ path (.map es fs)

mutual

theorem checkType_violations_eq {f : Field} (hf : f.looksByName = true) (path : Path)
    {v w : Value} (h : f.Alike v w) :
    (f.checkType path v).violations = (f.checkType path w).violations := by
  match f with
  | ⟨name, .one t, required, choices, rule⟩ =>
    obtain rfl | ⟨outside, _⟩ := alike_one_iff.1 h
    · rfl
    · simp only [Field.checkType, outside.admits_eq t, mismatch_eq _ path outside]
  | ⟨name, .oneOf ts, required, choices, rule⟩ =>
    obtain rfl | ⟨outside, _⟩ := alike_oneOf_iff.1 h
    · rfl
    · simp only [Field.checkType, outside.admits_eq, mismatch_eq _ path outside]
  | ⟨name, .listOf k, required, choices, rule⟩ =>
    obtain h | ⟨xs, ys, rfl, rfl, hA⟩ := alike_listOf_iff.1 h
    · exact congrArg _ (checkType_eq_of_sameFor (.inl ⟨k, rfl⟩) path h)
    · exact strangers_eq k path hA
  | ⟨name, .listOfMaps fields, required, choices, rule⟩ =>
    simp only [Field.looksByName, Bool.and_eq_true] at hf
    obtain h | ⟨xs, ys, rfl, rfl, hA⟩ := alike_listOfMaps_iff.1 h
    · exact congrArg _ (checkType_eq_of_sameFor (.inr ⟨fields, rfl⟩) path h)
    simp only [Field.checkType, join_violations, List.flatMap_def]
    refine congrArg _ (map_mapIdx_eq_of_forall₂ hA fun i x y hxy => ?_)
    obtain (rfl | ⟨outside, noMap⟩) | ⟨es, fs, rfl, rfl, hin⟩ := hxy
    · rfl
    · cases outside with
      | map es fs => simp [Kind.admits] at noMap
      | _ => rfl
    · simp [checkFields_violations_eq hf.2 (path.item i) hin]
  | ⟨name, .mapOf fields, required, choices, rule⟩ =>
    simp only [Field.looksByName, Bool.and_eq_true] at hf
    obtain (rfl | ⟨outside, noMap⟩) | ⟨es, fs, rfl, rfl, hin⟩ := alike_mapOf_iff.1 h
    · rfl
    · cases outside with
      | map es fs => simp [Kind.admits] at noMap
      | tuple xs ys => exact congrArg _ (mismatch_eq _ path (.tuple xs ys))
      | list xs ys => exact congrArg _ (mismatch_eq _ path (.list xs ys))
    · simp [Field.checkType, checkFields_violations_eq hf.2 path hin]

/-- Mappings that the fields can not tell apart have the same violations, at whatever place
of the document they are checked. -/
theorem checkFields_violations_eq {fields : List Field} (hl : lookByName fields = true)
    (path : Path) {es fs : Entries} (h : AlikeIn fields es fs) :
    (checkFields fields path es).violations = (checkFields fields path fs).violations := by
  match fields with
  | [] => rfl
  | f :: fields =>
    simp only [lookByName, Bool.and_eq_true] at hl
    obtain ⟨hv, hA⟩ := h
    have ht := checkType_violations_eq hl.1.2 (path.key f.name) hv
    simp only [checkFields, Findings.violations_append, checkFields_violations_eq hl.2 path hA,
      hv.isNull_eq]
    refine congrArg (· ++ _) ?_
    cases (fs.get f.name).isNull with
    | true => rfl
    | false =>
      simp only [Bool.false_eq_true, ↓reduceIte, ht]
      split
      · next hn =>
        rw [← ht, List.isEmpty_iff, checkType_violations_eq_nil_iff] at hn
        simp only [Findings.violations_append, ht, breaches_eq hl.1.2 _ hv hn]
      · exact ht

end

end ShellCompletion.Schema
