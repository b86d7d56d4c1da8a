import Mathlib.Data.List.Perm.Basic
import ShellCompletion.Proofs.Schema.Edits
import ShellCompletion.Proofs.Schema.Known

/-! The mappings that a check comes to: the mapping itself and, through fields that have fields
of their own, the mappings inside it, each after those inside it. The main statements say that a
check finds what is wrong with the fields of these mappings, each looked at by itself, and that
it warns of the unknown keys of these mappings, in this order. -/
namespace ShellCompletion.Schema

open Document

/-- A mapping that a check comes to, with the fields that it is checked by and its place. -/
structure Visit where
  fields : List Field
  place : Path
  entries : Entries

mutual

/-- The mappings that the value of a field is made of, and those inside them. -/
def Field.visits (f : Field) (path : Path) (v : Value) : List Visit :=
  match f with
  | ⟨_, type, _, _, _⟩ =>
    match type, v with
    | .listOfMaps fields, .list xs =>
      (xs.mapIdx fun i x =>
        match x with
        | .map es => visitsIn fields (path.item i) es ++ [⟨fields, path.item i, es⟩]
        | _ => []).flatten
    | .mapOf fields, .map es => visitsIn fields path es ++ [⟨fields, path, es⟩]
    | _, _ => []

/-- The mappings inside a mapping, field after field. -/
def visitsIn : List Field → Path → Entries → List Visit
  | [], _, _ => []
  | f :: fs, path, es => f.visits (path.key f.name) (es.get f.name) ++ visitsIn fs path es

end

/-- The mappings that a check of a mapping comes to. -/
def visits (fields : List Field) (path : Path) (es : Entries) : List Visit :=
  visitsIn fields path es ++ [⟨fields, path, es⟩]

/-- The mappings that an element of a list of mappings holds. -/
def itemVisits (fields : List Field) (path : Path) : Value → List Visit
  | .map es => visits fields path es
  | _ => []

section

variable (name : String) (required : Bool) (choices : Option (List Value)) (rule : Option Rule)
  (path : Path) (fields : List Field)

@[simp] theorem visits_one (t : TypeExpr) (v : Value) :
    Field.visits ⟨name, .one t, required, choices, rule⟩ path v = [] := by simp [Field.visits]

@[simp] theorem visits_oneOf (ts : List TypeExpr) (v : Value) :
    Field.visits ⟨name, .oneOf ts, required, choices, rule⟩ path v = [] := by simp [Field.visits]

@[simp] theorem visits_listOf (k : Kind) (v : Value) :
    Field.visits ⟨name, .listOf k, required, choices, rule⟩ path v = [] := by simp [Field.visits]

theorem visits_mapOf (es : Entries) :
    Field.visits ⟨name, .mapOf fields, required, choices, rule⟩ path (.map es) =
      visits fields path es := by
  simp only [Field.visits, visits]

theorem visits_listOfMaps (xs : List Value) :
    Field.visits ⟨name, .listOfMaps fields, required, choices, rule⟩ path (.list xs) =
      (xs.mapIdx fun i x => itemVisits fields (path.item i) x).flatten := by
  simp only [Field.visits]
  congr 2

end

theorem visits_null (f : Field) (path : Path) : f.visits path .null = [] := by
  obtain ⟨name, type, required, choices, rule⟩ := f
  cases type <;> simp [Field.visits]

theorem visitsIn_eq (fields : List Field) (path : Path) (es : Entries) :
    visitsIn fields path es = fields.flatMap fun f => f.visits (path.key f.name) (es.get f.name) := by
  induction fields with
  | nil => rfl
  | cons f fields ih => rw [visitsIn, ih, List.flatMap_cons]

theorem mem_visits_self (fields : List Field) (path : Path) (es : Entries) :
    ⟨fields, path, es⟩ ∈ visits fields path es := by
  simp [visits]

theorem mem_visits_of_field {fields : List Field} {path : Path} {es : Entries} {m : Visit}
    {f : Field} (hf : f ∈ fields) (h : m ∈ f.visits (path.key f.name) (es.get f.name)) :
    m ∈ visits fields path es := by
  rw [visits, visitsIn_eq]
  exact List.mem_append_left _ (List.mem_flatMap.2 ⟨f, hf, h⟩)

/-! ### Steps to a mapping -/

/-- Steps from a mapping to one inside it, along fields that have fields of their own. -/
inductive Leads : List Field → Entries → Path → List Field → Entries → Prop
  | here (fields : List Field) (es : Entries) : Leads fields es [] fields es
  | map {fields inner last : List Field} {f : Field} {name : String} {es fs gs : Entries} {p : Path}
      (mem : f ∈ fields) (named : f.name = name) (type : f.type = .mapOf inner)
      (value : es.get name = .map fs) (rest : Leads inner fs p last gs) :
      Leads fields es (.key name :: p) last gs
  | item {fields inner last : List Field} {f : Field} {name : String} {es fs gs : Entries}
      {p : Path} {xs : List Value} {i : Nat} (mem : f ∈ fields) (named : f.name = name)
      (type : f.type = .listOfMaps inner) (value : es.get name = .list xs)
      (element : xs[i]? = some (.map fs)) (rest : Leads inner fs p last gs) :
      Leads fields es (.key name :: .item i :: p) last gs

mutual

theorem leads_of_mem_field (f : Field) {fields : List Field} {es : Entries} (hf : f ∈ fields)
    (path : Path) (v : Value) (hv : es.get f.name = v) {m : Visit}
    (h : m ∈ f.visits (path.key f.name) v) :
    ∃ p, m.place = path ++ p ∧ Leads fields es p m.fields m.entries := by
  match f with
  | ⟨name, .one t, required, choices, rule⟩ => simp at h
  | ⟨name, .oneOf ts, required, choices, rule⟩ => simp at h
  | ⟨name, .listOf k, required, choices, rule⟩ => simp at h
  | ⟨name, .listOfMaps inner, required, choices, rule⟩ =>
    cases v with
    | list xs =>
      rw [visits_listOfMaps, List.mem_flatten] at h
      obtain ⟨_, hx, hm⟩ := h
      obtain ⟨i, hi, rfl⟩ := List.mem_mapIdx.1 hx
      cases hx : xs[i] with
      | map fs =>
        rw [hx, itemVisits, visits, List.mem_append, List.mem_singleton] at hm
        have he : xs[i]? = some (.map fs) := hx ▸ List.getElem?_eq_getElem hi
        have hp (p : Path) : (path.key name).item i ++ p = path ++ .key name :: .item i :: p := by
          simp [Path.item, Path.key]
        rcases hm with hm | rfl
        · obtain ⟨p, hpl, hl⟩ := leads_of_mem_visitsIn inner inner (fun _ h => h) _ fs hm
          exact ⟨_, hpl.trans (hp p), .item hf rfl rfl hv he hl⟩
        · refine ⟨_, ?_, .item hf rfl rfl hv he (.here inner fs)⟩
          exact (List.append_nil _).symm.trans (hp [])
      | _ =>
        rw [hx] at hm
        cases hm
    | _ => simp [Field.visits] at h
  | ⟨name, .mapOf inner, required, choices, rule⟩ =>
    cases v with
    | map fs =>
      rw [visits_mapOf, visits, List.mem_append, List.mem_singleton] at h
      have hp (p : Path) : path.key name ++ p = path ++ .key name :: p := by simp [Path.key]
      rcases h with h | rfl
      · obtain ⟨p, hpl, hl⟩ := leads_of_mem_visitsIn inner inner (fun _ h => h) _ fs h
        exact ⟨_, hpl.trans (hp p), .map hf rfl rfl hv hl⟩
      · exact ⟨_, (List.append_nil _).symm.trans (hp []), .map hf rfl rfl hv (.here inner fs)⟩
    | _ => simp [Field.visits] at h

theorem leads_of_mem_visitsIn (fields all : List Field) (ha : ∀ f ∈ fields, f ∈ all)
    (path : Path) (es : Entries) {m : Visit} (h : m ∈ visitsIn fields path es) :
    ∃ p, m.place = path ++ p ∧ Leads all es p m.fields m.entries := by
  match fields with
  | [] => simp [visitsIn] at h
  | f :: fs =>
    rw [List.forall_mem_cons] at ha
    rw [visitsIn, List.mem_append] at h
    rcases h with h | h
    · exact leads_of_mem_field f ha.1 path _ rfl h
    · exact leads_of_mem_visitsIn fs all ha.2 path es h

end

/-- A check comes to a mapping just when steps lead to it. -/
theorem mem_visits_iff {fields : List Field} {path : Path} {es : Entries} {m : Visit} :
    m ∈ visits fields path es ↔
      ∃ p, m.place = path ++ p ∧ Leads fields es p m.fields m.entries := by
  constructor
  · intro h
    rw [visits, List.mem_append, List.mem_singleton] at h
    rcases h with h | rfl
    · exact leads_of_mem_visitsIn fields fields (fun _ h => h) path es h
    · exact ⟨[], (List.append_nil path).symm, .here fields es⟩
  · obtain ⟨last, place, gs⟩ := m
    rintro ⟨p, hp, h⟩
    dsimp only at h hp
    induction h generalizing path with
    | here fields es => rw [hp, List.append_nil]; exact mem_visits_self fields path es
    | @map fields inner last f name es fs gs p mem named type value rest ih =>
      have hm := @ih (path.key name) (by rw [hp, Path.key, List.append_assoc]; rfl)
      refine mem_visits_of_field mem ?_
      obtain ⟨_, _, required, choices, rule⟩ := f
      cases named
      cases type
      rwa [value, visits_mapOf]
    | @item fields inner last f name es fs gs p xs i mem named type value element rest ih =>
      have hm := @ih ((path.key name).item i)
        (by rw [hp, Path.item, Path.key, List.append_assoc, List.append_assoc]; rfl)
      refine mem_visits_of_field mem ?_
      obtain ⟨_, _, required, choices, rule⟩ := f
      cases named
      cases type
      obtain ⟨hi, hx⟩ := List.getElem?_eq_some_iff.1 element
      rw [value, visits_listOfMaps, List.mem_flatten]
      exact ⟨_, List.mem_mapIdx.2 ⟨i, hi, rfl⟩, by rwa [hx]⟩

/-- Steps from the root to a mapping that a check from there comes to are its place. -/
theorem leads_of_mem_visits {fields : List Field} {es : Entries} {m : Visit}
    (h : m ∈ visits fields [] es) : Leads fields es m.place m.fields m.entries := by
  obtain ⟨p, hp, hl⟩ := mem_visits_iff.1 h
  rwa [hp, List.nil_append]

theorem prefix_of_mem_visits {fields : List Field} {path : Path} {es : Entries} {m : Visit}
    (h : m ∈ visits fields path es) : path <+: m.place := by
  obtain ⟨p, hp, _⟩ := mem_visits_iff.1 h
  exact hp ▸ List.prefix_append path p

/-- What fields pass on to the fields inside them holds wherever steps lead. -/
theorem Leads.keeps {P : List Field → Prop}
    (hp : ∀ fields, P fields → ∀ f ∈ fields, ∀ inner,
      f.type = .mapOf inner ∨ f.type = .listOfMaps inner → P inner)
    {fields last : List Field} {es gs : Entries} {p : Path} (h : Leads fields es p last gs)
    (hf : P fields) : P last := by
  induction h with
  | here => exact hf
  | map mem _ type _ _ ih => exact ih (hp _ hf _ mem _ (.inl type))
  | item mem _ type _ _ _ ih => exact ih (hp _ hf _ mem _ (.inr type))

/-! ### Tests that hold throughout -/

/-- The fields inside a field. -/
def Field.inner (f : Field) : List Field :=
  match f.type with
  | .listOfMaps fields | .mapOf fields => fields
  | _ => []

theorem Field.inner_eq {f : Field} {fields : List Field}
    (h : f.type = .mapOf fields ∨ f.type = .listOfMaps fields) : f.inner = fields := by
  rcases h with h | h <;> rw [inner, h]

mutual

/-- Does a test hold of a field and of all fields inside it? -/
def Field.meets (test : Field → Bool) : Field → Bool
  | ⟨name, type, required, choices, rule⟩ =>
    test ⟨name, type, required, choices, rule⟩ && match type with
      | .listOfMaps fields | .mapOf fields => allMeet test fields
      | _ => true

def allMeet (test : Field → Bool) : List Field → Bool
  | [] => true
  | f :: fields => f.meets test && allMeet test fields

end

theorem allMeet_iff {test : Field → Bool} {fields : List Field} :
    allMeet test fields = true ↔ ∀ f ∈ fields, f.meets test = true := by
  induction fields with
  | nil => simp [allMeet]
  | cons f fields ih => simp [allMeet, ih]

theorem Field.meets_iff {test : Field → Bool} {f : Field} :
    f.meets test = true ↔ test f = true ∧ allMeet test f.inner = true := by
  obtain ⟨name, type, required, choices, rule⟩ := f
  cases type <;> simp [Field.meets, Field.inner, allMeet]

theorem test_of_mem_of_allMeet {test : Field → Bool} {fields : List Field}
    (h : allMeet test fields = true) {f : Field} (hf : f ∈ fields) : test f = true :=
  (Field.meets_iff.1 (allMeet_iff.1 h f hf)).1

/-- A test that holds throughout the fields holds throughout those that steps lead to. -/
theorem Leads.allMeet {test : Field → Bool} {fields last : List Field} {es gs : Entries} {p : Path}
    (h : Leads fields es p last gs) (hf : allMeet test fields = true) :
    allMeet test last = true :=
  h.keeps (P := (Schema.allMeet test · = true))
    (fun _ hf f hm _ ht => Field.inner_eq ht ▸ (Field.meets_iff.1 (allMeet_iff.1 hf f hm)).2) hf

theorem looksByName_of_mem_visits {fields : List Field} {path : Path} {es : Entries} {m : Visit}
    (h : m ∈ visits fields path es) (hl : lookByName fields = true) : lookByName m.fields = true := by
  obtain ⟨_, _, h⟩ := mem_visits_iff.1 h
  exact h.keeps (P := (lookByName · = true))
    (fun _ hl _ hf _ ht => lookByName_inner (mem_looksByName hl hf) ht) hl

/-! ### What is found at the mappings -/

/-- What is found at a field of a mapping, from the value of the field. -/
def Field.findings (f : Field) (inside : Path) (v : Value) : Findings :=
  if v.isNull then
    if f.required then .problem (inside.key f.name) (.missing f.name f.type.leading? inside) else {}
  else
    let found := f.checkType (inside.key f.name) v
    if found.violations.isEmpty then found ++ { violations := f.breaches (inside.key f.name) v }
    else found

theorem checkFields_cons (f : Field) (fs : List Field) (path : Path) (es : Entries) :
    checkFields (f :: fs) path es = f.findings path (es.get f.name) ++ checkFields fs path es := rfl

/-- The elements of a list that is put together from parts made of the elements of another. -/
theorem flatMap_flatten_mapIdx {α β γ : Type} (g : Nat → α → List β) (h : β → List γ)
    (xs : List α) : (xs.mapIdx g).flatten.flatMap h = xs.zipIdx.flatMap fun z => (g z.2 z.1).flatMap h := by
  rw [List.mapIdx_eq_zipIdx_map, ← List.flatMap_def, List.flatMap_assoc]

theorem flatMap_mapIdx {α β γ : Type} (g : Nat → α → β) (h : β → List γ) (xs : List α) :
    (xs.mapIdx g).flatMap h = xs.zipIdx.flatMap fun z => h (g z.2 z.1) := by
  rw [List.mapIdx_eq_zipIdx_map, List.flatMap_map]

/-- The warnings for the unknown keys of a mapping. -/
def Visit.warnings (m : Visit) : List Warning := unknownKeys m.fields m.place m.entries

mutual

theorem checkType_warnings_eq (f : Field) (path : Path) (v : Value) :
    (f.checkType path v).warnings = (f.visits path v).flatMap (·.warnings) := by
  match f with
  | ⟨name, .one t, required, choices, rule⟩ =>
    simp only [Field.checkType, visits_one]
    split <;> rfl
  | ⟨name, .oneOf ts, required, choices, rule⟩ =>
    simp only [Field.checkType, visits_oneOf]
    split <;> rfl
  | ⟨name, .listOf k, required, choices, rule⟩ =>
    rw [visits_listOf]
    cases v <;> rfl
  | ⟨name, .listOfMaps fields, required, choices, rule⟩ =>
    cases v with
    | list xs =>
      have hm (i : Nat) := checkFields_warnings_eq fields (path.item i)
      simp only [Field.checkType, join_warnings, visits_listOfMaps, flatMap_mapIdx,
        flatMap_flatten_mapIdx]
      refine List.flatMap_congr fun z _ => ?_
      cases z.1 with
      | map es => simp [itemVisits, visits, Visit.warnings, hm]
      | _ => rfl
    | _ => rfl
  | ⟨name, .mapOf fields, required, choices, rule⟩ =>
    cases v with
    | map es =>
      rw [visits_mapOf, visits, List.flatMap_append, ← checkFields_warnings_eq fields path es]
      simp [Field.checkType, Visit.warnings]
    | _ => rfl

theorem checkFields_warnings_eq (fields : List Field) (path : Path) (es : Entries) :
    (checkFields fields path es).warnings = (visitsIn fields path es).flatMap (·.warnings) := by
  match fields with
  | [] => rfl
  | f :: fs =>
    have ht := checkType_warnings_eq f (path.key f.name) (es.get f.name)
    have hf : (f.findings path (es.get f.name)).warnings =
        (f.visits (path.key f.name) (es.get f.name)).flatMap (·.warnings) := by
      cases hv : (es.get f.name).isNull with
      | true =>
        rw [Value.isNull_iff.1 hv, visits_null]
        cases hr : f.required <;> simp [Field.findings, Value.isNull, hr, Findings.problem]
      | false =>
        simp only [Field.findings, hv, Bool.false_eq_true, ↓reduceIte, ← ht]
        split <;> simp
    rw [checkFields_cons, Findings.warnings_append, visitsIn, List.flatMap_append, hf,
      checkFields_warnings_eq fs path es]

end

/-- A check warns of the unknown keys of the mappings that it comes to, in their order. -/
theorem checkMap_warnings_eq (fields : List Field) (path : Path) (es : Entries) :
    (checkMap fields path es).warnings = (visits fields path es).flatMap (·.warnings) := by
  simp [checkMap, visits, checkFields_warnings_eq, Visit.warnings]

/-- What is wrong with a value for its type, apart from the mappings inside it: the value itself
is not of the type, or elements of it are not. -/
def Field.misfits (f : Field) (path : Path) (v : Value) : List Violation :=
  match f.type, v with
  | .listOf k, .list xs => strangers k path xs
  | .listOfMaps _, .list xs => strangers .map path xs
  | .mapOf _, .map _ => []
  | .one t, v => if t.admits v then [] else (f.mismatch path v).violations
  | .oneOf ts, v => if ts.any (·.admits v) then [] else (f.mismatch path v).violations
  | _, v => (f.mismatch path v).violations

/-- What is wrong with a field of a mapping, apart from the mappings inside its value. -/
def Field.ownViolations (f : Field) (inside : Path) (v : Value) : List Violation :=
  let place := inside.key f.name
  if v.isNull then
    if f.required then [⟨place, .missing f.name f.type.leading? inside⟩] else []
  else
    f.misfits place v ++ if (f.checkType place v).violations.isEmpty then f.breaches place v else []

/-- What is wrong with the fields of a mapping, apart from the mappings inside it. -/
def Visit.violations (m : Visit) : List Violation :=
  m.fields.flatMap fun f => f.ownViolations m.place (m.entries.get f.name)

theorem strangers_eq_flatMap (k : Kind) (path : Path) (xs : List Value) :
    strangers k path xs = xs.zipIdx.flatMap fun z =>
      if k.admits z.1 then [] else [⟨path.item z.2, .wrongType k.name z.1.typeName none⟩] := by
  rw [strangers, List.mapIdx_eq_zipIdx_map, ← List.flatMap_def]

theorem perm_append_append {α : Type} (as bs cs ds : List α) :
    (as ++ bs ++ (cs ++ ds)).Perm (as ++ cs ++ (bs ++ ds)) := by
  rw [List.append_assoc, List.append_assoc]
  exact (List.perm_append_comm_assoc bs cs ds).append_left as

mutual

theorem checkType_violations_perm (f : Field) (path : Path) (v : Value) :
    (f.checkType path v).violations.Perm
      (f.misfits path v ++ (f.visits path v).flatMap (·.violations)) := by
  match f with
  | ⟨name, .one t, required, choices, rule⟩ =>
    simp only [Field.checkType, Field.misfits, visits_one, List.flatMap_nil, List.append_nil]
    split <;> rfl
  | ⟨name, .oneOf ts, required, choices, rule⟩ =>
    simp only [Field.checkType, Field.misfits, visits_oneOf, List.flatMap_nil, List.append_nil]
    split <;> rfl
  | ⟨name, .listOf k, required, choices, rule⟩ =>
    rw [visits_listOf, List.flatMap_nil, List.append_nil]
    cases v <;> rfl
  | ⟨name, .listOfMaps fields, required, choices, rule⟩ =>
    cases v with
    | list xs =>
      have hm (i : Nat) := checkFields_violations_perm fields (path.item i)
      simp only [Field.checkType, Field.misfits, join_violations, strangers_eq_flatMap,
        visits_listOfMaps, flatMap_mapIdx, flatMap_flatten_mapIdx]
      refine List.Perm.trans ?_ (List.flatMap_append_perm ..).symm
      refine List.Perm.flatMap_left _ fun z _ => ?_
      cases z.1 with
      | map es =>
        simp only [Kind.admits, ↓reduceIte, List.nil_append, itemVisits, visits,
          Findings.violations_append, List.append_nil, List.flatMap_append, List.flatMap_singleton]
        exact (hm z.2 es).trans List.perm_append_comm
      | _ => rfl
    | _ => simp [Field.checkType, Field.misfits, Field.visits]
  | ⟨name, .mapOf fields, required, choices, rule⟩ =>
    cases v with
    | map es =>
      have hm := checkFields_violations_perm fields path es
      simp only [Field.checkType, Field.misfits, visits_mapOf, visits, List.nil_append,
        Findings.violations_append, List.append_nil, List.flatMap_append, List.flatMap_singleton]
      exact hm.trans List.perm_append_comm
    | _ => simp [Field.checkType, Field.misfits, Field.visits]

/-- What is wrong with the fields of a mapping, and then with those of the mappings inside it. -/
theorem checkFields_violations_perm (fields : List Field) (path : Path) (es : Entries) :
    (checkFields fields path es).violations.Perm (Visit.violations ⟨fields, path, es⟩ ++
      (visitsIn fields path es).flatMap (·.violations)) := by
  match fields with
  | [] => rfl
  | f :: fs =>
    have ht := checkType_violations_perm f (path.key f.name) (es.get f.name)
    have hf : (f.findings path (es.get f.name)).violations.Perm
        (f.ownViolations path (es.get f.name) ++
          (f.visits (path.key f.name) (es.get f.name)).flatMap (·.violations)) := by
      cases hv : (es.get f.name).isNull with
      | true =>
        rw [Value.isNull_iff.1 hv, visits_null]
        cases hr : f.required <;>
          simp [Field.findings, Field.ownViolations, Value.isNull, hr, Findings.problem]
      | false =>
        simp only [Field.findings, Field.ownViolations, hv, Bool.false_eq_true, ↓reduceIte]
        split
        · rw [Findings.violations_append, List.append_assoc]
          exact (ht.append_right _).trans (by
            rw [List.append_assoc]
            exact List.perm_append_comm.append_left _)
        · rwa [List.append_nil]
    have hs := checkFields_violations_perm fs path es
    rw [checkFields_cons, Findings.violations_append, visitsIn, List.flatMap_append]
    exact (hf.append hs).trans (perm_append_append ..)

end

/-- A check finds what is wrong with the fields of the mappings that it comes to. -/
theorem checkMap_violations_perm (fields : List Field) (path : Path) (es : Entries) :
    (checkMap fields path es).violations.Perm ((visits fields path es).flatMap (·.violations)) := by
  rw [visits, List.flatMap_append, List.flatMap_singleton, checkMap, Findings.violations_append,
    List.append_nil]
  exact (checkFields_violations_perm fields path es).trans List.perm_append_comm

end ShellCompletion.Schema
