import ShellCompletion.Proofs.Schema.Reports

/-! How far the faults of one element of a list of mappings reach. What is wrong with an element
is at its place or inside it. The main statement takes two mappings that differ at most in one
element, and says that a check finds the same violations in the same order, apart from those of
that element and those of the rule of the list. -/
namespace ShellCompletion.Schema

open Document

/-- The mappings differ at most in one element of a list; the lists are equally long. -/
structure DifferAt (key : String) (i : Nat) (es fs : Entries) : Prop where
  others : ∀ name ≠ key, es.get name = fs.get name
  lists : ∃ xs ys, es.get key = .list xs ∧ fs.get key = .list ys ∧ xs.length = ys.length ∧
    ∀ j ≠ i, xs[j]? = ys[j]?

/-- Another value in the place of one element. -/
theorem differAt_replace {front : Entries} {key : String} (hk : front.find? key = none)
    (back : Entries) (before after : List Value) (x y : Value) :
    DifferAt key before.length (front ++ (.str key, .list (before ++ x :: after)) :: back)
      (front ++ (.str key, .list (before ++ y :: after)) :: back) := by
  have hg (xs : List Value) : Entries.get (front ++ (.str key, .list xs) :: back) key = .list xs := by
    rw [Entries.get, Entries.find?_append_cons_self, hk]
    rfl
  refine ⟨fun name hn => ?_, _, _, hg _, hg _, by simp, fun j hj => ?_⟩
  · have hne : (Value.str key).isKey name = false := by simpa [Value.isKey] using Ne.symm hn
    rw [Entries.get, Entries.get, Entries.find?_append_cons_of_ne hne,
      Entries.find?_append_cons_of_ne hne]
  · rcases Nat.lt_or_gt_of_ne hj with hj | hj
    · rw [List.getElem?_append_left hj, List.getElem?_append_left hj]
    · obtain ⟨k, hk⟩ := Nat.exists_eq_add_of_lt hj
      have hle := Nat.le_of_lt hj
      rw [List.getElem?_append_right hle, List.getElem?_append_right hle,
        show j - before.length = k + 1 by omega, List.getElem?_cons_succ, List.getElem?_cons_succ]

/-! ### Where violations are -/

theorem path_of_mem_breaches {f : Field} {path : Path} {x : Value} {v : Violation}
    (h : v ∈ f.breaches path x) : v.path = path := by
  rw [Field.breaches, List.mem_append] at h
  rcases h with h | h
  · split at h
    · split at h <;> simp_all
    · cases h
  · split at h
    · obtain ⟨c, _, rfl⟩ := List.mem_map.1 h
      rfl
    · cases h

/-- What is wrong with a field of a mapping is at the place of the field or inside it. -/
theorem prefix_of_mem_ownViolations {f : Field} {inside : Path} {x : Value} {v : Violation}
    (h : v ∈ f.ownViolations inside x) : inside.key f.name <+: v.path := by
  rcases (reports_of_mem_ownViolations h).path_eq with h | ⟨i, h⟩
  · exact h ▸ List.prefix_rfl
  · exact h ▸ List.prefix_append ..

/-- What a check of a mapping finds is at the place of the mapping or inside it. -/
theorem prefix_of_mem_checkMap {fields : List Field} {path : Path} {es : Entries} {v : Violation}
    (h : v ∈ (checkMap fields path es).violations) : path <+: v.path := by
  rw [(checkMap_violations_perm fields path es).mem_iff] at h
  obtain ⟨m, hm, h⟩ := List.mem_flatMap.1 h
  obtain ⟨f, _, h⟩ := List.mem_flatMap.1 h
  have hmf : m.place <+: m.place.key f.name := List.prefix_append ..
  exact (prefix_of_mem_visits hm).trans (hmf.trans (prefix_of_mem_ownViolations h))

/-! ### Elements of a list of mappings -/

/-- What is found at an element of a list of mappings. -/
def itemFindings (fields : List Field) (path : Path) : Value → Findings
  | .map es => checkMap fields path es
  | x => .problem path (.wrongType Kind.map.name x.typeName none)

theorem checkType_listOfMaps (name : String) (required : Bool) (choices : Option (List Value))
    (rule : Option Rule) (path : Path) (fields : List Field) (xs : List Value) :
    Field.checkType ⟨name, .listOfMaps fields, required, choices, rule⟩ path (.list xs) =
      .join (xs.mapIdx fun i x => itemFindings fields (path.item i) x) := by
  simp only [Field.checkType]
  congr 2

theorem prefix_of_mem_itemFindings {fields : List Field} {path : Path} {x : Value} {v : Violation}
    (h : v ∈ (itemFindings fields path x).violations) : path <+: v.path := by
  cases x with
  | map es => exact prefix_of_mem_checkMap h
  | _ =>
    obtain rfl := List.mem_singleton.1 h
    exact List.prefix_rfl

/-- Parts made of elements add up to the same when the one part that may differ is left out. -/
theorem filter_flatten_mapIdx_eq {α β : Type} {xs ys : List α} {i : Nat}
    (hl : xs.length = ys.length) (h : ∀ j ≠ i, xs[j]? = ys[j]?) (g : Nat → α → List β)
    (keep : β → Bool) (hi : ∀ x, (g i x).filter keep = []) :
    (xs.mapIdx g).flatten.filter keep = (ys.mapIdx g).flatten.filter keep := by
  rw [List.filter_flatten, List.filter_flatten]
  refine congrArg List.flatten (List.ext_getElem (by simpa using hl) fun j hx hy => ?_)
  simp only [List.getElem_map, List.getElem_mapIdx]
  by_cases hj : j = i
  · subst hj
    rw [hi, hi]
  · simp only [List.length_map, List.length_mapIdx] at hx hy
    have he := h j hj
    rw [List.getElem?_eq_getElem hx, List.getElem?_eq_getElem hy, Option.some.injEq] at he
    rw [he]

variable {key : String} {i : Nat} {es fs : Entries} {fields : List Field} {path : Path}
  {keep : Violation → Bool}

/-- The field of the list finds the same apart from what is left out. -/
theorem filter_findings_eq {f : Field} {inner : List Field} (ht : f.type = .listOfMaps inner)
    {xs ys : List Value} (hl : xs.length = ys.length) (h : ∀ j ≠ i, xs[j]? = ys[j]?)
    (hi : ∀ v : Violation, (path.key f.name).item i <+: v.path → keep v = false)
    (hr : ∀ x, ∀ v ∈ f.breaches (path.key f.name) x, keep v = false) :
    (f.findings path (.list xs)).violations.filter keep =
      (f.findings path (.list ys)).violations.filter keep := by
  obtain ⟨name, _, required, choices, rule⟩ := f
  cases ht
  have hf (zs : List Value) :
      (Field.findings ⟨name, .listOfMaps inner, required, choices, rule⟩ path
        (.list zs)).violations.filter keep =
      (zs.mapIdx fun j x =>
        (itemFindings inner ((path.key name).item j) x).violations).flatten.filter keep := by
    have hb : (Field.breaches ⟨name, .listOfMaps inner, required, choices, rule⟩ (path.key name)
        (.list zs)).filter keep = [] :=
      List.filter_eq_nil_iff.2 fun v hv => by simp [hr (.list zs) v hv]
    have hj : (Findings.join (zs.mapIdx fun j x =>
        itemFindings inner ((path.key name).item j) x)).violations =
          (zs.mapIdx fun j x =>
            (itemFindings inner ((path.key name).item j) x).violations).flatten := by
      rw [join_violations, flatMap_mapIdx, List.mapIdx_eq_zipIdx_map, ← List.flatMap_def]
    simp only [Field.findings, Value.isNull, Bool.false_eq_true, ↓reduceIte, checkType_listOfMaps]
    split
    · rw [Findings.violations_append, List.filter_append, hb, List.append_nil, hj]
    · rw [hj]
  rw [hf, hf]
  refine filter_flatten_mapIdx_eq hl h _ keep fun x => List.filter_eq_nil_iff.2 fun v hv => ?_
  simp [hi v (prefix_of_mem_itemFindings hv)]

/-- Two mappings that differ at most in one element of a list of mappings: a check finds the same
in both, in the same order, if what concerns the element and the rule of the list is left out. -/
theorem DifferAt.filter_violations_eq (h : DifferAt key i es fs)
    (ht : ∀ f ∈ fields, f.name = key → ∃ inner, f.type = .listOfMaps inner)
    (hi : ∀ v : Violation, (path.key key).item i <+: v.path → keep v = false)
    (hr : ∀ f ∈ fields, f.name = key → ∀ x, ∀ v ∈ f.breaches (path.key key) x, keep v = false) :
    (checkMap fields path es).violations.filter keep =
      (checkMap fields path fs).violations.filter keep := by
  obtain ⟨xs, ys, hx, hy, hl, hxy⟩ := h.lists
  simp only [checkMap, Findings.violations_append, List.append_nil]
  induction fields with
  | nil => rfl
  | cons f fields ih =>
    rw [List.forall_mem_cons] at ht hr
    have hf : (f.findings path (es.get f.name)).violations.filter keep =
        (f.findings path (fs.get f.name)).violations.filter keep := by
      by_cases hn : f.name = key
      · subst hn
        obtain ⟨inner, hti⟩ := ht.1 rfl
        rw [hx, hy]
        exact filter_findings_eq hti hl hxy hi (hr.1 rfl)
      · rw [h.others f.name hn]
    rw [checkFields_cons, checkFields_cons, Findings.violations_append, Findings.violations_append,
      List.filter_append, List.filter_append, hf, ih ht.2 hr.2]

end ShellCompletion.Schema
