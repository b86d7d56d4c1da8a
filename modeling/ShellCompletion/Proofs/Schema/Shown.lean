import ShellCompletion.Proofs.Schema.Complaints
import ShellCompletion.Proofs.Schema.Depth
import ShellCompletion.Schema.Shown

/-! What a check shows on its way. The main statements say that the warnings among it are those of
the check, in their order, and that unrolling a document in which nothing refers to a container
around it changes nothing that is shown. -/
namespace ShellCompletion.Schema

open Document

/-- What is shown of an element of a list of mappings. -/
def itemShown (fields : List Field) (path : Path) : Value → List Shown
  | .map es => mapShown fields path es
  | _ => []

section

variable (name : String) (required : Bool) (choices : Option (List Value)) (rule : Option Rule)
  (path : Path) (fields : List Field)

theorem typeShown_listOfMaps (xs : List Value) :
    Field.typeShown ⟨name, .listOfMaps fields, required, choices, rule⟩ path (.list xs) =
      (xs.mapIdx fun i x => itemShown fields (path.item i) x).flatten := by
  simp only [Field.typeShown]
  congr 2

theorem typeShown_mapOf (v : Value) :
    Field.typeShown ⟨name, .mapOf fields, required, choices, rule⟩ path v =
      itemShown fields path v := by
  cases v <;> simp only [Field.typeShown, itemShown, mapShown]

end

/-! ### The warnings of a check -/

theorem keysShown_warnings (fields : List Field) (path : Path) (es : Entries) :
    (keysShown fields path es).filterMap (·.warning?) = unknownKeys fields path es := by
  rw [keysShown, unknownKeys, List.filterMap_filterMap]
  refine List.filterMap_congr fun e _ => ?_
  simp only
  split <;> rfl

theorem values_warnings (vs : List Value) :
    (vs.map Shown.value).filterMap (·.warning?) = [] := by
  simp [List.filterMap_map, Shown.warning?]

theorem breachesShown_warnings (f : Field) (v : Value) :
    (f.breachesShown v).filterMap (·.warning?) = [] := by
  rw [Field.breachesShown, List.filterMap_append, List.append_eq_nil_iff]
  constructor
  · cases f.choices with
    | none => rfl
    | some cs =>
      simp only
      split
      · rfl
      · exact values_warnings _
  · cases f.rule with
    | none => rfl
    | some r => exact values_warnings _

mutual

theorem typeShown_warnings (f : Field) (path : Path) (v : Value) :
    (f.typeShown path v).filterMap (·.warning?) = (f.checkType path v).warnings := by
  match f with
  | ⟨name, .one t, required, choices, rule⟩ =>
    simp only [Field.typeShown, Field.checkType]
    split <;> rfl
  | ⟨name, .oneOf ts, required, choices, rule⟩ =>
    simp only [Field.typeShown, Field.checkType]
    split <;> rfl
  | ⟨name, .listOf k, required, choices, rule⟩ => cases v <;> rfl
  | ⟨name, .listOfMaps fields, required, choices, rule⟩ =>
    cases v with
    | list xs =>
      simp only [typeShown_listOfMaps, Field.checkType, join_warnings, List.filterMap_flatten,
        ← List.flatMap_def, flatMap_mapIdx]
      refine List.flatMap_congr fun z _ => ?_
      cases z.1 with
      | map es =>
        simp [itemShown, mapShown, List.filterMap_append, keysShown_warnings,
          fieldsShown_warnings fields (path.item z.2) es]
      | _ => rfl
    | _ => rfl
  | ⟨name, .mapOf fields, required, choices, rule⟩ =>
    cases v with
    | map es =>
      simp [typeShown_mapOf, itemShown, mapShown, Field.checkType, List.filterMap_append,
        keysShown_warnings, fieldsShown_warnings fields path es]
    | _ => rfl

theorem fieldsShown_warnings (fields : List Field) (path : Path) (es : Entries) :
    (fieldsShown fields path es).filterMap (·.warning?) =
      (checkFields fields path es).warnings := by
  match fields with
  | [] => rfl
  | f :: fields =>
    have types := typeShown_warnings f (path.key f.name) (es.get f.name)
    simp only [fieldsShown, checkFields, List.filterMap_append, Findings.warnings_append,
      fieldsShown_warnings fields path es]
    refine congrArg (· ++ _) ?_
    cases (es.get f.name).isNull with
    | true => cases f.required <;> rfl
    | false =>
      simp only [Bool.false_eq_true, ↓reduceIte, List.filterMap_append, types]
      split <;> simp [breachesShown_warnings]

end

/-- The warnings among what is shown are those of the check. -/
theorem mapShown_warnings (fields : List Field) (path : Path) (es : Entries) :
    (mapShown fields path es).filterMap (·.warning?) = (checkMap fields path es).warnings := by
  simp only [mapShown, checkMap, List.filterMap_append, Findings.warnings_append,
    fieldsShown_warnings, keysShown_warnings]

/-- The warnings before something that can not be shown are the first ones of the check. -/
theorem prefix_of_warnedBefore? {fields : List Field} {path : Path} {es : Entries}
    {ws : List Warning} (h : warnedBefore? (mapShown fields path es) = some ws) :
    ws <+: (checkMap fields path es).warnings := by
  unfold warnedBefore? at h
  split at h
  · cases h
  · cases h
    rw [← mapShown_warnings]
    exact (List.takeWhile_prefix _).filterMap _

/-! ### Unrolled documents -/

theorem Entries.get_unroll (depth : Nat) (around : List Value) (es : Entries) (name : String) :
    (es.unroll depth around).get name = (es.get name).unroll depth around := by
  rw [Entries.get, Entries.get, Entries.find?_unroll]
  cases es.find? name with
  | some v => rfl
  | none => cases depth <;> rfl

theorem isWhole_get {es : Entries} (h : Value.haveWhole es = true) (name : String) :
    (es.get name).isWhole = true := by
  rw [Entries.get]
  cases hf : es.find? name with
  | none => rfl
  | some v =>
    obtain ⟨e, he, rfl⟩ := Option.map_eq_some_iff.1 hf
    exact Value.haveWhole_iff.1 h e (List.mem_of_find?_eq_some he)

/-- Keys are not unrolled. -/
theorem keysShown_unroll (fields : List Field) (path : Path) (depth : Nat) (around : List Value)
    (es : Entries) : keysShown fields path (es.unroll depth around) = keysShown fields path es := by
  simp only [keysShown, Entries.unroll, List.filterMap_map]
  rfl

theorem indexAt?_eq {fields : List Field} (hn : hasName fields "index" = true) {xs ys : List Value}
    (h : List.Forall₂ (AlikeItems fields) xs ys) (i : Nat) : indexAt? xs i = indexAt? ys i := by
  have indices : xs.map SlotKey.ofElement? = ys.map SlotKey.ofElement? :=
    map_eq_of_forall₂ h fun x y hxy => ofElement?_eq hn hxy
  have at? (zs : List Value) : indexAt? zs i = (zs.map SlotKey.ofElement?)[i]?.join := by
    rw [indexAt?, List.getElem?_map]
    cases zs[i]? <;> rfl
  rw [at?, at?, indices]

/-- What a rule that looks by name complains of shows the same of values of the type of its field
that the field can not tell apart. -/
theorem shown?_eq {f : Field} {r : Rule} (hr : r.looksByName f.type = true) {v w : Value}
    (h : f.Alike v w) (ht : f.Types v) {c : Complaint} (hc : c ∈ r.complaints v) :
    c.shown? v = c.shown? w := by
  obtain rfl | ⟨fields, es, fs, htype, rfl, rfl, hA⟩ | ⟨fields, xs, ys, htype, rfl, rfl, hA⟩ :=
    h.cases_of_types ht
  · rfl
  · rw [htype] at hr
    cases r with
    | oneSource =>
      simp only [Rule.complaints, sourceComplaints] at hc
      split at hc <;> simp_all [Complaint.shown?]
    | _ => simp [Rule.looksByName] at hr
  · rw [htype] at hr
    cases r with
    | distinctSlots =>
      rw [Rule.complaints, repeatedIndices_nil, List.mem_filterMap] at hc
      obtain ⟨i, _, hc⟩ := hc
      obtain ⟨k, j, rfl⟩ := exists_of_repeatAt?_eq_some hc
      exact congrArg (Option.map SlotKey.value) (indexAt?_eq hr hA i)
    | _ => simp [Rule.looksByName] at hr

theorem breachesShown_eq {f : Field} (hf : f.looksByName = true) {v w : Value}
    (h : f.Alike v w) (ht : f.Types v) : f.breachesShown v = f.breachesShown w := by
  obtain ⟨hc, hr⟩ := looksByName_cases hf h ht
  obtain rfl | hc := hc
  · rfl
  · cases hrule : f.rule with
    | none => simp only [Field.breachesShown, hc, hrule]
    | some r =>
      have shown : (r.complaints v).filterMap (·.shown? v) =
          (r.complaints w).filterMap (·.shown? w) := by
        rw [← complaints_eq (hr r hrule) h ht]
        exact List.filterMap_congr fun c => shown?_eq (hr r hrule) h ht
      simp only [Field.breachesShown, hc, hrule, shown]

/-- Unrolled mappings show the same if their fields do: keys are not unrolled. -/
theorem mapShown_unroll_of_fields {fields : List Field} {depth : Nat} {around : List Value}
    {path : Path} {es : Entries}
    (h : fieldsShown fields path (es.unroll depth around) = fieldsShown fields path es) :
    mapShown fields path (es.unroll depth around) = mapShown fields path es := by
  rw [mapShown, mapShown, h, keysShown_unroll]

theorem itemShown_unroll {fields : List Field} {depth : Nat}
    (h : ∀ path around es, Value.haveWhole es = true →
      fieldsShown fields path (Entries.unroll depth around es) = fieldsShown fields path es)
    {x : Value} (hx : x.isWhole = true) (path : Path) (around : List Value) :
    itemShown fields path x = itemShown fields path (x.unroll (depth + 1) around) := by
  obtain ⟨es, rfl⟩ | noMap := eq_map_or_not x
  · exact (mapShown_unroll_of_fields (h path _ es hx)).symm
  · have unrolled : x = x.unroll (depth + 1) around ∨ SameOutside x (x.unroll (depth + 1) around) :=
      unroll_cases hx
    obtain same | outside := unrolled
    · rw [← same]
    · generalize x.unroll (depth + 1) around = y at outside ⊢
      cases outside with
      | map es fs => simp [Kind.admits] at noMap
      | _ => rfl

mutual

theorem typeShown_unroll {f : Field} {depth : Nat} (hd : f.looksTo depth = true)
    (hf : f.looksByName = true) (path : Path) {v : Value} (hv : v.isWhole = true)
    (around : List Value) : f.typeShown path v = f.typeShown path (v.unroll depth around) := by
  match f with
  | ⟨name, .one t, required, choices, rule⟩ => simp only [Field.typeShown]
  | ⟨name, .oneOf ts, required, choices, rule⟩ => simp only [Field.typeShown]
  | ⟨name, .listOf k, required, choices, rule⟩ => simp only [Field.typeShown]
  | ⟨name, .listOfMaps fields, required, choices, rule⟩ =>
    simp only [Field.looksTo, Bool.and_eq_true, decide_eq_true_eq] at hd
    simp only [Field.looksByName, Bool.and_eq_true] at hf
    obtain ⟨depth, rfl⟩ := Nat.exists_eq_add_of_le' hd.1
    rw [Nat.add_sub_cancel] at hd
    obtain ⟨xs, rfl⟩ | noList := eq_list_or_not v
    · -- one level is the list, and the other one its elements
      obtain ⟨ys, hys, items⟩ := forall₂_unroll
        (R := fun x y => ∀ path, itemShown fields path x = itemShown fields path y) hv
        fun x hx path => itemShown_unroll (fun path around es hes =>
          fieldsShown_unroll hd.2 hf.2 path hes around) hx path (.list xs :: around)
      have shown := map_mapIdx_eq_of_forall₂ (u := id) (v := id)
        (f := fun i x => itemShown fields (path.item i) x) items fun i x y hxy => hxy _
      simp only [List.map_id] at shown
      rw [hys, typeShown_listOfMaps, typeShown_listOfMaps, shown]
    · have unrolled : v = v.unroll (depth + 2) around ∨
          SameOutside v (v.unroll (depth + 2) around) := unroll_cases hv
      obtain same | outside := unrolled
      · rw [← same]
      · generalize v.unroll (depth + 2) around = w at outside ⊢
        cases outside with
        | list xs ys => simp [Kind.admits] at noList
        | _ => simp only [Field.typeShown]
  | ⟨name, .mapOf fields, required, choices, rule⟩ =>
    simp only [Field.looksTo, Bool.and_eq_true, decide_eq_true_eq] at hd
    simp only [Field.looksByName, Bool.and_eq_true] at hf
    obtain ⟨depth, rfl⟩ := Nat.exists_eq_add_of_le' hd.1
    rw [typeShown_mapOf, typeShown_mapOf]
    exact itemShown_unroll (fun path around es hes =>
      fieldsShown_unroll hd.2 hf.2 path hes around) hv path around

theorem fieldsShown_unroll {fields : List Field} {depth : Nat} (hd : lookTo depth fields = true)
    (hl : lookByName fields = true) (path : Path) {es : Entries}
    (hes : Value.haveWhole es = true) (around : List Value) :
    fieldsShown fields path (es.unroll depth around) = fieldsShown fields path es := by
  match fields with
  | [] => rfl
  | f :: fields =>
    simp only [lookTo, Bool.and_eq_true] at hd
    simp only [lookByName, Bool.and_eq_true] at hl
    have hv := isWhole_get hes f.name
    have alike := alike_unroll hd.1 hv around
    have types := checkType_violations_eq hl.1.2 (path.key f.name) alike
    simp only [fieldsShown, Entries.get_unroll, ← alike.isNull_eq, ← types,
      fieldsShown_unroll hd.2 hl.2 path hes around, ← typeShown_unroll hd.1 hl.1.2 _ hv around]
    refine congrArg (· ++ _) ?_
    split
    · rfl
    · refine congrArg (_ ++ ·) ?_
      split
      · next fits =>
        rw [List.isEmpty_iff, checkType_violations_eq_nil_iff] at fits
        exact (breachesShown_eq hl.1.2 alike fits).symm
      · rfl

end

/-- Unrolling a mapping changes nothing that is shown, if fields look no deeper. -/
theorem mapShown_unroll {fields : List Field} {depth : Nat} (hd : lookTo depth fields = true)
    (hl : lookByName fields = true) (path : Path) {es : Entries}
    (hes : Value.haveWhole es = true) (around : List Value) :
    mapShown fields path (es.unroll depth around) = mapShown fields path es :=
  mapShown_unroll_of_fields (fieldsShown_unroll hd hl path hes around)

end ShellCompletion.Schema
