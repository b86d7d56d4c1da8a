import ShellCompletion.Proofs.Schema.Complaints
import ShellCompletion.Proofs.Schema.Reports
import ShellCompletion.Proofs.Text.Numeral
import ShellCompletion.Proofs.Text.Telling

/-! No report comes twice. Reports of different fields are at different places, and those of one
field that are at one place say different things: the choices of the field and its rule are
looked at once, and a rule says of each element at most once what is wrong with it. The main
statement says this of a check as a whole, of places together with messages. -/
namespace ShellCompletion.Schema

open Document

/-! ### Messages of complaints -/

theorem Complaint.message_emptyElement (i : Nat) :
    (emptyElement i).message = "Element " ++ toString i ++ " must not be empty" := rfl

theorem Complaint.message_badIndex (literal : String) :
    (badIndex literal).message = "Expected a positive integer or 'all', got " ++ literal := rfl

theorem Complaint.message_repeatedIndex (i : Nat) (s : String) (j : Nat) :
    (repeatedIndex i s j).message = "args[" ++ toString i ++ "] repeats index " ++ s ++
      " already used by args[" ++ toString j ++ "]" := rfl

theorem Complaint.message_emptyElement_inj {i j : Nat}
    (h : (emptyElement i).message = (emptyElement j).message) : i = j := by
  have h := congrArg String.toList h
  simp only [message_emptyElement, String.toList_append, List.append_cancel_left_eq,
    List.append_cancel_right_eq] at h
  exact Text.toString_injective (String.toList_inj.1 h)

/-- The number of the element is told by the bracket after it. -/
theorem Complaint.message_repeatedIndex_inj {i j k l : Nat} {s t : String}
    (h : (repeatedIndex i s k).message = (repeatedIndex j t l).message) : i = j := by
  have hc : "] repeats index ".toList = ']' :: " repeats index ".toList := by rfl
  have h := congrArg String.toList h
  simp only [message_repeatedIndex, String.toList_append, List.append_assoc,
    List.append_cancel_left_eq, hc, List.cons_append] at h
  rw [Text.append_cons_inj_of_not_mem (Text.not_mem_toString (by decide) i)
    (Text.not_mem_toString (by decide) j)] at h
  exact Text.toString_injective (String.toList_inj.1 h.1)

theorem nodup_message_emptyElements (n : Nat) (xs : List Value) :
    ((emptyElements n xs).map Complaint.message).Nodup := by
  induction xs generalizing n with
  | nil => exact .nil
  | cons x xs ih =>
    rw [emptyElements]
    split
    · rw [List.map_cons, List.nodup_cons]
      refine ⟨fun h => ?_, ih (n + 1)⟩
      obtain ⟨c, hc, hm⟩ := List.mem_map.1 h
      obtain ⟨k, _, rfl⟩ := mem_emptyElements_iff.1 hc
      have := Complaint.message_emptyElement_inj hm
      omega
    · exact ih (n + 1)

theorem nodup_message_repeatedIndices (xs : List Value) :
    ((repeatedIndices [] 0 xs).map Complaint.message).Nodup := by
  rw [repeatedIndices_nil, List.map_filterMap]
  refine List.Nodup.filterMap (fun i j m hi hj => ?_) List.nodup_range
  have hr (i : Nat) (hi : m ∈ (repeatAt? xs i).map Complaint.message) :
      ∃ s k, (Complaint.repeatedIndex i s k).message = m := by
    obtain ⟨c, hc, rfl⟩ := Option.map_eq_some_iff.1 hi
    obtain ⟨_, k, rfl⟩ := exists_of_repeatAt?_eq_some hc
    exact ⟨_, k, rfl⟩
  obtain ⟨s, k, hi⟩ := hr i hi
  obtain ⟨t, l, hj⟩ := hr j hj
  exact Complaint.message_repeatedIndex_inj (hi.trans hj.symm)

/-- A rule does not say one thing twice. -/
theorem Rule.nodup_message_complaints (r : Rule) (x : Value) :
    ((r.complaints x).map Complaint.message).Nodup := by
  cases r with
  | notEmpty | notEmptyList =>
    rw [complaints]
    split <;> simp
  | slotIndex =>
    have h : indexComplaints x = [] ∨ indexComplaints x = [.badIndex x.literal] := ite_eq_or_eq ..
    rcases h with h | h <;> simp [complaints, h]
  | oneSource =>
    cases x with
    | map es =>
      rw [complaints, sourceComplaints]
      split <;> simp
    | _ => simp [complaints]
  | noEmptyElements =>
    cases x with
    | list xs => exact nodup_message_emptyElements 0 xs
    | map es => exact nodup_message_emptyElements 0 _
    | _ => simp [complaints]
  | distinctSlots =>
    cases x with
    | list xs => exact nodup_message_repeatedIndices xs
    | _ => simp [complaints]

/-- What is said of a value that is no choice is said by no rule. -/
theorem Complaint.message_ne_noChoice (c : Complaint) (literal : String) (choices : List String) :
    (Problem.noChoice literal choices).message ≠ c.message := by
  have hn : (Problem.noChoice literal choices).message.toList.head? = some 'I' := by
    rw [show (Problem.noChoice literal choices).message = "Invalid value " ++ literal from rfl,
      String.toList_append]
    rfl
  have hc : c.message.toList.head? ≠ some 'I' := by
    cases c with
    | emptyElement i =>
      rw [message_emptyElement, String.append_assoc, String.toList_append]
      simp
    | badIndex literal =>
      rw [message_badIndex, String.toList_append]
      simp
    | repeatedIndex i s j =>
      simp only [message_repeatedIndex, String.append_assoc]
      rw [String.toList_append]
      simp
    | _ => decide
  intro h
  exact hc (h ▸ hn)

/-! ### Reports of a field -/

theorem nodup_strangers (k : Kind) (path : Path) (xs : List Value) :
    ((strangers k path xs).map (·.path)).Nodup := by
  rw [strangers_eq_flatMap, List.map_flatMap, List.nodup_flatMap]
  refine ⟨fun z _ => ?_, List.pairwise_iff_getElem.2 fun i j hi hj hij p hp hq => ?_⟩
  · split <;> simp
  · simp only [List.getElem_zipIdx] at hp hq
    split at hp <;> split at hq <;> simp_all [Path.item]

theorem nodup_misfits (f : Field) (path : Path) (x : Value) :
    ((f.misfits path x).map (·.path)).Nodup := by
  unfold Field.misfits
  split
  · exact nodup_strangers ..
  · exact nodup_strangers ..
  · exact .nil
  · split <;> simp [Field.mismatch, Findings.problem]
  · split <;> simp [Field.mismatch, Findings.problem]
  · simp [Field.mismatch, Findings.problem]

theorem nodup_breaches (f : Field) (path : Path) (x : Value) :
    ((f.breaches path x).map (·.message)).Nodup := by
  rw [Field.breaches, List.map_append, List.nodup_append]
  refine ⟨?_, ?_, fun m hm n hn => ?_⟩
  · split
    · split <;> simp
    · exact .nil
  · split
    · next r hr =>
      rw [List.map_map]
      exact r.nodup_message_complaints x
    · exact .nil
  · obtain ⟨v, hv, rfl⟩ := List.mem_map.1 hm
    obtain ⟨w, hw, rfl⟩ := List.mem_map.1 hn
    split at hv
    · split at hv
      · cases hv
      · obtain rfl := List.mem_singleton.1 hv
        split at hw
        · obtain ⟨c, _, rfl⟩ := List.mem_map.1 hw
          exact c.message_ne_noChoice _ _
        · cases hw
    · cases hv

/-- What is told of a violation apart from advice: where it is and what it is. -/
def Violation.report (v : Violation) : Path × String := (v.path, v.message)

theorem nodup_report_ownViolations (f : Field) (inside : Path) (x : Value) :
    ((f.ownViolations inside x).map (·.report)).Nodup := by
  have hm : ((f.misfits (inside.key f.name) x).map (·.report)).Nodup :=
    .of_map Prod.fst (by rw [List.map_map]; exact nodup_misfits ..)
  have hb : ((f.breaches (inside.key f.name) x).map (·.report)).Nodup :=
    .of_map Prod.snd (by rw [List.map_map]; exact nodup_breaches ..)
  rw [Field.ownViolations]
  split
  · split <;> simp
  · split
    · next ht =>
      -- nothing is wrong with the type, so only what the choices and the rule say is left
      have hp := checkType_violations_perm f (inside.key f.name) x
      rw [List.isEmpty_iff.1 ht] at hp
      rw [(List.append_eq_nil_iff.1 (List.nil_perm.1 hp)).1]
      exact hb
    · rwa [List.append_nil]

theorem Field.Reports.eq_of_path_eq {f g : Field} {inside other : Path} {x y : Value}
    {v w : Violation} (h : f.Reports inside x v) (hw : g.Reports other y w) (hp : v.path = w.path) :
    inside = other ∧ f.name = g.name := by
  have hn {p q : Path} {m n : String} {i : Nat} (he : p.key m = (q.key n).item i) : False := by
    cases (List.append_inj' he rfl).2
  rcases h.path_eq with h | ⟨i, h⟩ <;> rcases hw.path_eq with hw | ⟨j, hw⟩ <;> rw [h, hw] at hp
  · exact Path.key_injective hp
  · exact (hn hp).elim
  · exact (hn hp.symm).elim
  · exact Path.key_injective (List.append_inj' hp rfl).1

theorem pairwise_name_ne {fields : List Field} (h : lookByName fields = true) :
    fields.Pairwise fun f g => f.name ≠ g.name := by
  induction fields with
  | nil => exact .nil
  | cons f fields ih =>
    simp only [lookByName, Bool.and_eq_true, Bool.not_eq_true', hasName, List.any_eq_false,
      beq_iff_eq] at h
    exact .cons (fun g hg hn => h.1.1 g hg hn.symm) (ih h.2)

/-- Reports of two fields of a mapping, or of fields of two mappings, are at different places. -/
theorem disjoint_report {vs ws : List Violation} (h : ∀ v ∈ vs, ∀ w ∈ ws, v.path ≠ w.path) :
    (vs.map (·.report)).Disjoint (ws.map (·.report)) := by
  intro r hv hw
  obtain ⟨v, hm, rfl⟩ := List.mem_map.1 hv
  obtain ⟨w, hn, he⟩ := List.mem_map.1 hw
  exact h v hm w hn (congrArg Prod.fst he).symm

/-- No two violations that a check finds are at one place and say the same. -/
theorem nodup_report_checkMap {fields : List Field} (hl : lookByName fields = true) (path : Path)
    (es : Entries) : ((checkMap fields path es).violations.map (·.report)).Nodup := by
  rw [((checkMap_violations_perm fields path es).map _).nodup_iff, List.map_flatMap,
    List.nodup_flatMap]
  refine ⟨fun m hm => ?_, ?_⟩
  · rw [Visit.violations, List.map_flatMap, List.nodup_flatMap]
    refine ⟨fun f _ => nodup_report_ownViolations .., ?_⟩
    refine (pairwise_name_ne (looksByName_of_mem_visits hm hl)).imp fun hn => ?_
    refine disjoint_report fun v hv w hw hp => hn ?_
    have hv := reports_of_mem_ownViolations hv
    exact (hv.eq_of_path_eq (reports_of_mem_ownViolations hw) hp).2
  · refine (visits_pairwise hl path es).imp fun hn => disjoint_report fun v hv w hw hp => hn ?_
    obtain ⟨f, _, hv⟩ := List.mem_flatMap.1 hv
    obtain ⟨g, _, hw⟩ := List.mem_flatMap.1 hw
    have hv := reports_of_mem_ownViolations hv
    exact (hv.eq_of_path_eq (reports_of_mem_ownViolations hw) hp).1 ▸ List.prefix_rfl

end ShellCompletion.Schema
