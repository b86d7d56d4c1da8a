import ShellCompletion.Proofs.Document.OneLine
import ShellCompletion.Proofs.Schema.Distinct
import ShellCompletion.Proofs.Schema.Located

/-! Reports on one line. Of a document a report shows literals, types and numbers of elements, and
of a schema the names of fields and types. The main statement says that the text of every
violation is on one line if the names of the fields are words. -/
namespace ShellCompletion.Schema

open Document Text

/-! ### Places -/

namespace Path

theorem oneLine_of_isWord {name : String} (h : isWord name = true) : OneLine name.toList := by
  rw [isWord, Bool.and_eq_true, List.all_eq_true] at h
  exact fun c hc => not_mem_lineBreaks (by decide) (h.2 c hc)

theorem step_item (text : String) (i : Nat) :
    step text (.item i) = text ++ "[" ++ toString i ++ "]" := rfl

theorem oneLine_foldl_step {text : String} (ht : OneLine text.toList) {p : Path}
    (h : ∀ name, .key name ∈ p → isWord name = true) : OneLine (p.foldl step text).toList := by
  induction p generalizing text with
  | nil => exact ht
  | cons s p ih =>
    refine ih ?_ fun name hn => h name (List.mem_cons_of_mem s hn)
    cases s with
    | key name =>
      have hw := oneLine_of_isWord (h name List.mem_cons_self)
      rw [step]
      split
      · exact hw
      · simp only [String.toList_append, oneLine_append]
        exact ⟨⟨ht, oneLine_ofList⟩, hw⟩
    | item i =>
      simp only [step_item, String.toList_append, oneLine_append]
      exact ⟨⟨⟨ht, oneLine_ofList⟩, oneLine_toString i⟩, oneLine_ofList⟩

theorem oneLine_text {p : Path} (h : ∀ name, .key name ∈ p → isWord name = true) :
    OneLine p.text.toList := oneLine_foldl_step oneLine_ofList h

end Path

/-! ### Types -/

theorem Kind.oneLine_name (k : Kind) : OneLine k.name.toList := by cases k <;> exact oneLine_ofList

theorem Kind.oneLine_hint (k : Kind) : OneLine k.hint.toList := by cases k <;> exact oneLine_ofList

theorem oneLine_typeName (v : Value) : OneLine v.typeName.toList := by
  cases v <;> rw [Value.typeName] <;> exact oneLine_ofList

namespace TypeExpr

mutual

theorem oneLine_name (t : TypeExpr) : OneLine t.name.toList := by
  match t with
  | basic k =>
    rw [name]
    exact k.oneLine_name
  | generic k ps =>
    rw [name]
    split
    · exact k.oneLine_name
    · simp only [String.toList_append, oneLine_append]
      have hps : OneLine (", ".intercalate (names ps)).toList :=
        oneLine_intercalate oneLine_ofList (oneLine_names ps)
      exact ⟨⟨⟨k.oneLine_name, oneLine_ofList⟩, hps⟩, oneLine_ofList⟩

theorem oneLine_names (ts : List TypeExpr) : ∀ t ∈ names ts, OneLine t.toList := by
  match ts with
  | [] => simp [names]
  | t :: ts =>
    rw [names, List.forall_mem_cons]
    exact ⟨oneLine_name t, oneLine_names ts⟩

end

end TypeExpr

theorem FieldType.oneLine_name {α : Type} (type : FieldType α) : OneLine type.name.toList := by
  cases type with
  | one t => exact t.oneLine_name
  | oneOf ts => exact oneLine_intercalate oneLine_ofList (TypeExpr.oneLine_names ts)
  | _ => rw [name]; exact oneLine_ofList

/-! ### Problems -/

theorem SlotKey.oneLine_literal (k : SlotKey) : OneLine k.literal.toList := by
  cases k with
  | number n => exact oneLine_toString_int n
  | word s => exact Text.oneLine_literal s

theorem oneLine_of_mem_complaints {r : Rule} {x : Value} {c : Complaint} (h : c ∈ r.complaints x) :
    OneLine c.message.toList := by
  have hempty {xs : List Value} (h : c ∈ emptyElements 0 xs) : OneLine c.message.toList := by
    obtain ⟨k, _, rfl⟩ := mem_emptyElements_iff.1 h
    simp only [Complaint.message_emptyElement, String.toList_append, oneLine_append]
    exact ⟨⟨oneLine_ofList, oneLine_toString _⟩, oneLine_ofList⟩
  cases r with
  | notEmpty | notEmptyList =>
    rw [Rule.complaints] at h
    split at h
    · obtain rfl := List.mem_singleton.1 h
      exact oneLine_ofList
    · cases h
  | slotIndex =>
    have hi : indexComplaints x = [] ∨ indexComplaints x = [.badIndex x.literal] := ite_eq_or_eq ..
    rw [Rule.complaints] at h
    rcases hi with hi | hi <;> rw [hi] at h
    · cases h
    · obtain rfl := List.mem_singleton.1 h
      rw [Complaint.message_badIndex, String.toList_append, oneLine_append]
      exact ⟨oneLine_ofList, x.oneLine_literal⟩
  | oneSource =>
    cases x with
    | map es =>
      rw [Rule.complaints, sourceComplaints] at h
      split at h
      · obtain rfl := List.mem_singleton.1 h
        exact oneLine_ofList
      · obtain rfl := List.mem_singleton.1 h
        exact oneLine_ofList
      · cases h
    | _ => cases h
  | noEmptyElements =>
    cases x with
    | list xs => exact hempty h
    | map es => exact hempty h
    | _ => cases h
  | distinctSlots =>
    cases x with
    | list xs =>
      rw [Rule.complaints, repeatedIndices_nil] at h
      obtain ⟨j, _, hj⟩ := List.mem_filterMap.1 h
      obtain ⟨k, i, rfl⟩ := exists_of_repeatAt?_eq_some hj
      simp only [Complaint.message_repeatedIndex, String.toList_append, oneLine_append]
      exact ⟨⟨⟨⟨⟨⟨oneLine_ofList, oneLine_toString j⟩, oneLine_ofList⟩, k.oneLine_literal⟩,
        oneLine_ofList⟩, oneLine_toString i⟩, oneLine_ofList⟩
    | _ => cases h

theorem oneLine_missingAdvice {field : String} (hf : OneLine field.toList) (kind : Option Kind)
    {inside : Path} (hi : OneLine inside.text.toList) :
    OneLine (missingAdvice field kind inside).toList := by
  have hp : OneLine (inside.textOr "the top level").toList := by
    rw [Path.textOr]
    split
    · exact oneLine_ofList
    · exact hi
  unfold missingAdvice
  split <;> simp only [String.toList_append, oneLine_append] <;>
    exact ⟨⟨⟨oneLine_ofList, hf⟩, oneLine_ofList⟩, hp⟩

theorem oneLine_wrongType {expected found : String} (he : OneLine expected.toList)
    (hf : OneLine found.toList) (hint : Option Kind) :
    OneLine (Problem.wrongType expected found hint).message.toList ∧
      OneLine (Problem.wrongType expected found hint).suggestion.toList := by
  constructor
  · change OneLine ("Expected " ++ expected ++ ", got " ++ found).toList
    simp only [String.toList_append, oneLine_append]
    exact ⟨⟨⟨oneLine_ofList, he⟩, oneLine_ofList⟩, hf⟩
  · cases hint with
    | none => exact oneLine_nil
    | some kind => exact kind.oneLine_hint

theorem oneLine_noChoice {literal : String} {choices : List String} (hl : OneLine literal.toList)
    (hc : ∀ t ∈ choices, OneLine t.toList) :
    OneLine (Problem.noChoice literal choices).message.toList ∧
      OneLine (Problem.noChoice literal choices).suggestion.toList := by
  constructor
  · change OneLine ("Invalid value " ++ literal).toList
    rw [String.toList_append, oneLine_append]
    exact ⟨oneLine_ofList, hl⟩
  · change OneLine ("Valid options: " ++ ", ".intercalate choices).toList
    rw [String.toList_append, oneLine_append]
    exact ⟨oneLine_ofList, oneLine_intercalate oneLine_ofList hc⟩

theorem oneLine_problemText {field message suggestion : String} (hf : OneLine field.toList)
    (hm : OneLine message.toList) (hs : OneLine suggestion.toList) :
    OneLine (problemText field message suggestion).toList := by
  have ht : OneLine ("Config error for '" ++ field ++ "': " ++ message).toList := by
    simp only [String.toList_append, oneLine_append]
    exact ⟨⟨⟨oneLine_ofList, hf⟩, oneLine_ofList⟩, hm⟩
  rw [problemText]
  split
  · exact ht
  · rw [String.toList_append, String.toList_append, oneLine_append, oneLine_append]
    exact ⟨⟨ht, oneLine_ofList⟩, hs⟩

/-! ### Violations -/

variable {fields : List Field} {es : Entries} {m : Visit} {f : Field} {v : Violation}

theorem oneLine_of_reports (hw : areWords fields = true) (hm : m ∈ visits fields [] es)
    (hf : f ∈ m.fields) {x : Value} (h : f.Reports m.place x v) :
    OneLine v.message.toList ∧ OneLine v.suggestion.toList := by
  have hl := leads_of_mem_visits hm
  have hname := Path.oneLine_of_isWord (test_of_mem_of_allMeet (hl.allMeet hw) hf)
  cases h with
  | missing null required =>
    have hi : OneLine m.place.text.toList := Path.oneLine_text (hl.words hw)
    have ht : OneLine "Missing required field".toList := oneLine_ofList
    exact ⟨ht, oneLine_missingAdvice hname f.type.leading? hi⟩
  | misfit value hint => exact oneLine_wrongType f.type.oneLine_name (oneLine_typeName x) hint
  | @stranger xs y i list element k =>
    exact oneLine_wrongType k.oneLine_name (oneLine_typeName y) none
  | @noChoice cs value choices =>
    refine oneLine_noChoice x.oneLine_literal fun t ht => ?_
    obtain ⟨c, _, rfl⟩ := List.mem_map.1 ht
    exact c.oneLine_literal
  | broken value rule complaint => exact ⟨oneLine_of_mem_complaints complaint, oneLine_nil⟩

/-- The text of a violation is on one line, if the names of the fields are words. -/
theorem oneLine_of_mem_checkMap (hw : areWords fields = true)
    (h : v ∈ (checkMap fields [] es).violations) : OneLine v.text.toList := by
  obtain ⟨m, hm, f, hf, hr⟩ := exists_reports_of_mem_checkMap h
  obtain ⟨ht, hs⟩ := oneLine_of_reports hw hm hf hr
  refine oneLine_problemText ?_ ht hs
  rw [Violation.place]
  split
  · exact oneLine_ofList
  · exact Path.oneLine_text (isPlain_of_reports hw hm hf hr).words

end ShellCompletion.Schema
