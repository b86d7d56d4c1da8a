import ShellCompletion.Proofs.Interface.Acceptance
import ShellCompletion.Proofs.Schema.Shown
import ShellCompletion.Script.Target

/-! Documents with numbers that can not be shown. The main statements say that compiling such a
document ends there, with no more than the first warnings of its check if it is the check that
shows the number, and that any other document is compiled as if every number could be shown. -/
namespace ShellCompletion.Script

open Document Schema Interface

/-- A number that can not be shown is in what a check shows of a document, or is the number of a
slot of its interface. -/
def Unshowable (v : Value) : Prop :=
  (∃ es, v = .map es ∧ ∃ x ∈ mapShown documentFields [] es, x.isShowable = false) ∨
    ∃ i, (validate v).1 = .accepted i ∧ hasShowableSlots i = false

variable {v : Value}

/-! ### Supported shells -/

def Supported (shell : String) : Prop := ∃ t : Target, t.name = shell

theorem supported_name (t : Target) : Supported t.name := ⟨t, rfl⟩

theorem ofName?_eq_none {shell : String} (h : ¬Supported shell) : Target.ofName? shell = none := by
  simp only [Target.ofName?, List.find?_eq_none, beq_iff_eq]
  exact fun t _ ht => h ⟨t, ht⟩

theorem target_unsupported {shell : String} (h : ¬Supported shell) :
    target shell = .error (.unsupportedShell shell) := by
  rw [target, ofName?_eq_none h]

/-- A shell that is not supported is refused before the document is looked at. -/
theorem dump_unsupported {shell : String} (h : ¬Supported shell) (document : Value) :
    dump shell document = (.error (.unsupportedShell shell), []) := by
  simp only [dump, target_unsupported h]

/-! ### Checks that end early -/

theorem interrupted?_map (es : Entries) : interrupted? (.map es) = none ↔
    ∀ x ∈ mapShown documentFields [] es, x.isShowable = true := by
  rw [interrupted?, Option.map_eq_none_iff, warnedBefore?, ← List.all_eq_true]
  split <;> simp_all

theorem interrupted?_eq_none_iff : interrupted? v = none ↔
    ¬∃ es, v = .map es ∧ ∃ x ∈ mapShown documentFields [] es, x.isShowable = false := by
  obtain ⟨es, rfl⟩ | ⟨noMap, _⟩ := eq_map_or_validate_eq v
  · simp [interrupted?_map]
  · cases v with
    | map es => exact absurd rfl (noMap es)
    | _ => simp [interrupted?]

theorem examine_of_showable (h : ¬Unshowable v) :
    examine v = (some (validate v).1, (validate v).2) := by
  rw [examine, interrupted?_eq_none_iff.2 fun shown => h (.inl shown)]

/-- A check that ends early has given the first warnings. -/
theorem prefix_examine (v : Value) : (examine v).2 <+: (validate v).2 := by
  unfold examine
  cases hi : interrupted? v with
  | none => exact List.prefix_rfl
  | some records =>
    obtain ⟨es, rfl⟩ | ⟨noMap, _⟩ := eq_map_or_validate_eq v
    · obtain ⟨ws, hw, rfl⟩ := Option.map_eq_some_iff.1 hi
      refine ((prefix_of_warnedBefore? hw).map _).trans ?_
      by_cases hg : Grammar.InterfaceEntries es
      · rw [validate_map_of_grammar hg]
        exact List.prefix_append ..
      · rw [validate_map_of_not_grammar hg]
        exact List.prefix_append ..
    · cases v with
      | map es => exact absurd rfl (noMap es)
      | _ => cases hi

/-- A document where everything can be shown is compiled as it is. -/
theorem dump_of_showable (shell : String) (h : ¬Unshowable v) : dump shell v = compile shell v := by
  unfold dump
  rw [examine_of_showable h]
  cases ht : target shell with
  | error e => simp only [compile, ht]
  | ok t =>
    cases hv : (validate v).1 with
    | accepted i =>
      have slots : hasShowableSlots i = true := by
        by_contra hs
        exact h (.inr ⟨i, hv, Bool.eq_false_iff.2 hs⟩)
      simp only [slots, ↓reduceIte]
    | _ => rfl

/-- A document with a number that can not be shown is not compiled. -/
theorem dump_of_unshowable (t : Target) (h : Unshowable v) :
    (dump t.name v).1 = .error .tooManyDigits := by
  unfold dump examine
  simp only [target, Target.ofName?_name]
  cases hi : interrupted? v with
  | some records => rfl
  | none =>
    obtain shown | ⟨i, hv, slots⟩ := h
    · exact absurd shown (interrupted?_eq_none_iff.1 hi)
    · simp only [hv, slots, Bool.false_eq_true, ↓reduceIte]

end ShellCompletion.Script
