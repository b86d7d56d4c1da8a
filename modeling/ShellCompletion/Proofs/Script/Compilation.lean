import Mathlib.Algebra.Group.Nat.Defs
import ShellCompletion.Proofs.Log.Filling
import ShellCompletion.Proofs.Schema.Faultless
import ShellCompletion.Proofs.Script.Showing

/-! What compiling a document ends in. A shell that is not supported is refused before the
document is looked at; then a document is rejected for reasons, or there is a script, unless a
number that is to be shown has too many digits. The steps between a check and a script are
partial: the check may come upon a fault, an interface may not be built, a message may not be
filled in. The main statement says that the schema of interfaces keeps all of these from
happening, for every document. What follows an interface, the plan and the text of the script, is
total by its types, but for the numbers of slots. -/
namespace ShellCompletion.Script

open Document Schema Interface Grammar

/-! ### Messages -/

/-- Something that is logged while a document is compiled. -/
inductive LogCall where
  | unknownKey (w : Warning)
  | violation (v : Violation)
  | undeclaredFlag (place : Nat) (flag : String)
  | generating (t : Target) (i : Interface)

namespace LogCall

def record : LogCall → Log.Record
  | unknownKey w => warningRecord w.text
  | violation v => ⟨.debug, v.text⟩
  | undeclaredFlag place flag => warningRecord (undeclaredText place flag)
  | generating t i => announcement t i

/-- The template of the message. A text without arguments is not looked at for places. -/
def template : LogCall → String
  | unknownKey w => w.text
  | violation _ => "%s"
  | undeclaredFlag _ _ =>
    "[args[%d].skip_if] Flag '%s' is not declared in opts - it will never match"
  | generating _ _ => "Generating %s completion for %s (%d flag(s), %d positional slot(s))"

def arguments : LogCall → List Value
  | unknownKey _ => []
  | violation v => [.str v.text]
  | undeclaredFlag place flag => [.int place, .str flag]
  | generating t i => [.str t.name, .str i.name, .int i.flags.length, .int i.slots.length]

/-- Every message that is logged is its template, filled in without an error. -/
theorem fillTemplate_eq (c : LogCall) :
    Log.fillTemplate c.template c.arguments = .ok c.record.message := by
  cases c with
  | unknownKey w => rfl
  | violation v =>
    have h := Log.fillTemplate_parts [.text v.text] "%s"
      (by simp [Log.Part.IsWritten]) (by simp [Log.Part.template]) (by simp [Log.Part.argument?])
    refine h.trans (congrArg _ ?_)
    simp [Log.Part.message, record]
  | undeclaredFlag place flag =>
    have h := Log.fillTemplate_parts
      [.plain "[args[", .number place, .plain "].skip_if] Flag '", .text flag,
        .plain "' is not declared in opts - it will never match"]
      "[args[%d].skip_if] Flag '%s' is not declared in opts - it will never match"
      (by simp [Log.Part.IsWritten]) (by simp [Log.Part.template]) (by simp [Log.Part.argument?])
    refine h.trans (congrArg _ (String.toList_injective ?_))
    simp only [record, warningRecord, undeclaredText, String.toList_append, List.flatMap_cons,
      List.flatMap_nil, String.toList_ofList, List.append_assoc, List.append_nil]
    rfl
  | generating t i =>
    have h := Log.fillTemplate_parts
      [.plain "Generating ", .text t.name, .plain " completion for ", .text i.name,
        .plain " (", .number i.flags.length, .plain " flag(s), ", .number i.slots.length,
        .plain " positional slot(s))"]
      "Generating %s completion for %s (%d flag(s), %d positional slot(s))"
      (by simp [Log.Part.IsWritten]) (by simp [Log.Part.template]) (by simp [Log.Part.argument?])
    refine h.trans (congrArg _ (String.toList_injective ?_))
    simp only [record, announcement, String.toList_append, List.flatMap_cons, List.flatMap_nil,
      String.toList_ofList, List.append_assoc, List.append_nil]
    rfl

/-- Every record of a check comes of one of these calls. -/
theorem exists_of_mem_validate {v : Value} {r : Log.Record} (h : r ∈ (validate v).2) :
    ∃ c : LogCall, c.record = r := by
  obtain ⟨es, rfl⟩ | ⟨_, hv⟩ := eq_map_or_validate_eq v
  · have hu (hr : r ∈ unknownRecords es) : ∃ c : LogCall, c.record = r := by
      obtain ⟨w, _, rfl⟩ := List.mem_map.1 hr
      exact ⟨.unknownKey w, rfl⟩
    by_cases hg : InterfaceEntries es
    · rw [validate_map_of_grammar hg] at h
      obtain hr | hr := List.mem_append.1 h
      · exact hu hr
      · obtain ⟨⟨place, flag⟩, _, rfl⟩ := List.mem_map.1 hr
        exact ⟨.undeclaredFlag place flag, rfl⟩
    · rw [validate_map_of_not_grammar hg] at h
      obtain hr | hr := List.mem_append.1 h
      · exact hu hr
      · obtain ⟨w, _, rfl⟩ := List.mem_map.1 hr
        exact ⟨.violation w, rfl⟩
  · simp [hv] at h

end LogCall

/-! ### How compiling ends -/

variable {v : Value}

theorem compile_accepted (t : Target) {i : Interface} (h : (validate v).1 = .accepted i) :
    compile t.name v = (.ok (whole i), (validate v).2 ++ [announcement t i]) := by
  simp only [compile, target, Target.ofName?_name]
  rw [show validate v = (.accepted i, (validate v).2) from Prod.ext h rfl]

theorem compile_rejected (t : Target) {vs : List Violation} (h : (validate v).1 = .rejected vs) :
    compile t.name v = (.error (.rejected vs), (validate v).2) := by
  simp only [compile, target, Target.ofName?_name]
  rw [show validate v = (.rejected vs, (validate v).2) from Prod.ext h rfl]

theorem exists_logCall_of_mem_compile {shell : String} {r : Log.Record}
    (h : r ∈ (compile shell v).2) : ∃ c : LogCall, c.record = r := by
  unfold compile at h
  cases ht : target shell with
  | error e => simp [ht] at h
  | ok t =>
    rcases hv : validate v with ⟨verdict, records⟩
    have checked {r : Log.Record} (hr : r ∈ records) : ∃ c : LogCall, c.record = r :=
      LogCall.exists_of_mem_validate (v := v) (by rw [hv]; exact hr)
    rw [ht, hv] at h
    cases verdict with
    | accepted i =>
      obtain hr | hr := List.mem_append.1 h
      · exact checked hr
      · exact ⟨.generating t i, (List.mem_singleton.1 hr).symm⟩
    | rejected vs => exact checked h
    | unbuilt e => exact checked h

/-- Whatever is logged comes of one of these calls, also where a number can not be shown. -/
theorem exists_logCall_of_mem_dump {shell : String} {r : Log.Record}
    (h : r ∈ (dump shell v).2) : ∃ c : LogCall, c.record = r := by
  have examined {r : Log.Record} (hr : r ∈ (examine v).2) : ∃ c : LogCall, c.record = r :=
    LogCall.exists_of_mem_validate ((prefix_examine v).subset hr)
  unfold dump at h
  cases ht : target shell with
  | error e => simp [ht] at h
  | ok t =>
    rcases he : examine v with ⟨_ | verdict, records⟩ <;> simp only [he] at examined <;>
      simp only [ht, he] at h
    · exact examined h
    · cases verdict with
      | accepted i =>
        simp only at h
        split at h
        · exact exists_logCall_of_mem_compile h
        · obtain hr | hr := List.mem_append.1 h
          · exact examined hr
          · exact ⟨.generating t i, (List.mem_singleton.1 hr).symm⟩
      | _ => exact exists_logCall_of_mem_compile h

/-- The interface of an accepted document is built without an error in either step. -/
theorem exists_draft_of_accepted {i : Interface} (h : (validate v).1 = .accepted i) :
    ∃ es d, v = .map es ∧ Draft.ofEntries es = .ok d ∧ d.settle = .ok i := by
  obtain ⟨es, rfl, hg, rfl⟩ := (accepted_iff v i).1 h
  obtain ⟨d, hd, hs⟩ := Reading.builds_interface hg
  exact ⟨es, d, rfl, hd, hs⟩

theorem areFaultless_documentFields : areFaultless documentFields = true := by decide

/-- Compiling ends in a refused shell, in reasons against the document, in a script, or at a number
that can not be shown, each of them exactly when it should. On the way a check comes upon no
fault, an interface that is to be built is built, and every message can be filled in. -/
theorem dump_endings (shell : String) (v : Value) :
    ((dump shell v).1 = .error (.unsupportedShell shell) ↔ ¬Supported shell) ∧
    (¬Supported shell → ∀ w, dump shell w = (.error (.unsupportedShell shell), [])) ∧
    (∀ vs, (dump shell v).1 = .error (.rejected vs) ↔
      Supported shell ∧ ¬Unshowable v ∧ (validate v).1 = .rejected vs) ∧
    (∀ vs, (validate v).1 = .rejected vs → vs ≠ []) ∧
    (∀ s, (dump shell v).1 = .ok s ↔
      Supported shell ∧ ¬Unshowable v ∧ ∃ i, (validate v).1 = .accepted i ∧ s = whole i) ∧
    ((dump shell v).1 = .error .tooManyDigits ↔ Supported shell ∧ Unshowable v) ∧
    ((dump shell v).1 = .error (.unsupportedShell shell) ∨
      (∃ vs, (dump shell v).1 = .error (.rejected vs)) ∨ (∃ s, (dump shell v).1 = .ok s) ∨
        (dump shell v).1 = .error .tooManyDigits) ∧
    (∀ es, v = .map es → check documentFields [] es = .ok (checkMap documentFields [] es)) ∧
    (∀ i, (validate v).1 = .accepted i →
      ∃ es d, v = .map es ∧ Draft.ofEntries es = .ok d ∧ d.settle = .ok i) ∧
    ∀ r ∈ (dump shell v).2, ∃ c : LogCall, c.record = r ∧
      Log.fillTemplate c.template c.arguments = .ok r.message := by
  have hu (hs : ¬Supported shell) (w : Value) := dump_unsupported hs w
  have hn (vs : List Violation) := @ne_nil_of_rejected v vs
  have hf (es : Entries) (_ : v = .map es) := check_eq_ok areFaultless_documentFields [] es
  have hd (i : Interface) := @exists_draft_of_accepted v i
  have hl (r : Log.Record) (hr : r ∈ (dump shell v).2) : ∃ c : LogCall, c.record = r ∧
      Log.fillTemplate c.template c.arguments = .ok r.message := by
    obtain ⟨c, rfl⟩ := exists_logCall_of_mem_dump hr
    exact ⟨c, rfl, c.fillTemplate_eq⟩
  -- the four endings: each branch decides all of the equivalences at once
  by_cases hs : Supported shell
  · obtain ⟨t, rfl⟩ := hs
    have hs := supported_name t
    by_cases unshowable : Unshowable v
    · have hc := dump_of_unshowable t unshowable
      exact ⟨by simp [hc, hs], hu, by simp [hc, unshowable], hn, by simp [hc, unshowable],
        by simp [hc, hs, unshowable], .inr (.inr (.inr hc)), hf, hd, hl⟩
    · obtain ⟨i, hi⟩ | ⟨vs, hvs⟩ := accepted_or_rejected v
      · have hc : (dump t.name v).1 = .ok (whole i) := by
          rw [dump_of_showable _ unshowable, compile_accepted t hi]
        exact ⟨by simp [hc, hs], hu, by simp [hc, hi], hn,
          by simp [hc, hi, hs, unshowable, eq_comm], by simp [hc, unshowable],
          .inr (.inr (.inl ⟨_, hc⟩)), hf, hd, hl⟩
      · have hc : (dump t.name v).1 = .error (.rejected vs) := by
          rw [dump_of_showable _ unshowable, compile_rejected t hvs]
        exact ⟨by simp [hc, hs], hu, by simp [hc, hvs, hs, unshowable], hn, by simp [hc, hvs],
          by simp [hc, unshowable], .inr (.inl ⟨_, hc⟩), hf, hd, hl⟩
  · have hc := congrArg Prod.fst (hu hs v)
    exact ⟨by simp [hc, hs], hu, by simp [hc, hs], hn, by simp [hc, hs], by simp [hc, hs], .inl hc,
      hf, hd, hl⟩

theorem isShowableInt_iff (n : Int) : isShowableInt n = true ↔ n.natAbs < 10 ^ maxDigits := by
  rw [isShowableInt, decide_eq_true_iff, Nat.length_toDigits_le_iff (by decide) (by decide)]

/-- A document for a command with one slot. -/
def oneSlot (index : Nat) : Entries :=
  [(.str "name", .str "demo"), (.str "args", .list [.map [(.str "index", .int index)]])]

/-- Nothing is compiled for `zsh`. A document whose slot has a number of 4401 digits is accepted,
but it is not compiled for `bash`. -/
theorem dump_endings_bash_zsh :
    dump "zsh" .null = (.error (.unsupportedShell "zsh"), []) ∧
      (∃ i, (validate (.map (oneSlot ((10 ^ 100) ^ 44)))).1 = .accepted i) ∧
      (dump "bash" (.map (oneSlot ((10 ^ 100) ^ 44)))).1 = .error .tooManyDigits := by
  have hs : Supported "bash" := supported_name .bash
  have hz : ¬Supported "zsh" := by rintro ⟨⟨⟩, ht⟩; exact absurd ht (by decide)
  have hv : (validate (.map (oneSlot ((10 ^ 100) ^ 44)))).1 =
    .accepted (Reading.interface (oneSlot ((10 ^ 100) ^ 44))) := by decide +kernel
  have long : isShowableInt ((10 ^ 100) ^ 44 : Nat) = false := by
    have large : 10 ^ maxDigits ≤ (10 ^ 100) ^ 44 :=
      (Nat.pow_le_pow_right (by decide) (by decide : maxDigits ≤ 100 * 44)).trans_eq
        (Nat.pow_mul 10 100 44)
    rw [← Bool.not_eq_true, isShowableInt_iff]
    exact Nat.not_lt.2 large
  have slots : hasShowableSlots (Reading.interface (oneSlot ((10 ^ 100) ^ 44))) =
    (isShowableInt ((10 ^ 100) ^ 44 : Nat) && true) := rfl
  rw [long] at slots
  exact ⟨(dump_endings "zsh" .null).2.1 hz .null, ⟨_, hv⟩,
    (dump_endings "bash" _).2.2.2.2.2.1.2 ⟨hs, .inr ⟨_, hv, slots⟩⟩⟩

end ShellCompletion.Script
