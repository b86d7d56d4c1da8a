import ShellCompletion.Dump
import ShellCompletion.Proofs.Interface.Unread
import ShellCompletion.Proofs.Script.Showing

/-! Compiling documents that have been loaded. Such a document may refer to containers around a
place, and is unrolled to a depth before it is checked. The main statement says that the depth is
enough: a document without such references is compiled as it is. -/
namespace ShellCompletion.Dump

open Document Schema Interface Script

theorem lookTo_documentFields : lookTo 6 documentFields = true := by decide

variable {v w : Value}

theorem verdict_unroll (hv : v.isWhole = true) :
    (validate (v.unroll checkedDepth [])).1 = (validate v).1 := by
  obtain ⟨es, rfl⟩ | noMap := eq_map_or_not v
  · exact (verdict_eq_of_alikeIn (alikeIn_unroll lookTo_documentFields hv [.map es])).symm
  · have hc : v = v.unroll checkedDepth [] ∨ SameOutside v (v.unroll checkedDepth []) :=
      unroll_cases hv
    obtain h | outside := hc
    · exact congrArg (fun w => (validate w).1) h.symm
    · generalize v.unroll checkedDepth [] = w at outside ⊢
      cases outside with
      | map es fs => simp [Kind.admits] at noMap
      | _ => rfl

/-- The check of an unrolled document shows what the check of the document shows. -/
theorem unshowable_unroll_iff (hv : v.isWhole = true) :
    Unshowable (v.unroll checkedDepth []) ↔ Unshowable v := by
  have slots := verdict_unroll hv
  obtain ⟨es, rfl⟩ | noMap := eq_map_or_not v
  · have shown := mapShown_unroll lookTo_documentFields lookByName_documentFields [] hv [.map es]
    have hu : (Value.map es).unroll checkedDepth [] = .map (Entries.unroll 6 [.map es] es) := rfl
    rw [hu] at slots ⊢
    simp only [Unshowable, slots, Value.map.injEq, exists_eq_left', shown]
  · have unrolled : v = v.unroll checkedDepth [] ∨ SameOutside v (v.unroll checkedDepth []) :=
      unroll_cases hv
    obtain same | outside := unrolled
    · rw [← same]
    · generalize v.unroll checkedDepth [] = w at outside slots ⊢
      cases outside with
      | map es fs => simp [Kind.admits] at noMap
      | _ => simp only [Unshowable, slots, reduceCtorEq, false_and, exists_false]

/-- What compiling gives depends on the verdict, and on whether everything can be shown. -/
theorem dump_eq_of_verdict (shell : String) (h : (validate v).1 = (validate w).1)
    (shown : Unshowable v ↔ Unshowable w) : (dump shell v).1 = (dump shell w).1 := by
  by_cases hv : Unshowable v
  · by_cases hs : Supported shell
    · obtain ⟨t, rfl⟩ := hs
      rw [dump_of_unshowable t hv, dump_of_unshowable t (shown.1 hv)]
    · rw [dump_unsupported hs, dump_unsupported hs]
  · rw [dump_of_showable shell hv, dump_of_showable shell fun hw => hv (shown.2 hw)]
    unfold compile
    cases target shell with
    | error e => rfl
    | ok goal =>
      generalize validate v = checked, validate w = checked' at h ⊢
      obtain ⟨verdict, records⟩ := checked
      obtain ⟨verdict', records'⟩ := checked'
      cases h
      cases verdict <;> rfl

/-- A document without references is compiled as it is. -/
theorem compileLoaded_eq (shell : String) (hv : v.isWhole = true) :
    (compileLoaded shell v).1 = (dump shell v).1 :=
  dump_eq_of_verdict shell (verdict_unroll hv) (unshowable_unroll_iff hv)

end ShellCompletion.Dump
