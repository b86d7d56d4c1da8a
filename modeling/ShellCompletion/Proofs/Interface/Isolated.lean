import ShellCompletion.Proofs.Interface.Acceptance
import ShellCompletion.Proofs.Schema.Isolation

/-! Options and arguments do not spoil each other's reports. The main statement takes two
documents that differ at most in one option, or in one argument, and says that the same
violations are reported of both, in the same order, apart from those whose written place starts
with that element and, for arguments, those of the list as a whole. -/
namespace ShellCompletion.Schema

theorem Path.prefix_step (text : String) (s : Step) :
    text.toList <+: (Path.step text s).toList := by
  cases s with
  | key name =>
    simp only [Path.step]
    split
    · next h => simp [String.isEmpty_iff.1 h]
    · rw [String.append_assoc, String.toList_append]
      exact List.prefix_append ..
  | item index =>
    rw [Path.step, String.toList_append, String.toList_append, String.toList_append,
      List.append_assoc, List.append_assoc]
    exact List.prefix_append ..

/-- The written form of a place starts as those of the places around it. -/
theorem Path.text_prefix {p q : Path} (h : p <+: q) : p.text.toList <+: q.text.toList := by
  obtain ⟨steps, rfl⟩ := h
  rw [Path.text, Path.text, List.foldl_append]
  generalize p.foldl Path.step "" = text
  induction steps generalizing text with
  | nil => exact List.prefix_rfl
  | cons s steps ih => exact (Path.prefix_step text s).trans (ih (Path.step text s))

/-- Does the written place of a violation start with a text? -/
def Violation.startsWith (v : Violation) (s : String) : Bool :=
  s.toList.isPrefixOf v.place.toList

/-- The written place of a violation starts as those of the places around it. -/
theorem Violation.startsWith_of_prefix {v : Violation} {p : Path} (hp : p ≠ []) (h : p <+: v.path) :
    v.startsWith p.text = true := by
  have hv : v.path ≠ [] := fun hv => hp (List.prefix_nil.1 (hv ▸ h))
  rw [Violation.startsWith, Violation.place, if_neg hv, List.isPrefixOf_iff_prefix]
  exact Path.text_prefix h

end ShellCompletion.Schema

namespace ShellCompletion.Interface

open Document Schema

/-- Documents that differ at most in one option, or in one argument, are reported alike apart
from what concerns that element. -/
theorem violations_elsewhere_eq (es fs : Entries) (i : Nat) :
    (DifferAt "opts" i es fs →
      (violations (.map es)).filter (fun v => !v.startsWith s!"opts[{i}]") =
        (violations (.map fs)).filter fun v => !v.startsWith s!"opts[{i}]") ∧
      (DifferAt "args" i es fs →
        (violations (.map es)).filter (fun v => !v.startsWith s!"args[{i}]" && v.place != "args") =
          (violations (.map fs)).filter fun v =>
            !v.startsWith s!"args[{i}]" && v.place != "args") := by
  rw [violations_map, violations_map]
  refine ⟨fun h => h.filter_violations_eq ?_ ?_ ?_, fun h => h.filter_violations_eq ?_ ?_ ?_⟩
  · simp [documentFields]
  · intro v hv
    have ht : ((Path.key [] "opts").item i).text = s!"opts[{i}]" := by
      rw [Path.text_item]
      rfl
    have hs : v.startsWith s!"opts[{i}]" = true :=
      ht ▸ Violation.startsWith_of_prefix (List.cons_ne_nil _ _) hv
    simp only [hs, Bool.not_true]
  · simp [documentFields, Field.breaches]
  · simp [documentFields]
  · intro v hv
    have ht : ((Path.key [] "args").item i).text = s!"args[{i}]" := by
      rw [Path.text_item]
      rfl
    have hs : v.startsWith s!"args[{i}]" = true :=
      ht ▸ Violation.startsWith_of_prefix (List.cons_ne_nil _ _) hv
    simp only [hs, Bool.not_true, Bool.false_and]
  · intro f _ _ x v hv
    simp [Violation.place, path_of_mem_breaches hv, Path.key, Path.text, Path.step]

/-- The second of eleven options, or arguments, is mended: what is wrong with the eleventh one
and with the name of the document stays. -/
theorem violations_elsewhere_eq_eleventh :
    let document (key : String) (x : Value) : Entries :=
      [(.str "name", .int 1), (.str key, .list (.map [] :: x :: List.replicate 9 .null))]
    let name : Violation := ⟨[.key "name"], .wrongType "str" "int" (some .str)⟩
    let stranger (i : Nat) : Violation :=
      ⟨[.key "opts", .item i], .wrongType "dict" "NoneType" none⟩
    let elsewhere (v : Violation) : Bool := !v.startsWith s!"opts[{1}]"
    let outside (v : Violation) : Bool := !v.startsWith s!"args[{1}]" && v.place != "args"
    (violations (.map (document "opts" (.map [])))).filter elsewhere =
        (violations (.map (document "opts" .null))).filter elsewhere ∧
      (violations (.map (document "args" (.map [])))).filter outside =
        (violations (.map (document "args" .null))).filter outside ∧
      (violations (.map (document "opts" .null))).filter elsewhere =
        name :: (List.range' 2 9).map stranger := by
  intro document name stranger elsewhere outside
  have hd (key : String) (hk : key ≠ "name") :
      DifferAt key 1 (document key (.map [])) (document key .null) := by
    have hf : Entries.find? [(.str "name", .int 1)] key = none := by
      simp [Entries.find?, Value.isKey, hk.symm]
    exact differAt_replace hf [] [.map []] (List.replicate 9 .null) (.map []) .null
  refine ⟨(violations_elsewhere_eq _ _ 1).1 (hd "opts" (by decide)),
    (violations_elsewhere_eq _ _ 1).2 (hd "args" (by decide)), ?_⟩
  decide +kernel

end ShellCompletion.Interface
