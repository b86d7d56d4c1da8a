import ShellCompletion.Proofs.Script.Closed
import ShellCompletion.Proofs.Script.Shape

/-! No text of an interface leaves its quotation or its comment. This is said in two ways of
every interface, well formed or not: a reader stands outside quotations after each line of
the script, and what the reader keeps of the script is the same for all interfaces of one
shape, whatever characters their texts have. -/
namespace ShellCompletion.Script

open Shell

/-- The reader at the beginning of a script. -/
def start : Mode := .program true

theorem joined_append_singleton {ls : List Line} (h : ls ≠ []) (l : Line) :
    joined (ls ++ [l]) = joined ls ++ "\n" ++ l.text := by
  rw [joined, List.map_append, String.intercalate_append_of_ne_nil (by simpa using h) (by simp)]
  simp [joined]

/-- The text of the first lines is the beginning of the text of all. -/
theorem joined_isPrefix (ls ms : List Line) :
    (joined ls).toList <+: (joined (ls ++ ms)).toList := by
  by_cases hl : ls = []
  · simp [hl, joined]
  by_cases hm : ms = []
  · simp [hm]
  rw [joined, joined, List.map_append,
    String.intercalate_append_of_ne_nil (by simpa using hl) (by simpa using hm)]
  simp

theorem whole_eq_joined (i : Interface) : whole i = joined (lines i ++ [registration i]) := by
  rw [joined_append_singleton (by simp [lines])]
  rfl

theorem closed_whole (i : Interface) : AllClosed (lines i ++ [registration i]) := by
  simp [closed_lines, closed_registration]

/-- What is kept of a script depends on the shape of the interface. -/
theorem kept_whole_eq {ρ : String → String} {i j : Interface} (h : i.SameShape ρ j) :
    start.kept (whole i).toList = start.kept (whole j).toList := by
  have hl := lines_skeleton h.function (Plan.skeleton_eq h)
  have hr := registration_skeleton h.function
  rw [whole_eq_joined, whole_eq_joined, start, kept_joined (closed_whole i),
    kept_joined (closed_whole j), List.map_append, List.map_append, hl, List.map_singleton,
    List.map_singleton, hr]

/-- The reader stands outside quotations after each line, at the end of the function, after
the registration and at the end of the script, and keeps the same of the scripts of two
interfaces of one shape. -/
theorem texts_stay_quoted (i : Interface) :
    (∀ ls ms, lines i = ls ++ ms → (joined ls).toList <+: (text i).toList ∧
      (start.run (joined ls).toList).isOutside = true) ∧
    (start.run (text i).toList).isOutside = true ∧
    (start.run (registration i).text.toList).isOutside = true ∧
    (start.run (whole i).toList).isOutside = true ∧
    ∀ ρ j, i.SameShape ρ j → start.kept (whole i).toList = start.kept (whole j).toList := by
  have hc := closed_lines i
  refine ⟨fun ls ms h => ⟨?_, ?_⟩, isOutside_run_joined hc, ?_, ?_, fun ρ j => kept_whole_eq⟩
  · have hp := joined_isPrefix ls ms
    rwa [← h] at hp
  · rw [h, allClosed_append_iff] at hc
    exact isOutside_run_joined hc.1
  · have hr : AllClosed [registration i] := by simp [closed_registration]
    have hj : joined [registration i] = (registration i).text := by simp [joined]
    exact hj ▸ isOutside_run_joined hr
  · rw [whole_eq_joined]
    exact isOutside_run_joined (closed_whole i)

/-- Apostrophes in the name and in a flag leave no trace. -/
theorem texts_stay_quoted_apostrophe :
    start.kept (whole { name := "a'b", options := [{ flags := ["-x"] }] }).toList =
      start.kept (whole { name := "a b", options := [{ flags := ["-x'"] }] }).toList := by
  refine (texts_stay_quoted _).2.2.2.2 (· ++ "'") _ ⟨by decide, rfl, ?_, .nil, ?_⟩
  · exact .cons ⟨by decide, .none⟩ .nil
  · simp [Interface.flags]

end ShellCompletion.Script
