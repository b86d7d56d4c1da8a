import ShellCompletion.Proofs.Script.Candidates
import ShellCompletion.Proofs.Script.Quoting

/-! The text of a script determines what the script does. The sections are put together in
their order; the name of the function and the registration stand around them. The main
statement says that two interfaces have one text just when they have one behaviour and the
words of their comments are the same. -/
namespace ShellCompletion.Script

open Shell Text

/-- The lines inside the function tell the tables, the flags of the scan, the lifts and the
candidates. -/
theorem legible_bodyLines : Legible (fun i => bodyLines (.ofInterface i)) fun i =>
    let p := Plan.ofInterface i
    (((behaviour i).doubleDash, (behaviour i).flagMark, (behaviour i).flags, (remarks i).slots,
        (behaviour i).slotCount, (behaviour i).order),
      p.flags.map (·.literal), (behaviour i).lifts,
      (p.hasFlags, (" ".intercalate ((p.flags.map (·.literal)).map quote), (behaviour i).values,
        (remarks i).values), !i.slots.isEmpty, (behaviour i).arguments, (remarks i).arguments)) := by
  have hl := legible_liftLines.flatMap_append
    (legible_candidateLines.const_append (.blank :: slotLines ++ [.blank] ++ modeLines ++ [.blank]))
    (opens_liftLines.apart_blank (by decide)) fun i => lifts (.ofInterface i)
  have h := ((legible_stateLines.comp Plan.ofInterface).append
    (((legible_scanLines.comp Plan.ofInterface).append hl).const_append
      [.blank, .plain "local word_i slot_pos slot line", .plain "local -a lines", .blank])).const_append
    [.plain "local cur=$\x7bCOMP_WORDS[COMP_CWORD]\x7d",
      .plain "local prev=$\x7bCOMP_WORDS[COMP_CWORD-1]\x7d", .plain "COMPREPLY=()", .blank]
  refine (h.congr fun i j => ?_).of_eq fun i => ?_
  · simp [behaviour, remarks, Plan.ofInterface]
  · rw [bodyLines, skipLines_eq]
    simp only [List.append_assoc]
    rfl

theorem tells_functionName {c : Char} (h : isNameChar c = false) :
    Tells (fun i => (functionName i).toList ++ [c]) functionName :=
  (Tells.upTo fun i hc => by
    rw [isNameChar_of_mem_functionName hc] at h
    exact absurd h (by decide)).congr fun i j => String.toList_inj

theorem legible_header : Legible (fun i => [.plain (functionName i ++ "() \x7b")]) functionName := by
  refine .line (by simp) ?_
  have h := (tells_functionName (c := '(') (by decide)).append_const ") \x7b\n".toList
  simpa using h

theorem legible_registration : Legible (fun i => [registration i]) fun i => i.name := by
  have h : Legible (fun i => [registration i]) fun i => (functionName i, i.name) := by
    refine .line (by simp) ?_
    have hq := (tells_quoteChars (c := '\n') (by decide)).comp Interface.name
    have h := ((tells_functionName (c := ' ') (by decide)).append hq).const_append
      "complete -F ".toList
    simpa using h
  refine h.congr fun i j => ?_
  rw [Prod.mk.injEq, and_iff_right_iff_imp]
  intro hn
  rw [functionName, functionName, hn]

/-- A script tells the behaviour and the remarks. -/
theorem legible_lines : Legible (fun i => lines i ++ [registration i]) fun i =>
    (behaviour i, remarks i) := by
  have hc := (legible_comment 0).comp fun i : Interface => "bash completion for " ++ i.name
  have h := hc.append ((legible_header.append ((legible_bodyLines.indent 1).append
    (legible_registration.const_append [.plain "\x7d"]))).const_append
      [.comment ("generated by " ++ toolName ++ ", do not edit"), .blank])
  refine (h.congr fun i j => ?_).of_eq fun i => ?_
  · simp only [Prod.mk.injEq]
    constructor
    · rintro ⟨-, -, ⟨⟨hd, hm, hf, hrs, hc, ho⟩, -, hl, -, ⟨-, hv, hrv⟩, -, ha, hra⟩, hn⟩
      exact ⟨Behaviour.ext hn hd hm hf hc ho hl hv ha, Remarks.ext hrs hrv hra⟩
    · -- what the script says more than once
      rintro ⟨hb, hr⟩
      have hn : i.name = j.name := congrArg Behaviour.command hb
      have hf : functionName i = functionName j := by rw [functionName, functionName, hn]
      have hl := literals_eq_of_flags_eq (congrArg Behaviour.flags hb)
      have hs : i.slots.isEmpty = j.slots.isEmpty := by
        have hc : i.slots.length = j.slots.length := by
          simpa [behaviour, Plan.ofInterface] using congrArg Behaviour.slotCount hb
        rw [Bool.eq_iff_iff, List.isEmpty_iff, List.isEmpty_iff, ← List.length_eq_zero_iff, hc,
          List.length_eq_zero_iff]
      simp [hb, hr, hn, hf, hl, hs, hasFlags_eq_of_literals_eq hl]
  · rw [lines]
    simp only [List.append_assoc]
    rfl

/-- Two scripts are the same text just when they do the same and their comments have the same
words, so that nothing but what comments are written from can differ besides. -/
theorem whole_eq_iff (i j : Interface) :
    whole i = whole j ↔ behaviour i = behaviour j ∧ remarks i = remarks j := by
  have hw (i : Interface) :
      (whole i).toList ++ ['\n'] = shown 0 (lines i ++ [registration i]) := by
    rw [whole_eq_joined]
    exact toList_joined (by simp)
  have h := legible_lines 0 i j [] []
  simp only [List.append_nil, ← hw, Prod.mk.injEq, and_true] at h
  rw [← h, List.append_cancel_right_eq, String.toList_inj]

end ShellCompletion.Script
