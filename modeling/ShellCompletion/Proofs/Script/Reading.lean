import ShellCompletion.Proofs.Script.Closed
import ShellCompletion.Proofs.Script.Behaviour
import ShellCompletion.Proofs.Shell.Cases

/-! The lines of a script are read from its text. The program text of a section is fixed up to
truth words, numbers and the name of the function, which begin no quotation and no comment and
break no line. The main statement is that what is read of the text is what stands in the lines. -/
namespace ShellCompletion.Script

open Shell

theorem continues_boolWord (b : Bool) : Continues (boolWord b) := by
  cases b <;> exact continues_ofList (by decide)

theorem newline_not_mem_toString (n : Nat) : '\n' ∉ (toString n).toList :=
  Text.not_mem_toString (by decide) n

theorem continues_toString (n : Nat) : Continues (toString n) :=
  continues_of_calm (calm_toString n) (newline_not_mem_toString n)

theorem continues_ordinals (slots : List Slot) : Continues (ordinals slots) := by
  refine continues_of_calm (calm_ordinals slots)
    (Text.not_mem_intercalate (by decide) fun t ht => ?_)
  obtain ⟨s, _, rfl⟩ := List.mem_map.1 ht
  exact newline_not_mem_toString s.ordinal

theorem continues_functionName (i : Interface) : Continues (functionName i) := by
  refine continues_of_calm (calm_functionName i) fun hc => ?_
  exact absurd (isNameChar_of_mem_functionName hc) (by decide)

/-- A numeral may begin a line. -/
theorem begins_toString (n : Nat) : Begins (toString n) := by
  obtain ⟨d, hh, hd⟩ := Text.exists_head?_toString n
  have hc {c : Char} (hc : c.isDigit = false) : (toString n).toList.head?.any (· != c) = true := by
    have hne : d ≠ c := by
      rintro rfl
      exact Bool.false_ne_true (hc.symm.trans hd)
    rw [hh]
    simpa using hne
  exact ⟨⟨continues_toString n, hc (by decide)⟩, hc (by decide)⟩

theorem begins_functionName (i : Interface) : Begins (functionName i) := by
  have hf : (functionName i).toList.head? = some '_' := by simp [functionName]
  exact ⟨⟨continues_functionName i, by rw [hf]; decide⟩, by rw [hf]; decide⟩

/-! ### Sections -/

theorem readable_sourceLines (s : Option Source) : AllReadable (sourceLines s) := by
  match s with
  | none => exact allReadable_nil
  | some (.builtin kind) =>
    refine .cons
      (Line.readable_of_begins (Begins.append (Begins.append ?_ ?_) ?_) arePlain_nil 0) ?_
    · exact begins_ofList (by decide)
    · cases kind <;> exact continues_ofList (by decide)
    · exact continues_ofList (by decide)
    · repeat refine .cons (Line.readable_code (by decide) _) ?_
      exact allReadable_nil
  | some (.command argv) =>
    simp only [sourceLines]
    split
    · exact allReadable_nil
    · refine .cons (Line.readable_of_begins (begins_ofList (by decide)) ?_ 0) ?_
      · have hs : ArePlain [.code " "] := arePlain_nil.code (plain_ofList (by decide))
        exact List.forall_mem_append.2 ⟨List.forall_mem_flatMap.2 fun a _ => hs.word a,
          arePlain_nil.code (plain_ofList (by decide))⟩
      · repeat refine .cons (Line.readable_code (by decide) _) ?_
        exact allReadable_nil

theorem readable_entryLine {table value : String} (flag : String) (ht : Begins table)
    (hv : Continues value) : (entryLine table flag value).Readable := by
  have hs : Begins (table ++ "[") := ht.append (continues_ofList (by decide))
  have hp : Plain ("]=" ++ value) := Plain.append (plain_ofList (by decide)) hv
  exact Line.readable_of_begins hs ((arePlain_nil.code hp).word flag) 0

theorem readable_stateLines (p : Plan) : AllReadable (stateLines p) := by
  have hd : Begins ("local use_doubledash=" ++ boolWord p.interface.doubleDash) :=
    (begins_ofList (by decide)).append (continues_boolWord _)
  have hf : Begins ("local has_short_opts=" ++ boolWord p.hasFlags) :=
    (begins_ofList (by decide)).append (continues_boolWord _)
  have ht : Continues (" ".intercalate (p.slots.map fun _ => "true")) := by
    refine continues_of_calm (.intercalate (by decide) (List.forall_mem_map.2 fun _ _ => by decide))
      (Text.not_mem_intercalate (by decide) (List.forall_mem_map.2 fun _ _ => by decide))
  have hr : Begins ("local -a args_required=(" ++
      " ".intercalate (p.slots.map fun _ => "true") ++ ")") :=
    ((begins_ofList (by decide)).append ht).append (continues_ofList (by decide))
  have ho : Begins ("local -a explicit_slots=(" ++ ordinals p.explicitOrder ++ ")") :=
    ((begins_ofList (by decide)).append (continues_ordinals _)).append
      (continues_ofList (by decide))
  have hm : Line.Readable
      { pieces := [.code "local short_opt_prefix=", .word p.interface.flagMark] } :=
    Line.readable_of_begins (begins_ofList (by decide)) (arePlain_nil.word _) 0
  have hv : AllReadable (p.flags.map fun e =>
      entryLine "short_opts_requires_value" e.literal (boolWord e.takesValue)) :=
    allReadable_map (fun e => readable_entryLine e.literal (begins_ofList (by decide))
      (continues_boolWord _)) p.flags
  have hu : AllReadable (p.flags.map fun e => entryLine "short_opts_used" e.literal "false") :=
    allReadable_map (fun e => readable_entryLine e.literal (begins_ofList (by decide))
      (continues_boolWord false)) p.flags
  have hc := allReadable_map
    (fun s : Slot => Line.readable_comment (s!"slot {s.ordinal}: " ++ s.label)) p.slots
  have h1 : Begins "declare -A short_opts_requires_value=()" := begins_ofList (by decide)
  have h2 : Begins "declare -A short_opts_used=()" := begins_ofList (by decide)
  simp only [stateLines, allReadable_append_iff, allReadable_cons_iff, allReadable_nil,
    Line.readable_plain_iff, Line.readable_blank, hd, hf, hr, ho, hm, hv, hu, hc, h1, h2, and_self]

theorem readable_usedBranch (e : FlagEntry) : (usedBranch e).Readable where
  pattern := arePlain_nil.word e.literal
  atMargin := trivial
  body := .cons (readable_entryLine e.literal (begins_ofList (by decide)) (continues_boolWord true))
    allReadable_nil

theorem readable_scanLines (p : Plan) : AllReadable (scanLines p) := by
  have hb : ∀ b ∈ p.flags.map usedBranch, b.Readable :=
    List.forall_mem_map.2 fun e _ => readable_usedBranch e
  have hc := readable_caseLines "$\x7bCOMP_WORDS[word_i]\x7d" (continues_ofList (by decide)) hb
  simp only [scanLines, scanBody, allReadable_indent_iff, allReadable_append_iff, hc, and_true]
  refine ⟨⟨?_, ?_, ?_⟩, ?_⟩
  all_goals
    repeat first
      | refine .cons (Line.readable_code (by decide) _) ?_
      | refine .cons Line.readable_blank ?_
    exact allReadable_nil

theorem readable_liftLines (ordinal : Nat) (flag : String) :
    AllReadable (liftLines ordinal flag) := by
  have hp : ArePlain [.word flag, .code "]-false\x7d; then"] :=
    (arePlain_nil.code (plain_ofList (by decide))).word flag
  have ho : Begins s!"args_required[{ordinal}]=false" :=
    ((begins_ofList (by decide)).append (continues_toString ordinal)).append
      (continues_ofList (by decide))
  exact .cons (Line.readable_of_begins (begins_ofList (by decide)) hp 0)
    (.cons (Line.readable_of_begins ho arePlain_nil 1)
      (.cons (Line.readable_code (by decide) 0) allReadable_nil))

theorem readable_skipLines (p : Plan) : AllReadable (skipLines p) :=
  allReadable_flatMap fun s _ => allReadable_flatMap fun flag _ => readable_liftLines s.ordinal flag

theorem readable_slotLines : AllReadable slotLines := by
  repeat refine .cons (Line.readable_code (by decide) _) ?_
  exact allReadable_nil

theorem readable_modeLines : AllReadable modeLines := by
  repeat refine .cons (Line.readable_code (by decide) _) ?_
  exact allReadable_nil

theorem plain_alternatives (es : List FlagEntry) : ArePlain (alternatives es) := by
  induction es with
  | nil => exact arePlain_nil
  | cons e es ih =>
    cases es with
    | nil => exact arePlain_nil.word e.literal
    | cons f fs =>
      have hb : Plain " | " := plain_ofList (by decide)
      exact (ih.code hb).word e.literal

theorem atMargin_alternatives (es : List FlagEntry) : AtMargin (alternatives es) := by
  rcases es with _ | ⟨e, _ | ⟨f, fs⟩⟩ <;> trivial

theorem readable_valueBranches (p : Plan) : ∀ b ∈ valueBranches p, b.Readable := by
  rw [valueBranches_eq, List.forall_mem_map]
  exact fun o _ => ⟨plain_alternatives _, atMargin_alternatives _, readable_sourceLines _⟩

theorem readable_codeBranch {b : Branch} {s : String} (h : b.pattern = [.code s]) (hs : Begins s)
    (hb : AllReadable b.body) : b.Readable where
  pattern := by simpa [h, ArePlain, Piece.Plain] using hs.1
  atMargin := by simpa [h, AtMargin] using hs.2
  body := hb

theorem readable_slotBranches (p : Plan) : ∀ b ∈ slotBranches p, b.Readable := by
  rw [slotBranches_eq_map, List.forall_mem_map]
  intro o _
  refine readable_codeBranch rfl ?_ (readable_sourceLines _)
  cases o.key with
  | none => exact begins_ofList (by decide)
  | some n => exact begins_toString n

theorem readable_flagBranch (p : Plan) : (flagBranch p).Readable := by
  refine readable_codeBranch rfl (begins_ofList (by decide)) ?_
  have hw : ArePlain [.wordList (p.flags.map (·.literal)), .code " -- \"$cur\")"] :=
    List.forall_mem_cons.2 ⟨trivial, arePlain_nil.code (plain_ofList (by decide))⟩
  refine .cons (Line.readable_of_begins (begins_ofList (by decide)) hw 0) ?_
  repeat refine .cons (Line.readable_code (by decide) _) ?_
  exact allReadable_nil

theorem readable_candidateLines (p : Plan) : AllReadable (candidateLines p) := by
  refine readable_caseLines "$mode" (continues_ofList (by decide)) fun b hb => ?_
  have hv := readable_caseLines "$prev" (continues_ofList (by decide)) (readable_valueBranches p)
  have hs := readable_caseLines "$arg_slot" (continues_ofList (by decide)) (readable_slotBranches p)
  rcases List.mem_append.1 hb with hb | hb
  · split at hb
    · simp only [List.mem_cons, List.not_mem_nil, or_false] at hb
      rcases hb with rfl | rfl
      · exact readable_flagBranch p
      · exact readable_codeBranch rfl (begins_ofList (by decide)) hv
    · simp at hb
  · split at hb
    · simp at hb
    · cases List.mem_singleton.1 hb
      exact readable_codeBranch rfl (begins_ofList (by decide)) hs

/-! ### The script -/

theorem readable_bodyLines (p : Plan) : AllReadable (bodyLines p) := by
  have hb : AllReadable [.blank] := .cons Line.readable_blank allReadable_nil
  simp only [bodyLines, allReadable_append_iff, readable_stateLines p, readable_scanLines p,
    readable_skipLines p, readable_slotLines, readable_modeLines, readable_candidateLines p, hb,
    and_true]
  refine ⟨?_, ?_⟩
  all_goals
    repeat first
      | refine .cons (Line.readable_code (by decide) _) ?_
      | refine .cons Line.readable_blank ?_
    exact allReadable_nil

theorem readable_lines (i : Interface) : AllReadable (lines i) := by
  have hn : Begins (functionName i ++ "() \x7b") :=
    (begins_functionName i).append (continues_ofList (by decide))
  have he : Begins "\x7d" := begins_ofList (by decide)
  simp [lines, hn, he, readable_bodyLines]

/-- The lines of a script are read from its text. -/
theorem readLines_text (i : Interface) : readLines (text i) = asRead (lines i) :=
  readLines_joined (readable_lines i)

end ShellCompletion.Script
