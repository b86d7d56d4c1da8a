import ShellCompletion.Proofs.Shell.Closed
import ShellCompletion.Script.Text

/-! Every line of a script is closed. The program text of a section is fixed up to truth
words, numbers and the name of the function, and these have no characters that begin a
quotation or a comment; everything else that a document says is quoted or commented on. -/
namespace ShellCompletion.Script

open Shell

theorem calm_boolWord (b : Bool) : Calm (boolWord b) := by cases b <;> decide

theorem isNameChar_of_mem_functionName {i : Interface} {c : Char}
    (h : c ∈ (functionName i).toList) : isNameChar c = true := by
  simp only [functionName, String.toList_ofList, List.mem_cons, List.mem_map] at h
  rcases h with rfl | ⟨d, _, rfl⟩
  · decide
  · split
    · assumption
    · decide

theorem calm_functionName (i : Interface) : Calm (functionName i) := by
  rw [calm_iff]
  intro c hc
  have hn := isNameChar_of_mem_functionName hc
  rw [isCalm_iff]
  refine ⟨?_, ?_, ?_⟩ <;> rintro rfl <;> exact absurd hn (by decide)

theorem calm_ordinals (slots : List Slot) : Calm (ordinals slots) := by
  refine .intercalate (calm_ofList rfl) fun t ht => ?_
  obtain ⟨s, _, rfl⟩ := List.mem_map.1 ht
  exact calm_toString s.ordinal

/-! ### Sections -/

theorem closed_sourceLines (s : Option Source) : AllClosed (sourceLines s) := by
  match s with
  | none => exact allClosed_nil
  | some (.builtin kind) =>
    refine .cons ?_ ?_
    · refine (Line.closed_plain_iff _).2 (Balanced.append (Balanced.append ?_ ?_) ?_)
      · exact balanced_ofList rfl
      · cases kind <;> exact balanced_ofList rfl
      · exact balanced_ofList rfl
    · repeat refine .cons (Line.closed_code rfl _) ?_
      exact allClosed_nil
  | some (.command argv) =>
    simp only [sourceLines]
    split
    · exact allClosed_nil
    · have hs : Balanced " " := balanced_ofList rfl
      have hb : Balanced "mapfile -t lines < <(" := balanced_ofList rfl
      have he : Balanced "2>/dev/null)" := balanced_ofList rfl
      refine .cons (Line.closed_of_pieces ?_) ?_
      · simp only [List.cons_append, List.forall_mem_cons, List.forall_mem_append,
          List.forall_mem_flatMap]
        exact ⟨hb, fun a _ => ⟨trivial, hs, List.forall_mem_nil _⟩, he, List.forall_mem_nil _⟩
      · repeat refine .cons (Line.closed_code rfl _) ?_
        exact allClosed_nil

theorem closed_entryLine (table flag value : String) (ht : Calm table) (hv : Calm value) :
    (entryLine table flag value).Closed := by
  have ho : Balanced (table ++ "[") := (ht.append (calm_ofList rfl)).balanced
  have hc : Balanced ("]=" ++ value) := (Calm.append (calm_ofList rfl) hv).balanced
  exact Line.closed_of_pieces (by simp [ho, hc])

theorem closed_stateLines (p : Plan) : AllClosed (stateLines p) := by
  have hd : Balanced ("local use_doubledash=" ++ boolWord p.interface.doubleDash) :=
    (Calm.append (calm_ofList rfl) (calm_boolWord _)).balanced
  have hf : Balanced ("local has_short_opts=" ++ boolWord p.hasFlags) :=
    (Calm.append (calm_ofList rfl) (calm_boolWord _)).balanced
  have hr : Balanced ("local -a args_required=(" ++
      " ".intercalate (p.slots.map fun _ => "true") ++ ")") :=
    ((Calm.append (calm_ofList rfl) (.intercalate (calm_ofList rfl)
      (List.forall_mem_map.2 fun _ _ => calm_ofList rfl))).append (calm_ofList rfl)).balanced
  have ho : Balanced ("local -a explicit_slots=(" ++ ordinals p.explicitOrder ++ ")") :=
    ((Calm.append (calm_ofList rfl) (calm_ordinals _)).append (calm_ofList rfl)).balanced
  have hs : Balanced "local short_opt_prefix=" := balanced_ofList rfl
  have hm : Line.Closed
      { pieces := [.code "local short_opt_prefix=", .word p.interface.flagMark] } :=
    Line.closed_of_pieces (by simp [hs])
  have hv := allClosed_map (fun e : FlagEntry => closed_entryLine "short_opts_requires_value"
    e.literal (boolWord e.takesValue) (calm_ofList rfl) (calm_boolWord _)) p.flags
  have hu := allClosed_map (fun e : FlagEntry => closed_entryLine "short_opts_used" e.literal
    "false" (calm_ofList rfl) (calm_ofList rfl)) p.flags
  have hc := allClosed_map
    (fun s : Slot => Line.closed_comment (s!"slot {s.ordinal}: " ++ s.label)) p.slots
  have h1 : Balanced "declare -A short_opts_requires_value=()" := balanced_ofList rfl
  have h2 : Balanced "declare -A short_opts_used=()" := balanced_ofList rfl
  simp only [stateLines, allClosed_append_iff, allClosed_cons_iff, allClosed_nil,
    Line.closed_plain_iff, Line.closed_blank, hd, hf, hr, ho, hm, hv, hu, hc, h1, h2, and_self]

theorem closed_usedBranch (e : FlagEntry) : (usedBranch e).Closed where
  pattern := by simp [usedBranch, Piece.Closed]
  body := by simpa [usedBranch] using
    closed_entryLine "short_opts_used" e.literal "true" (calm_ofList rfl) (calm_ofList rfl)

theorem closed_scanLines (p : Plan) : AllClosed (scanLines p) := by
  have hb : ∀ b ∈ p.flags.map usedBranch, b.Closed :=
    List.forall_mem_map.2 fun e _ => closed_usedBranch e
  have hc := closed_caseLines "$\x7bCOMP_WORDS[word_i]\x7d" (balanced_ofList rfl) hb
  simp only [scanLines, scanBody, allClosed_indent_iff, allClosed_append_iff, hc, and_true]
  refine ⟨⟨?_, ?_, ?_⟩, ?_⟩
  all_goals
    repeat first
      | refine .cons (Line.closed_code rfl _) ?_
      | refine .cons Line.closed_blank ?_
    exact allClosed_nil

theorem closed_liftLines (ordinal : Nat) (flag : String) : AllClosed (liftLines ordinal flag) := by
  have hb : Balanced "if $\x7bshort_opts_used[" := balanced_ofList rfl
  have he : Balanced "]-false\x7d; then" := balanced_ofList rfl
  have hf : Line.Closed { pieces :=
      [.code "if $\x7bshort_opts_used[", .word flag, .code "]-false\x7d; then"] } :=
    Line.closed_of_pieces (by simp [hb, he])
  have ho : Balanced s!"args_required[{ordinal}]=false" :=
    ((Calm.append (calm_ofList rfl) (calm_toString ordinal)).append (calm_ofList rfl)).balanced
  exact .cons hf (.cons ((Line.closed_plain_iff _).2 ho)
    (.cons (Line.closed_code rfl 0) allClosed_nil))

theorem closed_skipLines (p : Plan) : AllClosed (skipLines p) :=
  allClosed_flatMap fun s _ => allClosed_flatMap fun flag _ => closed_liftLines s.ordinal flag

theorem closed_slotLines : AllClosed slotLines := by
  repeat refine .cons (Line.closed_code rfl _) ?_
  exact allClosed_nil

theorem closed_modeLines : AllClosed modeLines := by
  repeat refine .cons (Line.closed_code rfl _) ?_
  exact allClosed_nil

theorem closed_alternatives (es : List FlagEntry) : ∀ p ∈ alternatives es, p.Closed := by
  induction es with
  | nil => simp [alternatives]
  | cons e es ih =>
    cases es with
    | nil => simp [alternatives, Piece.Closed]
    | cons f fs =>
      simp only [alternatives, List.forall_mem_cons]
      exact ⟨trivial, show Balanced " | " from balanced_ofList rfl, ih⟩

theorem closed_valueBranches (p : Plan) : ∀ b ∈ valueBranches p, b.Closed := by
  intro b hb
  simp only [valueBranches, List.mem_filterMap, List.mem_mapIdx] at hb
  obtain ⟨_, ⟨k, hk, rfl⟩, hb⟩ := hb
  simp only [id, valueBranch?, Option.bind_eq_bind, Option.bind_eq_some_iff] at hb
  obtain ⟨v, _, c, _, hb⟩ := hb
  split at hb
  · simp at hb
  · cases hb
    exact ⟨closed_alternatives _, closed_sourceLines _⟩

theorem closed_of_slotBranch? {label : String} (hl : Calm label) {s : Slot} {b : Branch}
    (h : slotBranch? label s = some b) : b.Closed := by
  obtain ⟨c, _, rfl⟩ := Option.map_eq_some_iff.1 h
  exact ⟨List.forall_mem_singleton.2 hl.balanced, closed_sourceLines _⟩

theorem closed_slotBranches (p : Plan) : ∀ b ∈ slotBranches p, b.Closed := by
  intro b hb
  simp only [slotBranches, List.mem_append, List.mem_filterMap, Option.mem_toList,
    Option.bind_eq_some_iff] at hb
  rcases hb with ⟨s, _, hs⟩ | ⟨s, _, hs⟩
  · exact closed_of_slotBranch? (calm_toString s.ordinal) hs
  · exact closed_of_slotBranch? (calm_ofList rfl) hs

theorem closed_flagBranch (p : Plan) : (flagBranch p).Closed where
  pattern := List.forall_mem_singleton.2 (show Balanced "opt" from balanced_ofList rfl)
  body := by
    have hb : Balanced "mapfile -t lines < <(compgen -W " := balanced_ofList rfl
    have he : Balanced " -- \"$cur\")" := balanced_ofList rfl
    refine .cons (Line.closed_of_pieces (by simp [hb, he])) ?_
    repeat refine .cons (Line.closed_code rfl _) ?_
    exact allClosed_nil

theorem closed_candidateLines (p : Plan) : AllClosed (candidateLines p) := by
  refine closed_caseLines "$mode" (balanced_ofList rfl) fun b hb => ?_
  have hv := closed_caseLines "$prev" (balanced_ofList rfl) (closed_valueBranches p)
  have hs := closed_caseLines "$arg_slot" (balanced_ofList rfl) (closed_slotBranches p)
  rcases List.mem_append.1 hb with hb | hb
  · split at hb
    · simp only [List.mem_cons, List.not_mem_nil, or_false] at hb
      rcases hb with rfl | rfl
      · exact closed_flagBranch p
      · exact ⟨List.forall_mem_singleton.2 (show Balanced "opt_arg" from balanced_ofList rfl), hv⟩
    · simp at hb
  · split at hb
    · simp at hb
    · cases List.mem_singleton.1 hb
      exact ⟨List.forall_mem_singleton.2 (show Balanced "arg" from balanced_ofList rfl), hs⟩

/-! ### The script -/

theorem closed_bodyLines (p : Plan) : AllClosed (bodyLines p) := by
  have hb : AllClosed [.blank] := .cons Line.closed_blank allClosed_nil
  simp only [bodyLines, allClosed_append_iff, closed_stateLines p, closed_scanLines p,
    closed_skipLines p, closed_slotLines, closed_modeLines, closed_candidateLines p, hb, and_true]
  refine ⟨?_, ?_⟩
  all_goals
    repeat first
      | refine .cons (Line.closed_code rfl _) ?_
      | refine .cons Line.closed_blank ?_
    exact allClosed_nil

theorem closed_lines (i : Interface) : AllClosed (lines i) := by
  have hn : Balanced (functionName i ++ "() \x7b") :=
    ((calm_functionName i).append (calm_ofList rfl)).balanced
  have he : Balanced "\x7d" := balanced_ofList rfl
  simp [lines, hn, he, closed_bodyLines]

theorem closed_registration (i : Interface) : (registration i).Closed := by
  have hn : Balanced ("complete -F " ++ functionName i ++ " ") :=
    ((Calm.append (calm_ofList rfl) (calm_functionName i)).append (calm_ofList rfl)).balanced
  exact Line.closed_of_pieces (by simp [hn])

end ShellCompletion.Script
