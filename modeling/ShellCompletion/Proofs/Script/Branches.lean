import ShellCompletion.Proofs.Plan.Flags
import ShellCompletion.Proofs.Script.Reading
import ShellCompletion.Proofs.Shell.Heads

/-! The case statements of a script. The words before the cursor are told by one of them, the
modes by another, and inside the branches of the modes stand those on the flag before the cursor
and on the slot. The main statement says that these are all, and with which branches they are read
from the text of the script. -/
namespace ShellCompletion.Script

open Shell

/-! ### Patterns -/

theorem isReadBack_code {b : Branch} {s : String} (h : b.pattern = [.code s]) (hs : s ≠ "") :
    b.IsReadBack := by
  have hne : s ++ ")" ≠ ")" := fun he => hs (by simpa using congrArg String.toList he)
  have ho : b.opening.pieces = [.code (s ++ ")")] := by rw [Branch.opening, h]; rfl
  rw [Branch.IsReadBack, ho, h]
  simp [unclose, hne]

theorem fuse_alternatives (es : List FlagEntry) :
    fuse (alternatives es ++ [.code ")"]) = alternatives es ++ [.code ")"] := by
  induction es with
  | nil => rfl
  | cons e es ih =>
    cases es with
    | nil => rfl
    | cons f fs =>
      -- the next alternative begins with a word, which the bar does not touch
      have hw : ∃ ps, alternatives (f :: fs) ++ [.code ")"] = .word f.literal :: ps := by
        cases fs <;> exact ⟨_, rfl⟩
      simp only [alternatives, List.cons_append, fuse, ih]
      obtain ⟨ps, hps⟩ := hw
      rw [hps]
      rfl

theorem isReadBack_alternatives {b : Branch} (es : List FlagEntry)
    (h : b.pattern = alternatives es) : b.IsReadBack := by
  rw [Branch.IsReadBack, Branch.opening, h, fuse_alternatives, unclose]
  simp

/-! ### Sections -/

theorem allOrdinary_entryLines {α : Type} {table : List Char}
    (h : caseStems.all (apart · table) = true) (flag value : α → String) (xs : List α) :
    AllOrdinary (xs.map fun x => entryLine (String.ofList table) (flag x) (value x)) :=
  List.forall_mem_map.2 fun _ _ => isOrdinary_code_append h 0 _ "["

theorem allOrdinary_sourceLines (s : Option Source) : AllOrdinary (sourceLines s) := by
  match s with
  | none => exact allOrdinary_nil
  | some (.builtin kind) =>
    refine .cons ?_ ?_
    · rw [String.append_assoc]
      exact isOrdinary_code_append rfl 0 [] _
    · repeat refine .cons (isOrdinary_code rfl _ _) ?_
      exact allOrdinary_nil
  | some (.command argv) =>
    simp only [sourceLines]
    split
    · exact allOrdinary_nil
    · repeat refine .cons (isOrdinary_code rfl _ _) ?_
      exact allOrdinary_nil

theorem allOrdinary_stateLines (p : Plan) : AllOrdinary (stateLines p) := by
  have hd : (Line.plain
      ("local use_doubledash=" ++ boolWord p.interface.doubleDash)).fused.IsOrdinary :=
    isOrdinary_code_append rfl 0 [] _
  have hf : (Line.plain ("local has_short_opts=" ++ boolWord p.hasFlags)).fused.IsOrdinary :=
    isOrdinary_code_append rfl 0 [] _
  have hm : (Line.mk 0
      [.code "local short_opt_prefix=", .word p.interface.flagMark]).fused.IsOrdinary :=
    isOrdinary_code rfl 0 _
  have hr : (Line.plain ("local -a args_required=(" ++
      " ".intercalate (p.slots.map fun _ => "true") ++ ")")).fused.IsOrdinary := by
    rw [String.append_assoc]
    exact isOrdinary_code_append rfl 0 [] _
  have ho : (Line.plain
      ("local -a explicit_slots=(" ++ ordinals p.explicitOrder ++ ")")).fused.IsOrdinary := by
    rw [String.append_assoc]
    exact isOrdinary_code_append rfl 0 [] _
  have hc (t : Slot → String) : AllOrdinary (p.slots.map fun s => .comment (t s)) :=
    List.forall_mem_map.2 fun s _ => isOrdinary_comment (t s)
  have hv : AllOrdinary (p.flags.map fun e =>
      entryLine "short_opts_requires_value" e.literal (boolWord e.takesValue)) :=
    allOrdinary_entryLines rfl FlagEntry.literal (fun e => boolWord e.takesValue) p.flags
  have hu : AllOrdinary (p.flags.map fun e => entryLine "short_opts_used" e.literal "false") :=
    allOrdinary_entryLines rfl FlagEntry.literal (fun _ => "false") p.flags
  have h1 : (Line.plain "declare -A short_opts_requires_value=()").fused.IsOrdinary :=
    isOrdinary_code rfl 0 []
  have h2 : (Line.plain "declare -A short_opts_used=()").fused.IsOrdinary :=
    isOrdinary_code rfl 0 []
  simp only [stateLines, allOrdinary_append_iff, allOrdinary_cons_iff, allOrdinary_nil, hd, hf, hm,
    hr, ho, hc, hv, hu, h1, h2, isOrdinary_blank, and_self]

theorem allOrdinary_skipLines (p : Plan) : AllOrdinary (skipLines p) := by
  have hl (k : Nat) (flag : String) : AllOrdinary (liftLines k flag) := by
    refine .cons (isOrdinary_code rfl 0 _) (.cons ?_
      (.cons (isOrdinary_code rfl 0 []) allOrdinary_nil))
    rw [String.append_assoc]
    exact isOrdinary_code_append rfl 1 [] _
  exact List.forall_mem_flatMap.2 fun s _ => List.forall_mem_flatMap.2 fun f _ => hl s.ordinal f

theorem allOrdinary_slotLines : AllOrdinary slotLines := by
  repeat refine .cons (isOrdinary_code rfl _ []) ?_
  exact allOrdinary_nil

theorem allOrdinary_modeLines : AllOrdinary modeLines := by
  repeat refine .cons (isOrdinary_code rfl _ []) ?_
  exact allOrdinary_nil

/-! ### Case statements -/

variable (p : Plan)

/-- Offers are read with what selects them and with the lines of their sources. -/
theorem parses_offers {κ : Type} (subject : String) {pattern : κ → List Piece}
    (hp : ∀ b : Branch, ∀ k, b.pattern = pattern k → b.IsReadBack) (os : List (Offer κ)) :
    Parses (asRead (caseLines subject (os.map (Offer.branch pattern))))
      [(subject, (os.map (Offer.branch pattern)).map Branch.asRead)] := by
  have hb (b : Branch) (hb : b ∈ os.map (Offer.branch pattern)) :
      Parses (asRead b.body) [] ∧ b.IsReadBack := by
    obtain ⟨o, _, rfl⟩ := List.mem_map.1 hb
    exact ⟨parses_of_allOrdinary (allOrdinary_sourceLines (some o.source)), hp _ o.key rfl⟩
  have h := parses_caseLines subject hb
  rwa [List.flatMap_eq_nil_iff.2 fun _ _ => rfl] at h

theorem parses_valueCases : Parses (asRead (caseLines "$prev" (valueBranches p)))
    [("$prev", (valueBranches p).map Branch.asRead)] := by
  rw [valueBranches_eq]
  exact parses_offers "$prev" (fun _ es => isReadBack_alternatives es) (valueOffers p)

theorem parses_slotCases : Parses (asRead (caseLines "$arg_slot" (slotBranches p)))
    [("$arg_slot", (slotBranches p).map Branch.asRead)] := by
  rw [slotBranches_eq_map]
  refine parses_offers "$arg_slot" (fun b key h => isReadBack_code h ?_) (slotOffers p)
  cases key with
  | none => decide
  | some n =>
    obtain ⟨d, hh, _⟩ := Text.exists_head?_toString n
    intro he
    rw [Option.elim_some] at he
    simp [he] at hh

theorem parses_flagBody : Parses (asRead (flagBranch p).body) [] := by
  refine parses_of_allOrdinary ?_
  repeat refine .cons (isOrdinary_code rfl _ _) ?_
  exact allOrdinary_nil

/-- The case statements inside the branches of the modes. -/
def innerCases : List (String × List Branch) :=
  (if p.hasFlags then [("$prev", (valueBranches p).map Branch.asRead)] else []) ++
    if p.interface.slots.isEmpty then [] else [("$arg_slot", (slotBranches p).map Branch.asRead)]

theorem flatMap_modeBranches :
    ((modeBranches p).flatMap fun b => readCases (asRead b.body)) = innerCases p := by
  rw [modeBranches, innerCases, List.flatMap_append]
  congr 1
  · split
    · simp [(parses_flagBody p).readCases_eq, (parses_valueCases p).readCases_eq]
    · rfl
  · split
    · rfl
    · simp [(parses_slotCases p).readCases_eq]

theorem parses_candidateLines : Parses (asRead (candidateLines p))
    (("$mode", (modeBranches p).map Branch.asRead) :: innerCases p) := by
  have hb (b : Branch) (hb : b ∈ modeBranches p) :
      Parses (asRead b.body) (readCases (asRead b.body)) ∧ b.IsReadBack := by
    rcases List.mem_append.1 hb with hb | hb
    · split at hb
      · simp only [List.mem_cons, List.not_mem_nil, or_false] at hb
        rcases hb with rfl | rfl
        · exact ⟨(parses_flagBody p).self, isReadBack_code rfl (by decide)⟩
        · exact ⟨(parses_valueCases p).self, isReadBack_code rfl (by decide)⟩
      · exact absurd hb List.not_mem_nil
    · split at hb
      · exact absurd hb List.not_mem_nil
      · cases List.mem_singleton.1 hb
        exact ⟨(parses_slotCases p).self, isReadBack_code rfl (by decide)⟩
  have h := parses_caseLines "$mode" hb
  rwa [flatMap_modeBranches] at h

/-- What the branch of a flag in the scan is read as. -/
def usedCase (flag : String) : Branch where
  pattern := [.word flag]
  body := [entryLine "short_opts_used" flag "true"]

theorem parses_scanLines : Parses (asRead (scanLines p))
    [("$\x7bCOMP_WORDS[word_i]\x7d", p.flags.map fun e => usedCase e.literal)] := by
  have hu (e : FlagEntry) : AllOrdinary (usedBranch e).body :=
    .cons (isOrdinary_code_append rfl 0 _ "[") allOrdinary_nil
  have hb (b : Branch) (hb : b ∈ p.flags.map usedBranch) :
      Parses (asRead b.body) [] ∧ b.IsReadBack := by
    obtain ⟨e, _, rfl⟩ := List.mem_map.1 hb
    exact ⟨parses_of_allOrdinary (hu e), isReadBack_alternatives [e] rfl⟩
  have hc := parses_caseLines "$\x7bCOMP_WORDS[word_i]\x7d" hb
  rw [List.flatMap_eq_nil_iff.2 fun _ _ => rfl, List.map_map] at hc
  have ho {ls : List Line} (h : AllOrdinary ls) : Parses (asRead ls) [] := parses_of_allOrdinary h
  rw [scanLines, scanBody, asRead_append, asRead_append, asRead_indent, asRead_append, asRead_append]
  refine ((ho ?_).append (((ho ?_).append hc).append (ho ?_))).append (ho ?_)
  all_goals
    repeat first
      | refine .cons (isOrdinary_code rfl _ []) ?_
      | refine .cons isOrdinary_blank ?_
    exact allOrdinary_nil

/-! ### The script -/

theorem parses_bodyLines : Parses (asRead (bodyLines p))
    (("$\x7bCOMP_WORDS[word_i]\x7d", p.flags.map fun e => usedCase e.literal) ::
      ("$mode", (modeBranches p).map Branch.asRead) :: innerCases p) := by
  have ho {ls : List Line} (h : AllOrdinary ls) : Parses (asRead ls) [] := parses_of_allOrdinary h
  have hb : Parses (asRead [.blank]) [] := ho (.cons isOrdinary_blank allOrdinary_nil)
  simp only [bodyLines, asRead_append]
  refine (((((((((ho ?_).append (ho (allOrdinary_stateLines p))).append
    (ho ?_)).append (parses_scanLines p)).append
    (ho (allOrdinary_skipLines p))).append hb).append (ho allOrdinary_slotLines)).append hb).append
    (ho allOrdinary_modeLines)).append hb |>.append (parses_candidateLines p)
  all_goals
    repeat first
      | refine .cons (isOrdinary_code rfl _ []) ?_
      | refine .cons isOrdinary_blank ?_
    exact allOrdinary_nil

/-- The case statements of a script: that of the scan, and that on the mode with those inside. -/
theorem readCases_text (i : Interface) :
    let p := Plan.ofInterface i
    readCases (readLines (text i)) =
      ("$\x7bCOMP_WORDS[word_i]\x7d", p.flags.map fun e => usedCase e.literal) ::
        ("$mode", (modeBranches p).map Branch.asRead) :: innerCases p := by
  intro p
  have hh : (Line.plain (functionName i ++ "() \x7b")).IsOrdinary :=
    isOrdinary_code_append rfl 0 [] _
  have he : Parses (asRead [.plain "\x7d"]) [] :=
    parses_of_allOrdinary (.cons (isOrdinary_code rfl 0 []) allOrdinary_nil)
  have h := ((parses_bodyLines p).append he).cons hh
  rw [List.append_nil] at h
  rw [readLines_text, ← h.readCases_eq]
  simp [lines, p]

theorem filter_innerCases (subject : String) (hv : "$prev" ≠ subject) (hs : "$arg_slot" ≠ subject) :
    (innerCases p).filter (·.1 = subject) = [] := by
  unfold innerCases
  split <;> split <;> simp [hv, hs]

theorem filter_modeBranches :
    (modeBranches p).filter (·.pattern = [.code "opt"]) =
        (if p.hasFlags then [flagBranch p] else []) ∧
      (modeBranches p).filter (·.pattern = [.code "opt_arg"]) = (if p.hasFlags then
        [{ pattern := [.code "opt_arg"], body := caseLines "$prev" (valueBranches p) }] else []) ∧
      (modeBranches p).filter (·.pattern = [.code "arg"]) = (if p.interface.slots.isEmpty then []
        else [{ pattern := [.code "arg"], body := caseLines "$arg_slot" (slotBranches p) }]) := by
  unfold modeBranches
  cases p.hasFlags <;> cases p.interface.slots.isEmpty <;> simp [flagBranch]

/-- The branches for a mode. -/
def branchesFor (mode : String) (ls : List Line) : List Branch :=
  (branchesOn "$mode" ls).filter (·.pattern = [.code mode])

/-- The branches of the case statements on a word inside the branches for a mode. -/
def inMode (mode subject : String) (ls : List Line) : List Branch :=
  (branchesFor mode ls).flatMap fun b => branchesOn subject b.body

section

variable (i : Interface)

theorem branchesOn_scan : branchesOn "$\x7bCOMP_WORDS[word_i]\x7d" (readLines (text i)) =
    i.flags.eraseDups.map usedCase := by
  have hf := filter_innerCases (.ofInterface i) "$\x7bCOMP_WORDS[word_i]\x7d" (by decide)
    (by decide)
  rw [branchesOn, readCases_text, ← Plan.map_literal_flags]
  simp [hf]

theorem branchesFor_eq (mode : String) : branchesFor mode (readLines (text i)) =
    ((modeBranches (.ofInterface i)).filter (·.pattern = [.code mode])).map Branch.asRead := by
  have hf := filter_innerCases (.ofInterface i) "$mode" (by decide) (by decide)
  have hb : branchesOn "$mode" (readLines (text i)) =
      (modeBranches (.ofInterface i)).map Branch.asRead := by
    rw [branchesOn, readCases_text]
    simp [hf]
  rw [branchesFor, hb, List.filter_map]
  rfl

/-- The branches on the flag before the cursor. -/
theorem inMode_prev : inMode "opt_arg" "$prev" (readLines (text i)) =
    (valueBranches (.ofInterface i)).map Branch.asRead := by
  rw [inMode, branchesFor_eq, (filter_modeBranches _).2.1]
  cases hf : (Plan.ofInterface i).hasFlags with
  | true => simp [Branch.asRead, branchesOn, (parses_valueCases (.ofInterface i)).readCases_eq]
  | false => simp [valueBranches_eq, valueOffers_eq_nil hf]

/-- The branches on the slot of the argument at the cursor. -/
theorem inMode_arg_slot : inMode "arg" "$arg_slot" (readLines (text i)) =
    (slotBranches (.ofInterface i)).map Branch.asRead := by
  have hp : (Plan.ofInterface i).interface.slots = i.slots := rfl
  rw [inMode, branchesFor_eq, (filter_modeBranches _).2.2, hp]
  cases hs : i.slots.isEmpty with
  | true => simp [slotBranches_eq_map, slotOffers_eq_nil (List.isEmpty_iff.1 hs)]
  | false => simp [Branch.asRead, branchesOn, (parses_slotCases (.ofInterface i)).readCases_eq]

end

end ShellCompletion.Script
