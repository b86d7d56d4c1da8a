import ShellCompletion.Proofs.Plan.Order
import ShellCompletion.Proofs.Script.Landmarks
import ShellCompletion.Proofs.Shell.Words

/-! The tables of flags in a script. Lines are read for what they give a flag in a table,
wherever they stand in the script. The main statements say what the tables have, of the lines of
the script and of the lines that are read from its text: each flag once, in the order of the first
declarations. All are unused at first, and the scan has a branch that marks each of them as used. -/
namespace ShellCompletion.Script

open Shell

/-- What a line gives a flag in a table. -/
def assignment? (table : String) (l : Line) : Option (String × Bool) :=
  match l.pieces with
  | [.code a, .word flag, .code b] =>
    if a = table ++ "[" then
      if b = "]=true" then some (flag, true)
      else if b = "]=false" then some (flag, false)
      else none
    else none
  | _ => none

/-- All that lines give flags in a table. -/
def assignments (table : String) (ls : List Line) : List (String × Bool) :=
  ls.filterMap (assignment? table)

section

variable (table : String)

theorem assignment?_entryLine (flag : String) (b : Bool) :
    assignment? table (entryLine table flag (boolWord b)) = some (flag, b) := by
  cases b <;> simp [assignment?, entryLine, boolWord]

/-- A line that does not start as an entry of the table gives nothing in it. -/
theorem assignment?_of_ne {l : Line} {s : String} {ps : List Piece}
    (hl : l.pieces = .code s :: ps) (hs : s ≠ table ++ "[") : assignment? table l = none := by
  rw [assignment?, hl]
  split
  · next h =>
    cases h
    rw [if_neg hs]
  · rfl

theorem head_of_assignment? {l : Line} {a : String × Bool} (h : assignment? table l = some a) :
    l.head = table ++ "[" := by
  rw [assignment?] at h
  split at h
  · next s flag b hl =>
    split at h
    · next hs => rw [Line.head, hl, hs]; rfl
    · cases h
  · cases h

@[simp] theorem assignments_append (ls ms : List Line) :
    assignments table (ls ++ ms) = assignments table ls ++ assignments table ms :=
  List.filterMap_append

/-- A table is filled by the landmarks of the script. -/
theorem assignments_landmarks (h : table ++ "[" ∈ marks) (ls : List Line) :
    assignments table (landmarks marks ls) = assignments table ls :=
  filterMap_landmarks (fun _ _ ha => Line.startsWith_of_head_eq (t := "") h
    (by rw [head_of_assignment? table ha, String.append_empty])) (fun _ => rfl) ls

theorem assignments_entryLines (value : FlagEntry → Bool) (es : List FlagEntry) :
    assignments table (es.map fun e => entryLine table e.literal (boolWord (value e))) =
      es.map fun e => (e.literal, value e) := by
  rw [assignments, List.filterMap_map, ← List.filterMap_eq_map]
  exact List.filterMap_congr fun e _ => assignment?_entryLine table e.literal (value e)

theorem assignments_of_ne {s : String} (hs : s ≠ table ++ "[") (ls : List Line)
    (h : ∀ l ∈ ls, ∃ ps, l.pieces = .code s :: ps) : assignments table ls = [] :=
  List.filterMap_eq_nil_iff.2 fun l hl =>
    let ⟨_, hps⟩ := h l hl
    assignment?_of_ne table hps hs

/-- The text of the script fills a table as those lines do. -/
theorem assignments_text (h : table ++ "[" ∈ marks) (i : Interface) :
    assignments table (readLines (text i)) = assignments table (markedLines (.ofInterface i)) := by
  rw [← assignments_landmarks table h, landmarks_readLines]

variable (p : Plan)

theorem assignments_testLines (hs : "if $\x7bshort_opts_used[" ≠ table ++ "[") :
    assignments table (testLines p) = [] := by
  rw [testLines, assignments, List.filterMap_flatMap, List.flatMap_eq_nil_iff]
  intro z _
  rw [List.filterMap_cons_none (assignment?_of_ne table rfl hs)]
  rfl

/-- Without the entries of flags, the lines of tables and tests fill no table. -/
theorem assignments_markedLines (hs : "if $\x7bshort_opts_used[" ≠ table ++ "[") :
    assignments table (markedLines p) =
      assignments table (p.flags.map fun e =>
          entryLine "short_opts_requires_value" e.literal (boolWord e.takesValue)) ++
        assignments table (p.flags.map fun e => entryLine "short_opts_used" e.literal "false") ++
        assignments table (p.flags.map fun e => entryLine "short_opts_used" e.literal "true") := by
  have hp (s : String) : assignments table [.plain s] = [] := rfl
  have hq (s t : String) : assignments table [.plain s, .plain t] = [] := rfl
  simp only [markedLines, tableLines, assignments_append, assignments_testLines table p hs, hp, hq,
    List.nil_append, List.append_nil]

end

/-! ### The table of used flags -/

/-- The table of the flags that are used. -/
def usedTable : String := "short_opts_used"

theorem assignments_used (p : Plan) : assignments usedTable (markedLines p) =
    p.flags.map (·.literal, false) ++ p.flags.map (·.literal, true) := by
  have hf := assignments_entryLines usedTable (fun _ => false) p.flags
  have ht := assignments_entryLines usedTable (fun _ => true) p.flags
  have hv := assignments_of_ne usedTable (by decide) (s := "short_opts_requires_value[")
    (p.flags.map fun e =>
      entryLine "short_opts_requires_value" e.literal (boolWord e.takesValue))
    (List.forall_mem_map.2 fun _ _ => ⟨_, rfl⟩)
  rw [assignments_markedLines usedTable p (by decide), hv, List.nil_append]
  exact congrArg₂ _ hf ht

/-- The flags of the table of used flags are those declared, each once and in the order of the
first declarations; all are unused at first, and the scan marks each as used. -/
theorem assignments_lines (i : Interface) :
    assignments usedTable (lines i) =
      i.flags.eraseDups.map (·, false) ++ i.flags.eraseDups.map (·, true) := by
  have hm : usedTable ++ "[" ∈ marks := by simp [usedTable, marks]
  rw [← assignments_landmarks usedTable hm, landmarks_lines, assignments_used,
    ← Plan.map_literal_flags, List.map_map, List.map_map]
  rfl

/-- The same is read from the text of the script. -/
theorem assignments_readLines (i : Interface) :
    assignments usedTable (readLines (text i)) =
      i.flags.eraseDups.map (·, false) ++ i.flags.eraseDups.map (·, true) := by
  have hm : usedTable ++ "[" ∈ marks := by simp [usedTable, marks]
  rw [← assignments_lines, assignments_text usedTable hm, ← landmarks_lines,
    assignments_landmarks usedTable hm]

/-! ### The table of flags that a value follows -/

/-- The table of the flags that a value follows. -/
def valueTable : String := "short_opts_requires_value"

/-- The flags of the table of values are those of the plan, each with whether a value follows. -/
theorem assignments_values (i : Interface) : assignments valueTable (readLines (text i)) =
    (Plan.ofInterface i).flags.map fun e => (e.literal, e.takesValue) := by
  have hv := assignments_entryLines valueTable FlagEntry.takesValue (Plan.ofInterface i).flags
  have hn (value : String) := assignments_of_ne valueTable (by decide) (s := "short_opts_used[")
    ((Plan.ofInterface i).flags.map fun e => entryLine "short_opts_used" e.literal value)
    (List.forall_mem_map.2 fun _ _ => ⟨_, rfl⟩)
  rw [assignments_text valueTable (by simp [valueTable, marks]),
    assignments_markedLines valueTable _ (by decide), hn, hn, List.append_nil, List.append_nil]
  exact hv

/-! ### Variables and arrays -/

/-- What lines set, between a beginning and an end of the line. -/
def settings (start stop : String) (ls : List Line) : List String :=
  ls.filterMap (·.inside? start stop)

section

variable {start : String} (hs : start ∈ marks) (stop : String)
include hs

theorem settings_landmarks (ls : List Line) :
    settings start stop (landmarks marks ls) = settings start stop ls :=
  filterMap_landmarks (fun _ _ h => Line.startsWith_of_inside? hs h) (fun _ => rfl) ls

theorem inside?_of_mark {s : String} (h : s ∈ marks) (hne : s ≠ start) (t : String) :
    (Line.plain (s ++ t)).inside? start stop = none :=
  Line.inside?_plain_eq_none (apart_of_mem_marks hs h hne.symm) t stop

end

/-- What the script sets, each with how the line begins: variables, arrays, entries of arrays. -/
def settingsOf (p : Plan) : List (String × String) :=
  [ ("local has_short_opts=", boolWord p.hasFlags),
    ("local -a args_required=(", " ".intercalate (p.slots.map fun _ => "true") ++ ")"),
    ("local -a explicit_slots=(", ordinals p.explicitOrder ++ ")")] ++
  (lifts p).map fun z => ("args_required[", toString z.1 ++ "]=false")

/-- The entries of flags and the tests set nothing between a beginning and an end. -/
theorem settings_markedLines (start stop : String) (p : Plan) :
    settings start stop (markedLines p) =
      settings start stop ((settingsOf p).map fun z => .plain (z.1 ++ z.2)) := by
  have he (table : String) (value : FlagEntry → String) :
      settings start stop (p.flags.map fun e => entryLine table e.literal (value e)) = [] :=
    List.filterMap_eq_nil_iff.2 (List.forall_mem_map.2 fun _ _ => rfl)
  have hk (k : Nat) : Line.plain s!"args_required[{k}]=false" =
      .plain ("args_required[" ++ (toString k ++ "]=false")) :=
    congrArg Line.plain (String.append_assoc ..)
  have hl : settings start stop (testLines p) = settings start stop
      ((lifts p).map fun z => .plain ("args_required[" ++ (toString z.1 ++ "]=false"))) := by
    rw [settings, settings, testLines, List.filterMap_flatMap, List.filterMap_map,
      List.filterMap_eq_flatMap_toList]
    refine List.flatMap_congr fun z _ => ?_
    rw [List.filterMap_cons_none rfl, hk, Function.comp_apply]
    generalize Line.plain _ = l
    cases h : l.inside? start stop with
    | none => rw [List.filterMap_cons_none h]; rfl
    | some t => rw [List.filterMap_cons_some h]; rfl
  have ha (ls ms : List Line) : settings start stop (ls ++ ms) =
      settings start stop ls ++ settings start stop ms := List.filterMap_append
  have hc (l m n : Line) : settings start stop [l, m, n] =
      settings start stop [l] ++ settings start stop [m, n] := ha [l] [m, n]
  simp only [markedLines, tableLines, settingsOf, List.map_append, List.map_cons, List.map_nil,
    List.map_map, Function.comp_def, ha, hl, he, hc, List.append_nil, String.append_assoc]

section

variable (i : Interface)

/-- A line that begins in another way does not set this. -/
theorem settings_readLines {start : String} (hs : start ∈ marks) (stop : String) :
    settings start stop (readLines (text i)) =
      settings start stop (((settingsOf (.ofInterface i)).filter (·.1 = start)).map fun z =>
        .plain (z.1 ++ z.2)) := by
  have hm : ∀ z ∈ settingsOf (.ofInterface i), z.1 ∈ marks := by
    simp only [settingsOf, List.forall_mem_append, List.forall_mem_map, List.forall_mem_cons]
    simp [marks, liftMarks]
  rw [← settings_landmarks hs, landmarks_readLines, settings_markedLines, settings, settings,
    List.filterMap_map, List.filterMap_map, List.filterMap_filter]
  refine List.filterMap_congr fun z hz => ?_
  by_cases h : z.1 = start
  · simp [h]
  · simp [h, inside?_of_mark hs stop (hm z hz) h]

/-- The script says in one place whether there are flags. -/
theorem settings_hasFlags :
    settings "local has_short_opts=" "" (readLines (text i)) = [boolWord i.hasFlags] := by
  have hf := Line.inside?_plain "local has_short_opts=" (boolWord i.hasFlags) ""
  rw [String.append_empty] at hf
  rw [settings_readLines i (by simp [marks]), settingsOf, Plan.hasFlags_eq]
  simp [settings, List.filter_map, Function.comp_def, hf]

/-- One array has a word for each slot. -/
theorem settings_required :
    (settings "local -a args_required=(" ")" (readLines (text i))).map readWords =
      [some (List.replicate i.slots.length "true")] := by
  have hf := Line.inside?_plain "local -a args_required=("
    (" ".intercalate (List.replicate i.slots.length "true")) ")"
  have hw : readWords (" ".intercalate (List.replicate i.slots.length "true")) =
      some (List.replicate i.slots.length "true") := by
    refine readWords_bare fun w hw => ?_
    rw [List.eq_of_mem_replicate hw]
    exact isBareWord_ofList (by decide)
  have hm : (Plan.ofInterface i).slots.map (fun _ => "true") =
      List.replicate i.slots.length "true" := by
    rw [← Plan.map_spec_slots i, List.length_map, List.map_const']
  rw [String.append_assoc] at hf
  rw [settings_readLines i (by simp [marks]), settingsOf, hm]
  simp [settings, List.filter_map, Function.comp_def, hf, hw]

/-- One array has the ordinals of the slots in order. -/
theorem settings_order :
    (settings "local -a explicit_slots=(" ")" (readLines (text i))).map readWords =
      [some ((Plan.ofInterface i).explicitOrder.map fun s => toString s.ordinal)] := by
  have hf := Line.inside?_plain "local -a explicit_slots=("
    (ordinals (Plan.ofInterface i).explicitOrder) ")"
  have hw : readWords (ordinals (Plan.ofInterface i).explicitOrder) =
      some ((Plan.ofInterface i).explicitOrder.map fun s => toString s.ordinal) :=
    readWords_bare (List.forall_mem_map.2 fun s _ => isBareWord_toString s.ordinal)
  rw [String.append_assoc] at hf
  rw [settings_readLines i (by simp [marks]), settingsOf]
  simp [settings, List.filter_map, Function.comp_def, hf, hw]

end

end ShellCompletion.Script
