import Mathlib.Data.List.Pairwise
import ShellCompletion.Proofs.Plan.Flags
import ShellCompletion.Proofs.Script.Reading
import ShellCompletion.Proofs.Shell.Heads

/-! The lines of a script that fill its tables, and those that look into them to lift a slot. They
are known by how they begin, so that one walk through the sections finds them all. The main
statement says which they are, and that they are the same when the script is read from its text. -/
namespace ShellCompletion.Script

open Shell

/-- How the lines begin that test whether a flag was used, and those that lift a slot then. -/
def liftMarks : List String := ["if $\x7bshort_opts_used[", "args_required["]

/-- How the lines begin that fill the tables, or lift a slot. -/
def marks : List String := ["local has_short_opts=", "short_opts_requires_value[",
  "short_opts_used[", "local -a args_required=(", "local -a explicit_slots=("] ++ liftMarks

theorem empty_not_mem_marks : "" ∉ marks := by simp [marks, liftMarks]

/-- As much of the marks as tells them from the beginnings of all other lines. -/
def stems : List (List Char) := [
  ['l', 'o', 'c', 'a', 'l', ' ', 'h'], ['l', 'o', 'c', 'a', 'l', ' ', '-', 'a', ' ', 'a'],
  ['l', 'o', 'c', 'a', 'l', ' ', '-', 'a', ' ', 'e'], ['s', 'h'], ['a', 'r', 'g', 's'],
  ['i', 'f', ' ', '$', '\x7b', 's', 'h', 'o', 'r', 't', '_', 'o', 'p', 't', 's', '_', 'u']]

theorem exists_stem : ∀ s ∈ marks, ∃ t ∈ stems, t <+: s.toList := by decide +kernel

theorem apart_of_mem_marks {s t : String} (hs : s ∈ marks) (ht : t ∈ marks) (hne : s ≠ t) :
    apart s.toList t.toList = true := by
  have hp : marks.Pairwise fun s t => apart s.toList t.toList = true := by decide +kernel
  have : Std.Symm fun s t : String => apart s.toList t.toList = true :=
    ⟨fun s t h => (apart_comm t.toList s.toList).trans h⟩
  exact hp.forall hs ht hne

/-- The lines of the tables of flags and slots. -/
def tableLines (p : Plan) : List Line :=
  [.plain ("local has_short_opts=" ++ boolWord p.hasFlags)] ++
  p.flags.map (fun e => entryLine "short_opts_requires_value" e.literal (boolWord e.takesValue)) ++
  p.flags.map (fun e => entryLine "short_opts_used" e.literal "false") ++
  [ .plain ("local -a args_required=(" ++ " ".intercalate (p.slots.map fun _ => "true") ++ ")"),
    .plain ("local -a explicit_slots=(" ++ ordinals p.explicitOrder ++ ")")]

/-- The lines that test a flag and lift a slot, each test with its consequence. -/
def testLines (p : Plan) : List Line :=
  (lifts p).flatMap fun z => [
    { pieces := [.code "if $\x7bshort_opts_used[", .word z.2, .code "]-false\x7d; then"] },
    .plain s!"args_required[{z.1}]=false"]

/-- All those lines: the tables stand first, then what the scan notes, then the tests. -/
def markedLines (p : Plan) : List Line :=
  tableLines p ++ p.flags.map (fun e => entryLine "short_opts_used" e.literal "true") ++ testLines p

/-- The line begins as none of those lines does. -/
abbrev Unmarked (l : Line) : Prop := l.startsWith marks = false

section

variable {s : List Char} (h : stems.all (apart · s) = true) (n : Nat) (ps : List Piece)
include h

theorem unmarked_code : Unmarked (Line.mk n (.code (String.ofList s) :: ps)) :=
  Line.startsWith_code exists_stem h n ps

theorem unmarked_code_append (t : String) :
    Unmarked (Line.mk n (.code (String.ofList s ++ t) :: ps)) :=
  Line.startsWith_code_append exists_stem h n ps t

end

theorem unmarked_blank : Unmarked .blank := Line.startsWith_of_head empty_not_mem_marks rfl

theorem unmarked_comment (s : String) : Unmarked (.comment s) :=
  Line.startsWith_of_head empty_not_mem_marks rfl

theorem unmarked_word (s : String) (ps : List Piece) : Unmarked (Line.mk 0 (.word s :: ps)) :=
  Line.startsWith_of_head empty_not_mem_marks (Line.head_word 0 s ps)

theorem entryLine_marked (table : String) (h : table ++ "[" ∈ marks) (flag value : String) :
    (entryLine table flag value).startsWith marks = true :=
  Line.startsWith_of_head_eq h (String.append_empty ..).symm

/-! ### Sections -/

theorem landmarks_entryLines {α : Type} (table : String) (h : table ++ "[" ∈ marks)
    (flag value : α → String) (xs : List α) :
    landmarks marks (xs.map fun x => entryLine table (flag x) (value x)) =
      xs.map fun x => entryLine table (flag x) (value x) :=
  landmarks_map fun x _ => entryLine_marked table h (flag x) (value x)

theorem landmarks_stateLines (p : Plan) : landmarks marks (stateLines p) = tableLines p := by
  have hd : Unmarked (.plain ("local use_doubledash=" ++ boolWord p.interface.doubleDash)) :=
    unmarked_code_append rfl 0 [] _
  have hf : (Line.plain ("local has_short_opts=" ++ boolWord p.hasFlags)).startsWith marks = true :=
    Line.startsWith_of_head_eq (s := "local has_short_opts=") (by simp [marks]) rfl
  have hm : Unmarked { pieces := [.code "local short_opt_prefix=", .word p.interface.flagMark] } :=
    unmarked_code rfl 0 _
  have hr : (Line.plain ("local -a args_required=(" ++
      " ".intercalate (p.slots.map fun _ => "true") ++ ")")).startsWith marks = true :=
    Line.startsWith_of_head_eq (s := "local -a args_required=(") (by simp [marks])
      (String.append_assoc ..)
  have ho : (Line.plain ("local -a explicit_slots=(" ++ ordinals p.explicitOrder ++ ")")).startsWith
      marks = true :=
    Line.startsWith_of_head_eq (s := "local -a explicit_slots=(") (by simp [marks])
      (String.append_assoc ..)
  have hc : landmarks marks
      (p.slots.map fun s => .comment (s!"slot {s.ordinal}: " ++ s.label)) = [] :=
    landmarks_eq_nil (List.forall_mem_map.2 fun s _ => unmarked_comment _)
  have hv := landmarks_entryLines "short_opts_requires_value" (by simp [marks])
    FlagEntry.literal (fun e => boolWord e.takesValue) p.flags
  have hu := landmarks_entryLines "short_opts_used" (by simp [marks])
    FlagEntry.literal (fun _ => "false") p.flags
  have h1 : Unmarked (.plain "declare -A short_opts_requires_value=()") := unmarked_code rfl 0 []
  have h2 : Unmarked (.plain "declare -A short_opts_used=()") := unmarked_code rfl 0 []
  simp only [stateLines, landmarks_append, landmarks_cons, landmarks_nil, hd, hf, hm, hr, ho, hc, hv,
    hu, unmarked_blank, h1, h2]
  simp [tableLines, Line.plain]

theorem landmarks_branches (subject : String) {bs : List Branch}
    (h : ∀ b ∈ bs, Unmarked (Line.mk 0 (b.pattern ++ [.code ")"]))) :
    landmarks marks (caseLines subject bs) = bs.flatMap fun b => landmarks marks b.body := by
  refine landmarks_caseLines empty_not_mem_marks ?_ (unmarked_code rfl 0 [])
    (unmarked_code rfl 0 []) h
  rw [String.append_assoc]
  exact unmarked_code_append rfl 0 [] _

theorem landmarks_scanLines (p : Plan) : landmarks marks (scanLines p) =
    p.flags.map fun e => entryLine "short_opts_used" e.literal "true" := by
  have hb (e : FlagEntry) : landmarks marks (usedBranch e).body =
      [entryLine "short_opts_used" e.literal "true"] := by
    have h := entryLine_marked "short_opts_used" (by simp [marks]) e.literal "true"
    rw [usedBranch, landmarks_cons, h]
    rfl
  have ho (b : Branch) (hb : b ∈ p.flags.map usedBranch) :
      Unmarked (Line.mk 0 (b.pattern ++ [.code ")"])) := by
    obtain ⟨e, _, rfl⟩ := List.mem_map.1 hb
    exact unmarked_word e.literal [.code ")"]
  rw [scanLines, landmarks_between, landmarks_indent, scanBody, landmarks_between,
    landmarks_branches _ ho, List.flatMap_map, List.map_eq_flatMap]
  · exact List.flatMap_congr fun e _ => hb e
  -- the other lines of the scan are fixed
  all_goals
    repeat first
      | with_reducible exact landmarks_nil marks
      | with_reducible refine landmarks_cons_eq unmarked_blank ?_
      | refine landmarks_cons_eq (unmarked_code rfl _ []) ?_

theorem landmarks_skipLines (starts : List String) (h : ∀ s ∈ liftMarks, s ∈ starts)
    (hf : (Line.plain "fi").startsWith starts = false) (p : Plan) :
    landmarks starts (skipLines p) = testLines p := by
  have hl (k : Nat) (flag : String) : landmarks starts (liftLines k flag) = [
      { pieces := [.code "if $\x7bshort_opts_used[", .word flag, .code "]-false\x7d; then"] },
      .plain s!"args_required[{k}]=false"] := by
    have ht : (Line.mk 0 [.code "if $\x7bshort_opts_used[", .word flag,
        .code "]-false\x7d; then"]).startsWith starts = true :=
      Line.startsWith_of_head_eq (h "if $\x7bshort_opts_used[" (by simp [liftMarks]))
        (String.append_empty ..).symm
    have hk : ((Line.plain s!"args_required[{k}]=false").deeper 1).startsWith starts = true :=
      Line.startsWith_of_head_eq (h "args_required[" (by simp [liftMarks]))
        (String.append_assoc ..)
    rw [liftLines, landmarks_cons, landmarks_cons, landmarks_cons, ht, hk, hf]
    rfl
  rw [skipLines_eq, landmarks_flatMap, testLines]
  exact List.flatMap_congr fun z _ => hl z.1 z.2

theorem landmarks_slotLines : landmarks marks slotLines = [] := by
  repeat refine landmarks_cons_eq (unmarked_code rfl _ []) ?_
  rfl

theorem landmarks_modeLines : landmarks marks modeLines = [] := by
  repeat refine landmarks_cons_eq (unmarked_code rfl _ []) ?_
  rfl

theorem landmarks_sourceLines (s : Option Source) : landmarks marks (sourceLines s) = [] := by
  match s with
  | none => rfl
  | some (.builtin kind) =>
    refine landmarks_cons_eq ?_ ?_
    · rw [String.append_assoc]
      exact unmarked_code_append rfl 0 [] _
    · repeat refine landmarks_cons_eq (unmarked_code rfl _ _) ?_
      rfl
  | some (.command argv) =>
    simp only [sourceLines]
    split
    · rfl
    · repeat refine landmarks_cons_eq (unmarked_code rfl _ _) ?_
      rfl

theorem unmarked_alternatives (es : List FlagEntry) :
    Unmarked (Line.mk 0 (alternatives es ++ [.code ")"])) := by
  rcases es with _ | ⟨e, _ | ⟨f, fs⟩⟩
  · exact unmarked_code rfl 0 []
  · exact unmarked_word e.literal [.code ")"]
  · exact unmarked_word e.literal _

theorem unmarked_slotPattern (key : Option Nat) :
    Unmarked (Line.mk 0 (slotPattern key ++ [.code ")"])) := by
  cases key with
  | none => exact unmarked_code rfl 0 _
  | some n =>
    obtain ⟨d, hh, hd⟩ := Text.exists_head?_toString n
    obtain ⟨ds, hn⟩ := List.head?_eq_some_iff.1 hh
    have hs : toString n = String.ofList (d :: ds) := by rw [← hn, String.ofList_toList]
    have ha {c : Char} (hc : c.isDigit = false) (cs : List Char) :
        apart (c :: cs) (d :: ds) = true := by
      refine apart_cons_cons ?_ cs ds
      rintro rfl
      exact Bool.false_ne_true (hc.symm.trans hd)
    have ha : stems.all (apart · (d :: ds)) = true := by
      simp [stems, ha (c := 'l') rfl, ha (c := 's') rfl, ha (c := 'a') rfl, ha (c := 'i') rfl]
    have hu := unmarked_code ha 0 [.code ")"]
    rwa [← hs] at hu

theorem landmarks_offers {κ : Type} (subject : String) {pattern : κ → List Piece}
    (ho : ∀ k, Unmarked (Line.mk 0 (pattern k ++ [.code ")"]))) (os : List (Offer κ)) :
    landmarks marks (caseLines subject (os.map (Offer.branch pattern))) = [] := by
  have hb (b : Branch) (hb : b ∈ os.map (Offer.branch pattern)) :
      Unmarked (Line.mk 0 (b.pattern ++ [.code ")"])) := by
    obtain ⟨o, _, rfl⟩ := List.mem_map.1 hb
    exact ho o.key
  rw [landmarks_branches subject hb, List.flatMap_map, List.flatMap_eq_nil_iff]
  exact fun o _ => landmarks_sourceLines (some o.source)

theorem landmarks_candidateLines (p : Plan) : landmarks marks (candidateLines p) = [] := by
  have hv := landmarks_offers "$prev" unmarked_alternatives (valueOffers p)
  have hs := landmarks_offers "$arg_slot" unmarked_slotPattern (slotOffers p)
  have hf : landmarks marks (flagBranch p).body = [] := by
    repeat refine landmarks_cons_eq (unmarked_code rfl _ _) ?_
    rfl
  have ho (b : Branch) (hb : b ∈ modeBranches p) :
      Unmarked (Line.mk 0 (b.pattern ++ [.code ")"])) ∧ landmarks marks b.body = [] := by
    rcases List.mem_append.1 hb with hb | hb
    · split at hb
      · simp only [List.mem_cons, List.not_mem_nil, or_false] at hb
        rcases hb with rfl | rfl
        · exact ⟨unmarked_code rfl 0 _, hf⟩
        · rw [valueBranches_eq]
          exact ⟨unmarked_code rfl 0 _, hv⟩
      · exact absurd hb List.not_mem_nil
    · split at hb
      · exact absurd hb List.not_mem_nil
      · have ha : Unmarked (Line.mk 0 [.code "arg", .code ")"]) :=
          Line.startsWith_of_apart exists_stem (s := ['a', 'r', 'g', ')']) rfl (u := "") (by decide)
        rw [List.mem_singleton.1 hb, slotBranches_eq_map]
        exact ⟨ha, hs⟩
  rw [candidateLines, landmarks_branches _ fun b hb => (ho b hb).1, List.flatMap_eq_nil_iff]
  exact fun b hb => (ho b hb).2

/-! ### The script -/

theorem landmarks_bodyLines (p : Plan) : landmarks marks (bodyLines p) = markedLines p := by
  have hs := landmarks_skipLines marks (fun s => List.mem_append_right _) (unmarked_code rfl 0 []) p
  have hb : landmarks marks [.blank] = [] := landmarks_cons_eq unmarked_blank rfl
  have hn {a b c d e : List Line} (ha : a = []) (hc : c = []) :
      a ++ b ++ c ++ d ++ e = b ++ d ++ e := by simp [ha, hc]
  simp only [bodyLines, markedLines, landmarks_append, landmarks_stateLines, landmarks_scanLines, hs,
    landmarks_slotLines, landmarks_modeLines, landmarks_candidateLines, hb, List.append_nil]
  refine hn ?_ ?_
  all_goals
    repeat first
      | with_reducible exact landmarks_nil marks
      | with_reducible refine landmarks_cons_eq unmarked_blank ?_
      | refine landmarks_cons_eq (unmarked_code rfl _ []) ?_

theorem landmarks_lines (i : Interface) :
    landmarks marks (lines i) = markedLines (.ofInterface i) := by
  rw [lines, landmarks_between, landmarks_indent, landmarks_bodyLines]
  · have hf : Unmarked (.plain (functionName i ++ "() \x7b")) := unmarked_code_append rfl 0 [] _
    exact landmarks_cons_eq (unmarked_comment _) (landmarks_cons_eq (unmarked_comment _)
      (landmarks_cons_eq unmarked_blank (landmarks_cons_eq hf rfl)))
  · exact landmarks_cons_eq (unmarked_code rfl 0 []) rfl

/-- The same lines are read from the text of the script. -/
theorem landmarks_readLines (i : Interface) :
    landmarks marks (readLines (text i)) = markedLines (.ofInterface i) := by
  have h : ∀ l ∈ landmarks marks (lines i), fuse l.pieces = l.pieces := by
    rw [landmarks_lines]
    simp only [markedLines, tableLines, testLines, List.forall_mem_append, List.forall_mem_map,
      List.forall_mem_flatMap, List.forall_mem_cons, List.not_mem_nil, false_implies, implies_true,
      and_true]
    exact ⟨⟨⟨⟨⟨rfl, fun _ _ => rfl⟩, fun _ _ => rfl⟩, rfl, rfl⟩, fun _ _ => rfl⟩,
      fun _ _ => ⟨rfl, rfl⟩⟩
  rw [readLines_text, landmarks_asRead empty_not_mem_marks h, landmarks_lines]

end ShellCompletion.Script
