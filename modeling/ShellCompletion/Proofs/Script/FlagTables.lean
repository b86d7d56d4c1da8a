import ShellCompletion.Proofs.Script.Branches
import ShellCompletion.Proofs.Script.Tables

/-! The places in which a script lists its flags. They are read from the text of the script: the
table of values, the table of used flags, the branches of the scan, and the list that flags are
offered from, which is quoted twice. The main statement says that all four have the same flags in
the same order. -/
namespace ShellCompletion.Script

open Shell

/-- The words that a line offers, if it offers a quoted list. -/
def offered? (l : Line) : Option (List String) :=
  match l.pieces with
  | [.code a, .word list, .code _] =>
    if a = "mapfile -t lines < <(compgen -W " then readWords list else none
  | _ => none

/-- The branch that offers the flags has one list, in which they are quoted once more. -/
theorem offered_flagBranch (p : Plan) :
    (flagBranch p).asRead.body.filterMap offered? = [p.flags.map (·.literal)] := by
  have hw : readWords (" ".intercalate ((p.flags.map (·.literal)).map quote)) =
      some (p.flags.map (·.literal)) := by
    rw [readWords, toList_intercalate_quote, readFrom_quoted]
  have hl : offered? { pieces := [.code "mapfile -t lines < <(compgen -W ",
      .word (" ".intercalate ((p.flags.map (·.literal)).map quote)), .code " -- \"$cur\")"] } =
      some (p.flags.map (·.literal)) := by
    simp only [offered?, if_true, hw]
  exact List.filterMap_cons_some hl

section

variable (i : Interface)

theorem flags_eq_nil_iff : i.flags.eraseDups = [] ↔ (Plan.ofInterface i).hasFlags = false := by
  rw [← Plan.map_literal_flags, List.map_eq_nil_iff, Plan.hasFlags, Bool.not_eq_false',
    List.isEmpty_iff]

/-- A value follows a flag if the first option that declares it has one. -/
theorem assignments_values_eq : assignments valueTable (readLines (text i)) =
    i.flags.eraseDups.map fun f =>
      (f, (i.options.find? (·.flags.contains f)).any (·.takesValue)) := by
  rw [assignments_values, ← Plan.map_literal_flags, List.map_map]
  refine List.map_congr_left fun e he => ?_
  rw [Function.comp_apply, Plan.find?_option i he]
  rfl

/-- The branch for flags, if there are any, offers them all. -/
theorem offered_branches :
    (branchesFor "opt" (readLines (text i))).map (fun b => b.body.filterMap offered?) =
      if i.flags.eraseDups = [] then [] else [[i.flags.eraseDups]] := by
  rw [branchesFor_eq, (filter_modeBranches _).1]
  cases hf : (Plan.ofInterface i).hasFlags with
  | false => simp [(flags_eq_nil_iff i).2 hf]
  | true =>
    have hn : i.flags.eraseDups ≠ [] := fun h =>
      Bool.false_ne_true (((flags_eq_nil_iff i).1 h).symm.trans hf)
    rw [if_neg hn, if_pos rfl, List.map_singleton, List.map_singleton, offered_flagBranch,
      Plan.map_literal_flags]

/-- What there is for flags alone is there just when there are flags. -/
theorem present_iff_flags :
    (settings "local has_short_opts=" "" (readLines (text i)) = ["true"] ↔
        i.flags.eraseDups ≠ []) ∧
      (branchesFor "opt" (readLines (text i)) ≠ [] ↔ i.flags.eraseDups ≠ []) ∧
      (branchesFor "opt_arg" (readLines (text i)) ≠ [] ↔ i.flags.eraseDups ≠ []) := by
  rw [settings_hasFlags, ← Plan.hasFlags_eq, branchesFor_eq, branchesFor_eq,
    (filter_modeBranches _).1, (filter_modeBranches _).2.1, ne_eq i.flags.eraseDups,
    flags_eq_nil_iff]
  cases (Plan.ofInterface i).hasFlags <;> simp [boolWord]

end

/-- The places in which a script lists its flags agree. The table of values, the table of used
flags, the branches of the scan and the list of the flags that are offered have the flags that are
declared, each once and in the order of the first declarations. Each branch of the scan notes its
own flag; a value follows a flag if the first option that declares it has one; and where there are
no flags, the script says so and has no branches for them. -/
theorem flagTables_agree (i : Interface) :
    let r := readLines (text i)
    let flags := i.flags.eraseDups
    assignments valueTable r =
        flags.map (fun f => (f, (i.options.find? (·.flags.contains f)).any (·.takesValue))) ∧
      assignments usedTable r = flags.map (·, false) ++ flags.map (·, true) ∧
      branchesOn "$\x7bCOMP_WORDS[word_i]\x7d" r = flags.map (fun f =>
        { pattern := [.word f], body := [entryLine usedTable f "true"] }) ∧
      (branchesFor "opt" r).map (fun b => b.body.filterMap offered?) =
        (if flags = [] then [] else [[flags]]) ∧
      flags.Nodup ∧
      (settings "local has_short_opts=" "" r = ["true"] ↔ flags ≠ []) ∧
      (branchesFor "opt" r ≠ [] ↔ flags ≠ []) ∧
      (branchesFor "opt_arg" r ≠ [] ↔ flags ≠ []) := by
  intro r flags
  have hd : flags.Nodup := by
    rw [show flags = _ from (Plan.map_literal_flags i).symm]
    exact Plan.nodup_literal_flags i
  exact ⟨assignments_values_eq i, assignments_readLines i, branchesOn_scan i, offered_branches i,
    hd, present_iff_flags i⟩

end ShellCompletion.Script
