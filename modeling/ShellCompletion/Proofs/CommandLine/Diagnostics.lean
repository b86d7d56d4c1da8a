import Mathlib.Logic.Relation
import ShellCompletion.Proofs.CommandLine.Changes
import ShellCompletion.Proofs.CommandLine.Outcome
import ShellCompletion.Proofs.Dump.Unwritable

/-! Diagnostics do not change results. Debugging, arguments that are left over, and the variables
that debugging and colours depend on have a part in what is printed as errors only. The main
statement is about two runs whose arguments and environments differ in any of these: they end
alike, print the same on the standard output and leave the same files. -/
namespace ShellCompletion.CommandLine

open Files Log World

variable {env env' : Environment} {t : Tree} {args : List String} {o : Options}

/-! ### Environments -/

/-- Without a dollar sign there is nothing to expand. -/
theorem expandFrom_of_not_mem (env : Environment) (fuel : Nat) {s : List Char} (h : '$' ∉ s) :
    expandFrom env fuel s = s := by
  induction fuel generalizing s with
  | zero => rfl
  | succ fuel ih =>
    cases s with
    | nil => rfl
    | cons c r =>
      rw [List.mem_cons, not_or] at h
      have plain : ¬(c == '$') = true := by simpa using Ne.symm h.1
      rw [expandFrom, if_neg plain, ih h.2]

theorem expandVariables_of_not_mem (env : Environment) {s : String} (h : '$' ∉ s.toList) :
    expandVariables env s = s := by
  rw [expandVariables, expandFrom_of_not_mem env _ h, String.ofList_toList]

/-- Two environments differ in variables only. -/
structure SameBesides (env env' : Environment) : Prop where
  ownHome : env.ownHome = env'.ownHome
  homes : env.homes = env'.homes
  charset : env.charset = env'.charset

/-- Of the variables only that of the home directory shows in names. -/
theorem expandHome_congr (rest : SameBesides env env') (h : env.get? "HOME" = env'.get? "HOME")
    (n : Name) : expandHome env n = expandHome env' n := by
  have home (user : String) : homeOf? env user = homeOf? env' user := by
    rw [homeOf?, homeOf?, h, rest.ownHome, rest.homes]
  unfold expandHome
  simp only [home]

theorem sameNames_of_not_mem {source : String} (hs : '$' ∉ source.toList)
    (rest : SameBesides env env') (h : env.get? "HOME" = env'.get? "HOME") :
    Dump.SameNames source env env' := by
  refine ⟨?_, expandHome_congr rest h⟩
  rw [Load.sourceName, Load.sourceName, expandVariables_of_not_mem env hs,
    expandVariables_of_not_mem env' hs, expandHome_congr rest h]

/-- Two traces in two environments, with one tree. -/
structure Beside (env env' : Environment) (s s' : Trace) : Prop where
  left : s.environment = env
  right : s'.environment = env'
  tree : s.tree = s'.tree

theorem mirrors_beside {source : String} (h : Dump.SameNames source env env') :
    Dump.Mirrors source (Beside env env') where
  names {s s'} hs := by
    have left : Host.environment s = env := hs.left
    have right : Host.environment s' = env' := hs.right
    rw [left, right]
    exact h
  tree hs := hs.tree
  note _ _ _ hs := ⟨hs.left, hs.right, hs.tree⟩
  setTree _ _ _ hs := ⟨hs.left, hs.right, rfl⟩

theorem outcomeOf_eq (o : Options) (charset : env.charset = env'.charset)
    {run run' : Except Dump.DumpError String × Trace}
    (h : Dump.EndAlike (Beside env env') run run') : outcomeOf o run = outcomeOf o run' := by
  obtain ⟨result, s⟩ := run
  obtain ⟨result', s'⟩ := run'
  obtain ⟨rfl, beside⟩ := h
  have tree : s.tree = s'.tree := beside.tree
  have left : s.environment = env := beside.left
  have right : s'.environment = env' := beside.right
  cases result <;> simp only [outcomeOf, outcomePrinting, tree, left, right, charset]

/-- Where the names of files are the same, and what can be printed, a run shows the same. -/
theorem outcome_eq_of_sameNames (args : List String) (t : Tree)
    (charset : env.charset = env'.charset)
    (h : ∀ o source, parse args = .ok o → o.source = some source →
      Dump.SameNames source env env') : outcome args env t = outcome args env' t := by
  unfold outcome
  cases hp : parse args with
  | error e => rfl
  | ok o =>
    unfold outcomeWith
    simp only [outcomePrinting, charset]
    split
    · rfl
    · split
      · rfl
      · cases hs : o.source with
        | none => rfl
        | some source =>
          have start : Beside env env' ⟨env, t, []⟩ ⟨env', t, []⟩ := ⟨rfl, rfl, rfl⟩
          exact outcomeOf_eq o charset
            ((mirrors_beside (h o source hp hs)).dumpFile o.shell o.file? start)

/-! ### Diagnostics -/

/-- The variables that debugging and colours depend on. -/
def diagnosticVariables : List String := ["DEBUG", "NO_COLOR", "FORCE_COLOR"]

/-- Where only these are set, no other variable is. -/
theorem get?_eq_none_of_diagnostic (h : ∀ v ∈ env.values, v.1 ∈ diagnosticVariables)
    {name : String} (hn : name ∉ diagnosticVariables) : env.get? name = none := by
  rw [Environment.get?, List.lookup_eq_none_iff]
  intro v hv
  rw [bne_iff_ne]
  rintro rfl
  exact hn (h v hv)

/-- A change of the arguments and the environment in diagnostics only. -/
inductive Diagnostic : List String × Environment → List String × Environment → Prop
  | debug (args : List String) (env : Environment) : Diagnostic (args, env) ("--debug" :: args, env)
  /-- More arguments are left over behind a source. -/
  | more {args : List String} {o : Options} (env : Environment) {ss : List String}
      (parsed : parse args = .ok o) (working : o.help = false) (given : o.source.isSome = true)
      (plain : ∀ s ∈ ss, IsPlain s) :
      Diagnostic (args, env) (args ++ ss, env)
  /-- Variables are set or unset that the source does not ask for. -/
  | settings {args : List String} {env env' : Environment} (rest : SameBesides env env')
      (same : ∀ name, name ∉ diagnosticVariables → env.get? name = env'.get? name)
      (plain : ∀ o source, parse args = .ok o → o.source = some source → '$' ∉ source.toList) :
      Diagnostic (args, env) (args, env')

theorem outcome_debug (args : List String) (env : Environment) (t : Tree) :
    outcome ("--debug" :: args) env t = outcome args env t := by
  unfold outcome
  rw [parse_cons_debug]
  cases parse args <;> rfl

theorem outcome_append (env : Environment) (t : Tree) {ss : List String}
    (parsed : parse args = .ok o) (given : o.source.isSome = true) (plain : ∀ s ∈ ss, IsPlain s) :
    outcome (args ++ ss) env t = outcome args env t := by
  unfold outcome
  rw [parse_append parsed given plain, parsed]
  rfl

/-- A change of diagnostics does not change what is shown. -/
theorem outcome_eq_of_diagnostic {run run' : List String × Environment} (h : Diagnostic run run')
    (t : Tree) : outcome run.1 run.2 t = outcome run'.1 run'.2 t := by
  cases h with
  | debug args env => exact (outcome_debug args env t).symm
  | more env parsed _ given plain => exact (outcome_append env t parsed given plain).symm
  | @settings args env env' rest same plain =>
    have home : env.get? "HOME" = env'.get? "HOME" := same "HOME" (by decide)
    apply outcome_eq_of_sameNames args t rest.charset
    intro o source parsed given
    exact sameNames_of_not_mem (plain o source parsed given) rest home

/-- Runs that differ in diagnostics only end alike, print the same on the standard output and leave
the same files, on a terminal or not. -/
theorem diagnostics_keep_outcome {run run' : List String × Environment}
    (h : Relation.EqvGen Diagnostic run run') (t : Tree) (terminal terminal' : Bool) :
    seen (CommandLine.run run.1 (launched run.2 t terminal)) =
      seen (CommandLine.run run'.1 (launched run'.2 t terminal')) := by
  rw [seen_run, seen_run]
  induction h with
  | rel _ _ step => exact outcome_eq_of_diagnostic step t
  | refl _ => rfl
  | symm _ _ _ ih => exact ih.symm
  | trans _ _ _ _ _ first second => exact first.trans second

/-- Debugging is asked for twice, there is an argument too many, and colours are forced. -/
theorem diagnostics_keep_outcome_all :
    seen (run ["t.json"] (launched {} Dump.soleSource.tree false)) =
      seen (run ["--debug", "t.json", "more"]
        (launched { values := [("DEBUG", "1"), ("FORCE_COLOR", "1")] }
          Dump.soleSource.tree true)) := by
  have debug : Diagnostic (["t.json"], {}) (["--debug", "t.json"], {}) := .debug _ _
  have parsed : parse ["--debug", "t.json"] =
      .ok { debug := true, source := some "t.json", sourceSeen := true } := by decide
  have more : Diagnostic (["--debug", "t.json"], {}) (["--debug", "t.json", "more"], {}) := by
    refine .more {} parsed rfl rfl fun s hs => ?_
    rw [List.mem_singleton.1 hs]
    decide
  have parsed' : parse ["--debug", "t.json", "more"] =
      .ok { debug := true, source := some "t.json", sourceSeen := true, extras := ["more"] } := by
    decide
  have settings : Diagnostic (["--debug", "t.json", "more"], {})
      (["--debug", "t.json", "more"],
        { values := [("DEBUG", "1"), ("FORCE_COLOR", "1")] }) := by
    refine .settings ⟨rfl, rfl, rfl⟩ (fun name hn => ?_) (fun o source parsed given => ?_)
    · rw [get?_eq_none_of_diagnostic (by decide) hn, get?_eq_none_of_diagnostic (by decide) hn]
    · rw [parsed'] at parsed
      cases parsed
      cases given
      decide
  have all := ((Relation.EqvGen.rel _ _ debug).trans _ _ _ (.rel _ _ more)).trans _ _ _
    (.rel _ _ settings)
  exact diagnostics_keep_outcome all Dump.soleSource.tree false true

end ShellCompletion.CommandLine
