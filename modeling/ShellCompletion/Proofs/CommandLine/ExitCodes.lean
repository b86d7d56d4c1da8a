import ShellCompletion.Proofs.CommandLine.Changes
import ShellCompletion.Proofs.CommandLine.Outcome
import ShellCompletion.Proofs.Dump.Failures
import ShellCompletion.Proofs.Dump.Unwritable

/-! Exit codes, the standard output and files agree. A run that exits does so for one of the
causes that there are, and its code tells which kind it is. The main statement says so, what is
printed in each case, and that the file of an output holds what would be printed without it. -/
namespace ShellCompletion.CommandLine

open Files Load World Dump Script

variable {env : Environment} {t : Tree} {args : List String} {o : Options} {source : String}
  {code : Nat}

/-! ### Errors -/

/-- The errors that the program foresees, with their codes. -/
inductive Foreseen : DumpError → Nat → Prop
  | unsupported (shell : String) : Foreseen (.compile (.unsupportedShell shell)) 1
  | rejected (vs : List Schema.Violation) : Foreseen (.compile (.rejected vs)) 2
  | malformed (n : Name) {e : ParseError} (valued : e.defect? = none) :
      Foreseen (.load (.malformed n e)) 2
  | unreadable (n : Name) {f : Fault} (named : f ≠ .nul) : Foreseen (.load (.unreadable n f)) 3
  | unwritable (n : Name) {f : Fault} (named : f ≠ .nul) : Foreseen (.unwritable n f) 3

theorem declared?_unreadable (n : Name) {f : Fault} (named : f ≠ .nul) :
    (DumpError.load (.unreadable n f)).declared? = some ("DocumentIOError", 3) := by
  cases f with
  | nul => exact absurd rfl named
  | _ => rfl

theorem declared?_unwritable (n : Name) {f : Fault} (named : f ≠ .nul) :
    (DumpError.unwritable n f).declared? = some ("DocumentIOError", 3) := by
  cases f with
  | nul => exact absurd rfl named
  | _ => rfl

theorem declared?_malformed (n : Name) {e : ParseError} (valued : e.defect? = none) :
    (DumpError.load (.malformed n e)).declared? = some ("MalformedDocumentError", 2) := by
  simp [DumpError.declared?, valued]

theorem Foreseen.endingOf_eq {e : DumpError} (h : Foreseen e code) : endingOf e = .exit code := by
  cases h with
  | unsupported shell => rfl
  | rejected vs => rfl
  | malformed n valued => rw [endingOf, declared?_malformed n valued]
  | unreadable n named => rw [endingOf, declared?_unreadable n named]
  | unwritable n named => rw [endingOf, declared?_unwritable n named]

theorem foreseen_of_declared {e : DumpError} {name : String}
    (h : e.declared? = some (name, code)) : Foreseen e code := by
  cases e with
  | compile c =>
    cases c with
    | unsupportedShell shell =>
      cases h
      exact .unsupported shell
    | rejected vs =>
      cases h
      exact .rejected vs
    | unbuilt e => cases h
    | tooManyDigits => cases h
  | load l =>
    cases l with
    | home e => cases h
    | unreadable n f =>
      by_cases named : f = .nul
      · subst named
        cases h
      · rw [declared?_unreadable n named] at h
        cases h
        exact .unreadable n named
    | malformed n e =>
      cases valued : e.defect? with
      | none =>
        rw [declared?_malformed n valued] at h
        cases h
        exact .malformed n valued
      | some d => simp [DumpError.declared?, valued] at h
  | outputHome e => cases h
  | unwritable n f =>
    by_cases named : f = .nul
    · subst named
      cases h
    · rw [declared?_unwritable n named] at h
      cases h
      exact .unwritable n named

theorem endingOf_eq_exit_iff {e : DumpError} : endingOf e = .exit code ↔ Foreseen e code := by
  constructor
  · intro h
    unfold endingOf at h
    split at h
    · next name code' declared =>
      rw [Ending.exit.injEq] at h
      exact foreseen_of_declared (h ▸ declared)
    · cases h
  · exact Foreseen.endingOf_eq

/-! ### Dumping -/

/-- A run that gets as far as to dump a source. -/
structure Dumps (args : List String) (o : Options) (source : String) : Prop where
  parsed : parse args = .ok o
  working : o.help = false
  supported : Supported o.shell
  given : o.source = some source

/-- How far a run gets. -/
inductive Course (args : List String) : Prop
  | misused {e : UsageError} (parsed : parse args = .error e)
  | usage {o : Options} (parsed : parse args = .ok o) (help : o.help = true)
  | idle {o : Options} (parsed : parse args = .ok o) (working : o.help = false)
      (lacks : ¬Supported o.shell ∨ o.source = none)
  | dumps {o : Options} {source : String} (dumps : Dumps args o source)

theorem course (args : List String) : Course args := by
  cases parsed : parse args with
  | error e => exact .misused parsed
  | ok o =>
    cases help : o.help with
    | true => exact .usage parsed help
    | false =>
      by_cases supported : Supported o.shell
      · cases given : o.source with
        | none => exact .idle parsed help (.inr given)
        | some source => exact .dumps ⟨parsed, help, supported, given⟩
      · exact .idle parsed help (.inl supported)

theorem Dumps.unique {o' : Options} {source' : String} (h : Dumps args o source)
    (h' : Dumps args o' source') : o' = o ∧ source' = source := by
  have same : o' = o := Except.ok.inj (h'.parsed.symm.trans h.parsed)
  subst same
  exact ⟨rfl, Option.some.inj (h'.given.symm.trans h.given)⟩

theorem Dumps.lacks_nothing {o' : Options} (h : Dumps args o source)
    (parsed : parse args = .ok o') : ¬(¬Supported o'.shell ∨ o'.source = none) := by
  rw [Except.ok.inj (parsed.symm.trans h.parsed), h.given]
  simp [h.supported]

theorem outcome_misused {e : UsageError} (parsed : parse args = .error e) :
    outcome args env t = ⟨.exit 1, "", t⟩ := by
  rw [outcome, parsed]

theorem outcome_usage (parsed : parse args = .ok o) (help : o.help = true) :
    outcome args env t = outcomePrinting env usageText t := by
  rw [outcome, parsed]
  exact if_pos help

theorem outcome_idle (parsed : parse args = .ok o) (working : o.help = false)
    (lacks : ¬Supported o.shell ∨ o.source = none) : outcome args env t = ⟨.exit 1, "", t⟩ := by
  simp only [outcome, parsed, outcomeWith, working, Bool.false_eq_true, ↓reduceIte]
  split
  · rfl
  · next known =>
    obtain unknown | missing := lacks
    · rw [ofName?_eq_none unknown] at known
      exact absurd rfl known
    · rw [missing]

/-- Dumping leaves the environment as it is. -/
theorem steady_environment : Steady fun s s' : Trace => s.environment = s'.environment where
  refl _ := rfl
  trans h h' := h.trans h'
  note _ _ := rfl
  setTree _ := rfl

theorem Dumps.outcome_eq (h : Dumps args o source) (env : Environment) (t : Tree) :
    outcome args env t = outcomeOf o (dumped o source env t) := by
  obtain ⟨goal, hs⟩ := h.supported
  have known : Target.ofName? o.shell = some goal := by rw [← hs, Target.ofName?_name]
  simp [outcome, h.parsed, outcomeWith, h.working, known, h.given]

/-- The environment stays. -/
theorem dumped_environment (o : Options) (source : String) (env : Environment) (t : Tree) :
    (dumped o source env t).2.environment = env :=
  (steady_environment.dumpFile source o.shell o.file? ⟨env, t, []⟩).symm

theorem Dumps.outcome_of_ok (h : Dumps args o source) {script : String}
    (returned : (dumped o source env t).1 = .ok script) : outcome args env t =
      if o.output.isEmpty then outcomePrinting env script (dumped o source env t).2.tree
      else ⟨.exit 0, "", (dumped o source env t).2.tree⟩ := by
  rw [h.outcome_eq, outcomeOf_ok o returned, dumped_environment]

theorem dumped_ends (o : Options) (source : String) (env : Environment) (t : Tree) :
    Ends env t source o.shell o.file? (dumped o source env t).1 (dumped o source env t).2.tree :=
  dumpFile_ends Host.apart_trace source o.shell o.file? (s := Trace.mk env t []) trivial

theorem dumped_of_fails {e : DumpError} (h : Fails env t source o.shell e) :
    (dumped o source env t).1 = .error e := by
  have script := h.scriptOf_eq
  have ends := dumped_ends o source env t
  generalize (dumped o source env t).1 = result, (dumped o source env t).2.tree = after,
    o.file? = output at ends ⊢
  cases ends with
  | stopped stopped =>
    rw [script] at stopped
    cases stopped
    rfl
  | returned ok => rw [script] at ok; cases ok
  | homeless ok => rw [script] at ok; cases ok
  | written ok => rw [script] at ok; cases ok
  | unwritable ok => rw [script] at ok; cases ok

/-- Without a script something is wrong with the source, or the script is not written. -/
theorem fails_of_dumped {e : DumpError} (h : (dumped o source env t).1 = .error e) :
    Fails env t source o.shell e ∨ (∃ e', e = .outputHome e') ∨ ∃ n f, e = .unwritable n f := by
  have ends := dumped_ends o source env t
  rw [h] at ends
  generalize (dumped o source env t).2.tree = after, o.file? = output at ends
  cases ends with
  | stopped stopped => exact .inl (scriptOf_eq_error_iff.1 stopped)
  | homeless => exact .inr (.inl ⟨_, rfl⟩)
  | unwritable => exact .inr (.inr ⟨_, _, rfl⟩)

/-! ### Causes -/

/-- Why a run exits, and the code that it exits with. -/
inductive Cause (args : List String) (env : Environment) (t : Tree) : Nat → Prop
  | usage {o : Options} (parsed : parse args = .ok o) (help : o.help = true)
      (printable : Printable env usageText) : Cause args env t 0
  | script {o : Options} {source script : String} (dumps : Dumps args o source)
      (returned : (dumped o source env t).1 = .ok script)
      (printable : o.output = "" → Printable env script) : Cause args env t 0
  | misused {e : UsageError} (parsed : parse args = .error e) : Cause args env t 1
  | unsupported {o : Options} (parsed : parse args = .ok o) (working : o.help = false)
      (unknown : ¬Supported o.shell) : Cause args env t 1
  | sourceless {o : Options} (parsed : parse args = .ok o) (working : o.help = false)
      (missing : o.source = none) : Cause args env t 1
  | malformed {o : Options} {source : String} {n : Name} {e : ParseError}
      (dumps : Dumps args o source) (fails : Fails env t source o.shell (.load (.malformed n e)))
      (valued : e.defect? = none) : Cause args env t 2
  | rejected {o : Options} {source : String} {vs : List Schema.Violation}
      (dumps : Dumps args o source) (fails : Fails env t source o.shell (.compile (.rejected vs))) :
      Cause args env t 2
  | unreadable {o : Options} {source : String} {n : Name} {f : Fault}
      (dumps : Dumps args o source) (fails : Fails env t source o.shell (.load (.unreadable n f)))
      (named : f ≠ .nul) : Cause args env t 3
  | unwritable {o : Options} {source : String} {n : Name} {f : Fault}
      (dumps : Dumps args o source)
      (fails : (dumped o source env t).1 = .error (.unwritable n f)) (named : f ≠ .nul) :
      Cause args env t 3

theorem Dumps.ending_of_error (h : Dumps args o source) {e : DumpError}
    (fails : (dumped o source env t).1 = .error e) (foreseen : Foreseen e code) :
    (outcome args env t).ending = .exit code := by
  rw [h.outcome_eq, outcomeOf_error o fails]
  exact foreseen.endingOf_eq

theorem Cause.ending_eq (h : Cause args env t code) : (outcome args env t).ending = .exit code := by
  cases h with
  | usage parsed help printable =>
    rw [outcome_usage parsed help, outcomePrinting_of_printable printable]
  | @script o source script dumps returned printable =>
    rw [dumps.outcome_of_ok returned]
    split
    · next empty => rw [outcomePrinting_of_printable (printable (String.isEmpty_iff.1 empty))]
    · rfl
  | misused parsed => rw [outcome_misused parsed]
  | unsupported parsed working unknown => rw [outcome_idle parsed working (.inl unknown)]
  | sourceless parsed working missing => rw [outcome_idle parsed working (.inr missing)]
  | malformed dumps fails valued =>
    exact dumps.ending_of_error (dumped_of_fails fails) (.malformed _ valued)
  | rejected dumps fails => exact dumps.ending_of_error (dumped_of_fails fails) (.rejected _)
  | unreadable dumps fails named =>
    exact dumps.ending_of_error (dumped_of_fails fails) (.unreadable _ named)
  | unwritable dumps fails named => exact dumps.ending_of_error fails (.unwritable _ named)

/-- A run that ends with the printing of a text exits just when the text can be printed. -/
theorem outcomePrinting_eq_exit_iff {text : String} :
    (outcomePrinting env text t).ending = .exit code ↔ Printable env text ∧ code = 0 := by
  by_cases printable : Printable env text
  · simp [outcomePrinting_of_printable printable, printable, eq_comm]
  · simp [outcomePrinting_of_not_printable printable, printable]

theorem Dumps.cause (h : Dumps args o source)
    (exits : (outcome args env t).ending = .exit code) : Cause args env t code := by
  cases result : (dumped o source env t).1 with
  | ok script =>
    rw [h.outcome_of_ok result] at exits
    split at exits
    · obtain ⟨printable, rfl⟩ := outcomePrinting_eq_exit_iff.1 exits
      exact .script h result fun _ => printable
    · next written =>
      rw [Ending.exit.injEq] at exits
      subst exits
      exact .script h result fun empty => absurd (String.isEmpty_iff.2 empty) written
  | error e =>
    rw [h.outcome_eq, outcomeOf_error o result] at exits
    have foreseen : Foreseen e code := endingOf_eq_exit_iff.1 exits
    obtain fails | ⟨e', rfl⟩ | ⟨n, f, rfl⟩ := fails_of_dumped result
    · cases foreseen with
      | unsupported shell =>
        cases fails with
        | unsupported unknown => exact absurd h.supported unknown
      | rejected vs => exact .rejected h fails
      | malformed n valued => exact .malformed h fails valued
      | unreadable n named => exact .unreadable h fails named
      | unwritable n named => cases fails
    · cases foreseen
    · cases foreseen with
      | unwritable n named => exact .unwritable h result named

/-- A run exits for one of the causes, and for each with its code. -/
theorem ending_eq_exit_iff : (outcome args env t).ending = .exit code ↔ Cause args env t code := by
  refine ⟨fun exits => ?_, Cause.ending_eq⟩
  cases course args with
  | misused parsed =>
    rw [outcome_misused parsed, Ending.exit.injEq] at exits
    subst exits
    exact .misused parsed
  | usage parsed help =>
    rw [outcome_usage parsed help] at exits
    obtain ⟨printable, rfl⟩ := outcomePrinting_eq_exit_iff.1 exits
    exact .usage parsed help printable
  | idle parsed working lacks =>
    rw [outcome_idle parsed working lacks, Ending.exit.injEq] at exits
    subst exits
    exact lacks.elim (.unsupported parsed working) (.sourceless parsed working)
  | dumps dumps => exact dumps.cause exits

/-! ### What is printed -/

/-- What a run prints on the standard output. -/
inductive Prints (args : List String) (env : Environment) (t : Tree) : String → Prop
  | usage {o : Options} (parsed : parse args = .ok o) (help : o.help = true)
      (printable : Printable env usageText) : Prints args env t (usageText ++ "\n")
  | script {o : Options} {source script : String} (dumps : Dumps args o source)
      (returned : (dumped o source env t).1 = .ok script) (noOutput : o.output = "")
      (printable : Printable env script) : Prints args env t (script ++ "\n")
  | nothing (noUsage : ∀ o, parse args = .ok o → o.help = true → ¬Printable env usageText)
      (noScript : ∀ o source script, Dumps args o source → (dumped o source env t).1 = .ok script →
        o.output = "" → ¬Printable env script) : Prints args env t ""

theorem Dumps.no_usage (h : Dumps args o source) {o' : Options} (parsed : parse args = .ok o') :
    o'.help ≠ true := by
  rw [Except.ok.inj (parsed.symm.trans h.parsed), h.working]
  exact Bool.false_ne_true

theorem Dumps.prints (h : Dumps args o source) (env : Environment) (t : Tree) :
    Prints args env t (outcome args env t).output := by
  have noUsage : ∀ o, parse args = .ok o → o.help = true → ¬Printable env usageText :=
    fun o' parsed help => absurd help (h.no_usage parsed)
  cases result : (dumped o source env t).1 with
  | error e =>
    rw [h.outcome_eq, outcomeOf_error o result]
    refine .nothing noUsage fun o' source' script dumps returned => ?_
    obtain ⟨rfl, rfl⟩ := h.unique dumps
    rw [result] at returned
    cases returned
  | ok script =>
    -- nothing is printed when there is an output, or when the script can not be printed
    have nothing (unprinted : o.output = "" → ¬Printable env script) : Prints args env t "" := by
      refine .nothing noUsage fun o' source' script' dumps returned => ?_
      obtain ⟨rfl, rfl⟩ := h.unique dumps
      rw [result, Except.ok.injEq] at returned
      exact returned ▸ unprinted
    rw [h.outcome_of_ok result]
    split
    · next empty =>
      by_cases printable : Printable env script
      · rw [outcomePrinting_of_printable printable]
        exact .script h result (String.isEmpty_iff.1 empty) printable
      · rw [outcomePrinting_of_not_printable printable]
        exact nothing fun _ => printable
    · next written => exact nothing fun empty => absurd (String.isEmpty_iff.2 empty) written

theorem prints_output (args : List String) (env : Environment) (t : Tree) :
    Prints args env t (outcome args env t).output := by
  cases course args with
  | misused parsed =>
    rw [outcome_misused parsed]
    refine .nothing (fun o h => ?_) fun o source script dumps => ?_
    · rw [parsed] at h
      cases h
    · rw [dumps.parsed] at parsed
      cases parsed
  | @usage o parsed help =>
    rw [outcome_usage parsed help]
    by_cases printable : Printable env usageText
    · rw [outcomePrinting_of_printable printable]
      exact .usage parsed help printable
    · rw [outcomePrinting_of_not_printable printable]
      refine .nothing (fun _ _ _ => printable) fun o' source script dumps => ?_
      exact absurd help (dumps.no_usage parsed)
  | idle parsed working lacks =>
    rw [outcome_idle parsed working lacks]
    refine .nothing (fun o h help => ?_) fun o source script dumps => ?_
    · rw [Except.ok.inj (h.symm.trans parsed), working] at help
      cases help
    · exact absurd lacks (dumps.lacks_nothing parsed)
  | dumps dumps => exact dumps.prints env t

/-! ### The file of an output -/

theorem scriptOf_of_dumped {script : String} (h : (dumped o source env t).1 = .ok script) :
    scriptOf env t source o.shell = .ok script := by
  have ends := dumped_ends o source env t
  rw [h] at ends
  generalize (dumped o source env t).2.tree = after, o.file? = output at ends
  cases ends with
  | returned ok => exact ok
  | written ok => exact ok

/-- The script that is written is the one that is printed otherwise. -/
theorem dumped_printing {script : String} (h : (dumped o source env t).1 = .ok script) :
    (dumped o.printing source env t).1 = .ok script := by
  have compiled := scriptOf_of_dumped h
  have ends : Ends env t source o.shell none (dumped o.printing source env t).1
      (dumped o.printing source env t).2.tree := dumped_ends o.printing source env t
  generalize (dumped o.printing source env t).1 = result,
    (dumped o.printing source env t).2.tree = after at ends ⊢
  cases ends with
  | stopped stopped =>
    rw [compiled] at stopped
    cases stopped
  | returned ok => exact ok.symm.trans compiled

theorem read_of_dumped {script : String} (h : (dumped o source env t).1 = .ok script)
    (output : o.output ≠ "") : ∃ n, expandHome env (.ofText o.output) = .ok n ∧
      (dumped o source env t).2.tree.read n = .ok (Text.encodeUtf8 (script ++ "\n")) := by
  have ends := dumped_ends o source env t
  have file : o.file? = some o.output := if_neg fun empty => output (String.isEmpty_iff.1 empty)
  rw [h, file] at ends
  generalize (dumped o source env t).2.tree = after at ends ⊢
  cases ends with
  | written _ home written => exact ⟨_, home, written.content⟩

theorem Dumps.withoutOutput (h : Dumps args o source) :
    Dumps (withoutOutput args) o.printing source :=
  ⟨parse_withoutOutput h.parsed, h.working, h.supported, h.given⟩

/-- The file that a script goes to holds, in UTF-8, what is printed without it if that can be
printed. -/
theorem read_eq_printed (parsed : parse args = .ok o) (working : o.help = false)
    (output : o.output ≠ "") (exits : (outcome args env t).ending = .exit 0) :
    ∃ n script t', expandHome env (.ofText o.output) = .ok n ∧
      (outcome args env t).tree.read n = .ok (Text.encodeUtf8 (script ++ "\n")) ∧
      outcome (withoutOutput args) env t = outcomePrinting env script t' := by
  rw [ending_eq_exit_iff] at exits
  cases exits with
  | usage parsed' help =>
    rw [Except.ok.inj (parsed.symm.trans parsed'), help] at working
    cases working
  | @script o' source script dumps returned =>
    have same : o' = o := Except.ok.inj (dumps.parsed.symm.trans parsed)
    subst same
    obtain ⟨n, home, stored⟩ := read_of_dumped returned output
    have notEmpty : o'.output.isEmpty = false :=
      Bool.eq_false_iff.2 fun empty => output (String.isEmpty_iff.1 empty)
    have written : (outcome args env t).tree = (dumped o' source env t).2.tree := by
      simp only [dumps.outcome_of_ok returned, notEmpty, Bool.false_eq_true, ↓reduceIte]
    refine ⟨n, script, (dumped o'.printing source env t).2.tree, home, written ▸ stored, ?_⟩
    rw [dumps.withoutOutput.outcome_of_ok (dumped_printing returned)]
    rfl

end ShellCompletion.CommandLine
