import ShellCompletion.CommandLine.Run
import ShellCompletion.Proofs.Logging.Session

/-! What a run of the program shows besides what it prints as errors: how it ends, what it prints
on the standard output, and the files that it leaves. The main statement says that the loggers
have no part in this: a run shows what it would show without them. -/
namespace ShellCompletion.CommandLine

open Files Log World

/-- What a run shows. -/
structure Outcome where
  ending : Ending
  output : String
  tree : Tree
deriving DecidableEq

def seen (run : Ending × World) : Outcome := ⟨run.1, run.2.output, run.2.tree⟩

/-- The file for the script, if there is to be one. -/
def Options.file? (o : Options) : Option String := if o.output.isEmpty then none else some o.output

/-- Dump a source where there are no loggers. -/
def dumped (o : Options) (source : String) (env : Environment) (t : Tree) :
    Except Dump.DumpError String × Trace :=
  Dump.dumpFile source o.shell o.file? ⟨env, t, []⟩

/-- How a run ends when there is no script. -/
def endingOf (e : Dump.DumpError) : Ending :=
  match e.declared? with
  | some (_, code) => .exit code
  | none => .unforeseen e

/-- Can a text be printed as a line on the standard output? -/
def Printable (env : Environment) (text : String) : Prop :=
  (env.charset.encode (text ++ "\n")).isSome = true

/-- What a run shows that ends with the printing of a text. -/
def outcomePrinting (env : Environment) (text : String) (t : Tree) : Outcome :=
  match env.charset.encode (text ++ "\n") with
  | some _ => ⟨.exit 0, text ++ "\n", t⟩
  | none => ⟨.unprintable, "", t⟩

theorem outcomePrinting_of_printable {env : Environment} {text : String} (h : Printable env text)
    (t : Tree) : outcomePrinting env text t = ⟨.exit 0, text ++ "\n", t⟩ := by
  obtain ⟨bytes, hb⟩ := Option.isSome_iff_exists.1 h
  rw [outcomePrinting, hb]

theorem outcomePrinting_of_not_printable {env : Environment} {text : String}
    (h : ¬Printable env text) (t : Tree) : outcomePrinting env text t = ⟨.unprintable, "", t⟩ := by
  rw [Printable, Option.not_isSome_iff_eq_none] at h
  rw [outcomePrinting, h]

/-- What a run shows when a source has been dumped. -/
def outcomeOf (o : Options) : Except Dump.DumpError String × Trace → Outcome
  | (.ok script, s) =>
    if o.output.isEmpty then outcomePrinting s.environment script s.tree else ⟨.exit 0, "", s.tree⟩
  | (.error e, s) => ⟨endingOf e, "", s.tree⟩

theorem outcomeOf_ok (o : Options) {run : Except Dump.DumpError String × Trace} {script : String}
    (h : run.1 = .ok script) : outcomeOf o run =
      if o.output.isEmpty then outcomePrinting run.2.environment script run.2.tree
      else ⟨.exit 0, "", run.2.tree⟩ := by
  obtain ⟨result, s⟩ := run
  subst h
  rfl

theorem outcomeOf_error (o : Options) {run : Except Dump.DumpError String × Trace}
    {e : Dump.DumpError} (h : run.1 = .error e) :
    outcomeOf o run = ⟨endingOf e, "", run.2.tree⟩ := by
  obtain ⟨result, s⟩ := run
  subst h
  rfl

/-- What a run shows without loggers, given arguments that are understood. -/
def outcomeWith (o : Options) (env : Environment) (t : Tree) : Outcome :=
  if o.help then outcomePrinting env usageText t
  else if (Script.Target.ofName? o.shell).isNone then ⟨.exit 1, "", t⟩
  else match o.source with
    | none => ⟨.exit 1, "", t⟩
    | some source => outcomeOf o (dumped o source env t)

/-- What a run shows without loggers. -/
def outcome (args : List String) (env : Environment) (t : Tree) : Outcome :=
  match parse args with
  | .error _ => ⟨.exit 1, "", t⟩
  | .ok o => outcomeWith o env t

/-! ### Quiet programs -/

variable {env : Environment} {t : Tree} {w w' : World}

/-- A program in an environment and a tree that has printed no more than errors, and whose
handlers are screens. -/
structure Quiet (env : Environment) (t : Tree) (w : World) : Prop where
  environment : w.environment = env
  tree : w.tree = t
  output : w.output = ""
  screens : w.OnScreens

theorem quiet_launched (env : Environment) (t : Tree) (terminal : Bool) :
    Quiet env t (launched env t terminal) :=
  ⟨rfl, rfl, rfl, fun _ h => nomatch h⟩

/-- Beginning to log to the screen, with no handler active. -/
theorem quiet_initLogging (h : Quiet env t w) (idle : w.active = []) (debug : Bool) :
    Quiet env t (w.initLogging "" debug).2 := by
  have empty : "".isEmpty = true := rfl
  unfold initLogging
  rw [debug_forced]
  simp only [idle, List.foldl_nil, empty, ↓reduceIte, addHandler]
  refine ⟨h.environment, h.tree, h.output, fun handler hm => ?_⟩
  obtain hm | hm := List.mem_append.1 hm
  · exact h.screens handler hm
  · exact ⟨_, List.mem_singleton.1 hm⟩

theorem quiet_log (h : Quiet env t w) (name : String) (r : Record) :
    Quiet env t (w.log name r) := by
  have told := tells_log name r w
  exact ⟨told.environment.trans h.environment, (tree_log h.screens name r).trans h.tree,
    told.output.trans h.output, told.onScreens h.screens⟩

theorem quiet_getLogger (h : Quiet env t w) (name : String) (level : Option Level) :
    Quiet env t (w.getLogger name level) := by
  have equipped : Quiet env t (w.equip name level) := by
    rw [equip_eq]
    exact ⟨h.environment, h.tree, h.output, h.screens⟩
  rw [getLogger, prepareLogger_eq]
  exact quiet_log equipped name _

/-- A quiet program with the files and the environment of a trace. -/
def Follows (s : Logging) (s' : Trace) : Prop := Quiet s'.environment s'.tree s.world

/-- What is done to both leaves a program quiet, whatever becomes of the records. -/
theorem mirrors_follows (source : String) : Dump.Mirrors source Follows where
  names {s s'} h := by
    have same : Host.environment s = Host.environment s' := h.environment
    rw [same]
    exact Dump.sameNames_self source _
  tree h := h.tree
  note r _ _ h := quiet_log h _ r
  setTree _ _ _ h := ⟨h.environment, rfl, h.output, h.screens⟩

/-! ### Runs -/

theorem seen_failWith (h : Quiet env t w) (message : String) (code : Nat) :
    seen (failWith message code w) = ⟨.exit code, "", t⟩ := by
  rw [← h.tree, ← h.output]
  rfl

theorem seen_succeedWith (h : Quiet env t w) (text : String) :
    seen (succeedWith text w) = outcomePrinting env text t := by
  obtain ⟨rfl, rfl, output, -⟩ := h
  unfold succeedWith print outcomePrinting
  cases w.environment.charset.encode (text ++ "\n") with
  | none => simp [seen, output]
  | some bytes => simp [seen, output]

/-- The end of a run, when a source has been dumped. -/
def conclude (o : Options) : Except Dump.DumpError String × Logging → Ending × World
  | (.ok script, s) => if o.file?.isNone then succeedWith script s.world else (.exit 0, s.world)
  | (.error e, s) =>
    match e.declared? with
    | some (name, code) => failWith (name ++ ": " ++ e.message) code s.world
    | none => (.unforeseen e, s.world)

theorem seen_conclude (o : Options) {run : Except Dump.DumpError String × Logging}
    {run' : Except Dump.DumpError String × Trace} (h : Dump.EndAlike Follows run run') :
    seen (conclude o run) = outcomeOf o run' := by
  obtain ⟨result, s⟩ := run
  obtain ⟨result', s'⟩ := run'
  obtain ⟨rfl, quiet⟩ := h
  have tree : s.world.tree = s'.tree := quiet.tree
  have output : s.world.output = "" := quiet.output
  cases result with
  | ok script =>
    unfold conclude outcomeOf Options.file?
    cases o.output.isEmpty with
    | true => exact seen_succeedWith quiet script
    | false => simp [seen, tree, output]
  | error e =>
    unfold conclude outcomeOf endingOf
    simp only
    split
    · exact seen_failWith quiet _ _
    · simp only [seen, tree, output]

/-- The loggers of a run that has begun. -/
def readied (o : Options) (w : World) : World :=
  (w.initLogging "" o.debug).2.getLogger toolLogger none

theorem quiet_readied (o : Options) (env : Environment) (t : Tree) (terminal : Bool) :
    Quiet env t (readied o (launched env t terminal)) :=
  quiet_getLogger (quiet_initLogging (quiet_launched env t terminal) rfl o.debug) toolLogger none

theorem runWith_unsupported {o : Options} (working : o.help = false)
    (unknown : (Script.Target.ofName? o.shell).isNone = true) (w : World) :
    runWith o w = failWith (Script.unsupportedText o.shell) 1 (readied o w) := by
  simp [runWith, readied, working, unknown]

theorem runWith_sourceless {o : Options} (working : o.help = false)
    (known : (Script.Target.ofName? o.shell).isNone = false) (missing : o.source = none)
    (w : World) : runWith o w = failWith "no input source-file" 1 (readied o w) := by
  simp [runWith, readied, working, known, missing]

/-- A run that has a source ends as the dumping does that it goes over to. -/
theorem exists_runWith_eq_conclude {o : Options} {source : String} (working : o.help = false)
    (known : (Script.Target.ofName? o.shell).isNone = false) (given : o.source = some source)
    (env : Environment) (t : Tree) (terminal : Bool) :
    ∃ run, Dump.EndAlike Follows run (dumped o source env t) ∧
      runWith o (launched env t terminal) = conclude o run := by
  have quiet := quiet_readied o env t terminal
  have warned : Quiet env t (if o.extras.isEmpty then readied o (launched env t terminal)
      else (readied o (launched env t terminal)).log toolLogger
        ⟨.warning, "Ignoring extra arguments: " ++ " ".intercalate o.extras⟩) := by
    split
    · exact quiet
    · exact quiet_log quiet _ _
  refine ⟨_, (mirrors_follows source).dumpFile o.shell o.file? (s := Logging.mk _ toolLogger)
    warned, ?_⟩
  simp only [runWith, working, known, given, Bool.false_eq_true, ↓reduceIte]
  rfl

theorem seen_runWith (o : Options) (env : Environment) (t : Tree) (terminal : Bool) :
    seen (runWith o (launched env t terminal)) = outcomeWith o env t := by
  have quiet := quiet_readied o env t terminal
  unfold outcomeWith
  split
  · next help =>
    rw [runWith, if_pos help]
    exact seen_succeedWith (quiet_launched env t terminal) usageText
  · next help =>
    have working : o.help = false := eq_false_of_ne_true help
    split
    · next unknown =>
      rw [runWith_unsupported working unknown]
      exact seen_failWith quiet _ 1
    · next known =>
      have known : (Script.Target.ofName? o.shell).isNone = false :=
        eq_false_of_ne_true known
      cases given : o.source with
      | none =>
        rw [runWith_sourceless working known given]
        exact seen_failWith quiet _ 1
      | some source =>
        obtain ⟨run, alike, ended⟩ := exists_runWith_eq_conclude working known given env t terminal
        rw [ended]
        exact seen_conclude o alike

theorem seen_run (args : List String) (env : Environment) (t : Tree) (terminal : Bool) :
    seen (run args (launched env t terminal)) = outcome args env t := by
  unfold run outcome
  cases parse args with
  | error e => rfl
  | ok o => exact seen_runWith o env t terminal

end ShellCompletion.CommandLine
