import ShellCompletion.Proofs.CommandLine.ExitCodes
import ShellCompletion.Proofs.Text.OneLine

/-! What is told when a run ends in an error about its shell, about a file that can not be read or
written, or about a text that can not be parsed. The message is put together from fixed words, from
the reason, and from a text that comes from outside: the name of the shell, or that of a file after
variables and the home directory in it have been replaced. The main statement says that it is one
line just when this text is: no line break comes from a reason, and none in the text is taken
out. -/
namespace ShellCompletion.CommandLine

open Files Load World Dump Script Log Text

variable {args : List String} {env : Environment} {t : Tree} {o : Options} {source : String}

/-! ### Texts on one line -/

theorem oneLine_fault (f : Fault) : OneLine f.message.toList := by
  cases f with
  | broken reason => cases reason <;> exact oneLine_ofList
  | _ => exact oneLine_ofList

/-- Every line break is a blank, at which words end. -/
theorem oneLine_collapse (s : String) : OneLine (collapse s).toList := by
  have solid : lineBreaks.any (fun c => !isBlank c) = false := by decide
  refine oneLine_intercalate oneLine_ofList fun w hw => ?_
  obtain ⟨cs, hcs, rfl⟩ := List.mem_map.1 hw
  rw [String.toList_ofList]
  exact fun c hc => not_mem_lineBreaks solid (by simp [(words_solid s.toList cs hcs).2 c hc])

/-- The line that a fatal error is told by, in colours or without. -/
def fatalLine (colored : Bool) (message : String) : String :=
  (if colored then Style.ofLevel Level.critical else .plain).paint (toolName ++ ": " ++ message)

theorem oneLine_fatalLine_iff (colored : Bool) (message : String) :
    OneLine (fatalLine colored message).toList ↔ OneLine message.toList := by
  have name : OneLine (toolName ++ ": ").toList := by decide
  have before : OneLine (Style.ofLevel Level.critical).before.toList := by decide
  have after : OneLine (Style.ofLevel Level.critical).after.toList := by decide
  rw [String.toList_append, oneLine_append] at name
  cases colored <;> simp only [fatalLine, Style.paint, Style.plain, String.toList_append,
    oneLine_append, name, before, after, Bool.false_eq_true, ↓reduceIte, String.toList_empty,
    oneLine_nil, true_and, and_true]

/-- The message of an error of a kind: what could not be done with a given text, and the reason. -/
def told (kind task given reason : String) : String :=
  kind ++ ": " ++ (task ++ given ++ ": " ++ reason)

/-- Where all else is on one line, the given text decides. -/
theorem oneLine_told_iff {kind task given reason : String} (hk : OneLine kind.toList)
    (ht : OneLine task.toList) (hr : OneLine reason.toList) :
    OneLine (told kind task given reason).toList ↔ OneLine given.toList := by
  have colon : OneLine ": ".toList := oneLine_ofList
  simp only [told, String.toList_append, oneLine_append, hk, ht, hr, colon, true_and, and_true]

/-! ### Fatal errors -/

/-- The errors about a shell, a file and its text that a run may end in: the message, the exit
code, and the text in the message that comes from outside. -/
inductive Fatal (args : List String) (env : Environment) (t : Tree) : String → Nat → String → Prop
  | unsupported {o : Options} (parsed : parse args = .ok o) (working : o.help = false)
      (unknown : ¬Supported o.shell) :
      Fatal args env t ("'" ++ o.shell ++ "' is not supported yet") 1 o.shell
  | unreadable {o : Options} {source : String} {n : Name} {f : Fault} (dumps : Dumps args o source)
      (fails : Fails env t source o.shell (.load (.unreadable n f))) (named : f ≠ .nul) :
      Fatal args env t (told "DocumentIOError" "cannot read " n.text f.message) 3 n.text
  | malformed {o : Options} {source : String} {n : Name} {e : ParseError}
      (dumps : Dumps args o source) (fails : Fails env t source o.shell (.load (.malformed n e)))
      (valued : e.defect? = none) :
      Fatal args env t
        (told "MalformedDocumentError" "cannot parse " n.text (collapse e.message)) 2 n.text
  | unwritable {o : Options} {source : String} {n : Name} {f : Fault} (dumps : Dumps args o source)
      (fails : (dumped o source env t).1 = .error (.unwritable n f)) (named : f ≠ .nul) :
      Fatal args env t (told "DocumentIOError" "cannot write " n.text f.message) 3 n.text

variable {message given : String} {code : Nat}

theorem Fatal.oneLine_iff (h : Fatal args env t message code given) :
    OneLine message.toList ↔ OneLine given.toList := by
  cases h with
  | unsupported =>
    have before : OneLine "'".toList := oneLine_ofList
    have after : OneLine "' is not supported yet".toList := oneLine_ofList
    simp only [String.toList_append, oneLine_append, before, after, true_and, and_true]
  | unreadable => exact oneLine_told_iff oneLine_ofList oneLine_ofList (oneLine_fault _)
  | malformed => exact oneLine_told_iff oneLine_ofList oneLine_ofList (oneLine_collapse _)
  | unwritable => exact oneLine_told_iff oneLine_ofList oneLine_ofList (oneLine_fault _)

/-- A run whose dumping fails in a way that is foreseen tells so in its last step. -/
theorem Dumps.exists_failWith (h : Dumps args o source) {e : DumpError} {name : String}
    (fails : (dumped o source env t).1 = .error e) (declared : e.declared? = some (name, code))
    (terminal : Bool) : ∃ w, run args (launched env t terminal) =
      failWith (name ++ ": " ++ e.message) code w := by
  obtain ⟨goal, hs⟩ := h.supported
  have known : (Target.ofName? o.shell).isNone = false := by rw [← hs, Target.ofName?_name]; rfl
  obtain ⟨⟨result, s⟩, alike, ended⟩ :=
    exists_runWith_eq_conclude h.working known h.given env t terminal
  have failed : result = .error e := alike.result.trans fails
  refine ⟨s.world, ?_⟩
  rw [run, h.parsed]
  refine ended.trans ?_
  rw [failed, conclude, declared]

theorem message_unreadable (n : Name) {f : Fault} (named : f ≠ .nul) :
    (DumpError.load (.unreadable n f)).message = "cannot read " ++ n.text ++ ": " ++ f.message := by
  cases f with
  | nul => exact absurd rfl named
  | _ => rfl

theorem message_unwritable (n : Name) {f : Fault} (named : f ≠ .nul) :
    (DumpError.unwritable n f).message = "cannot write " ++ n.text ++ ": " ++ f.message := by
  cases f with
  | nul => exact absurd rfl named
  | _ => rfl

theorem message_malformed (n : Name) {e : ParseError} (valued : e.defect? = none) :
    (DumpError.load (.malformed n e)).message =
      "cannot parse " ++ n.text ++ ": " ++ collapse e.message := by
  rw [DumpError.message, LoadError.message, valued]

/-- A fatal error is told in the last step of its run. -/
theorem Fatal.exists_failWith (h : Fatal args env t message code given) (terminal : Bool) :
    ∃ w, run args (launched env t terminal) = failWith message code w := by
  cases h with
  | @unsupported o parsed working unknown =>
    refine ⟨readied o (launched env t terminal), ?_⟩
    rw [run, parsed]
    exact runWith_unsupported working (by rw [ofName?_eq_none unknown]; rfl) _
  | unreadable dumps fails named =>
    rw [told, ← message_unreadable _ named]
    exact dumps.exists_failWith (dumped_of_fails fails) (declared?_unreadable _ named) terminal
  | malformed dumps fails valued =>
    rw [told, ← message_malformed _ valued]
    exact dumps.exists_failWith (dumped_of_fails fails) (declared?_malformed _ valued) terminal
  | unwritable dumps fails named =>
    rw [told, ← message_unwritable _ named]
    exact dumps.exists_failWith fails (declared?_unwritable _ named) terminal

/-- A run that ends in an error about its shell, about a file that can not be read or written, or
about a text that can not be parsed, ends by telling it, after whatever has been told before. What
is told is one line just when the name of the shell or of the file is on one line. -/
theorem fatal_told (h : Fatal args env t message code given) (terminal : Bool) :
    ∃ (w : World) (colored : Bool), run args (launched env t terminal) =
        (.exit code, w.printError (fatalLine colored message)) ∧
      (OneLine (fatalLine colored message).toList ↔ OneLine given.toList) := by
  obtain ⟨w, hw⟩ := h.exists_failWith terminal
  refine ⟨w, usesColors w.environment w.terminal, hw, ?_⟩
  rw [oneLine_fatalLine_iff, h.oneLine_iff]

/-- The name of a shell that takes two lines is told as it is, on two lines. -/
theorem fatal_told_two_lines :
    ∃ (w : World) (colored : Bool), run ["-s", "a\nb", "t.yaml"] (launched {} (.empty []) false) =
        (.exit 1, w.printError (fatalLine colored ("'" ++ "a\nb" ++ "' is not supported yet"))) ∧
      ¬OneLine (fatalLine colored ("'" ++ "a\nb" ++ "' is not supported yet")).toList := by
  have parsed : parse ["-s", "a\nb", "t.yaml"] =
      .ok { shell := "a\nb", source := some "t.yaml", sourceSeen := true } := by decide
  have unknown : ¬Supported "a\nb" := by
    rintro ⟨goal, h⟩
    cases goal
    revert h
    decide
  have fatal : Fatal ["-s", "a\nb", "t.yaml"] {} (.empty []) _ 1 "a\nb" :=
    .unsupported parsed rfl unknown
  obtain ⟨w, colored, ended, line⟩ := fatal_told fatal false
  refine ⟨w, colored, ended, fun h => ?_⟩
  have broken : ¬OneLine "a\nb".toList := by decide
  exact broken (line.1 h)

end ShellCompletion.CommandLine
