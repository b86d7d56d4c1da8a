import ShellCompletion.Proofs.Dump.Stages
import ShellCompletion.Proofs.Script.Compilation

/-! Why there is no script. The main statement describes the error of the first stage that fails by
what is wrong: the shell, the home directory, the file, its text, or the document. -/
namespace ShellCompletion.Dump

open Document Files Load Script Interface

variable {env : Environment} {t : Tree} {source shell : String} {e : DumpError}

/-- What is wrong before a script is written, and the error that says so. -/
inductive Fails (env : Environment) (t : Tree) (source shell : String) : DumpError → Prop
  | unsupported (unknown : ¬Supported shell) :
      Fails env t source shell (.compile (.unsupportedShell shell))
  | homeless {e : HomeError} (supported : Supported shell)
      (named : sourceName env source = .error e) : Fails env t source shell (.load (.home e))
  | unreadable {n : Name} {f : Fault} (supported : Supported shell)
      (named : sourceName env source = .ok n) (read : t.read n = .error f) :
      Fails env t source shell (.load (.unreadable n f))
  | malformed {n : Name} {bytes : List UInt8} {e : ParseError} (supported : Supported shell)
      (named : sourceName env source = .ok n) (read : t.read n = .ok bytes)
      (parsed : parse (Format.ofName n) bytes = .error e) :
      Fails env t source shell (.load (.malformed n e))
  | rejected {n : Name} {bytes : List UInt8} {document : Value} {vs : List Schema.Violation}
      (supported : Supported shell) (named : sourceName env source = .ok n)
      (read : t.read n = .ok bytes) (parsed : parse (Format.ofName n) bytes = .ok document)
      (showable : ¬Unshowable (document.unroll checkedDepth []))
      (verdict : (validate (document.unroll checkedDepth [])).1 = .rejected vs) :
      Fails env t source shell (.compile (.rejected vs))
  | unshowable {n : Name} {bytes : List UInt8} {document : Value}
      (supported : Supported shell) (named : sourceName env source = .ok n)
      (read : t.read n = .ok bytes) (parsed : parse (Format.ofName n) bytes = .ok document)
      (unshowable : Unshowable (document.unroll checkedDepth [])) :
      Fails env t source shell (.compile .tooManyDigits)

theorem exists_target (h : Supported shell) : ∃ goal, target shell = .ok goal := by
  obtain ⟨goal, rfl⟩ := h
  exact ⟨goal, by rw [target, Target.ofName?_name]⟩

theorem scriptOf_read {n : Name} {bytes : List UInt8} {document : Value}
    (supported : Supported shell) (named : sourceName env source = .ok n)
    (read : t.read n = .ok bytes) (parsed : parse (Format.ofName n) bytes = .ok document) :
    scriptOf env t source shell =
      (Script.dump shell (document.unroll checkedDepth [])).1.mapError .compile := by
  obtain ⟨_, ht⟩ := exists_target supported
  rw [scriptOf_loaded ht ((documentOf_of_read named read).trans (parseNamed_ok parsed)),
    compileLoaded]

theorem Fails.scriptOf_eq (h : Fails env t source shell e) :
    scriptOf env t source shell = .error e := by
  cases h with
  | unsupported hs => exact scriptOf_unsupported (target_unsupported hs)
  | homeless hs named =>
    obtain ⟨goal, ht⟩ := exists_target hs
    exact scriptOf_unloaded ht (documentOf_homeless named)
  | unreadable hs named read =>
    obtain ⟨goal, ht⟩ := exists_target hs
    exact scriptOf_unloaded ht (documentOf_unreadable named read)
  | malformed hs named read parsed =>
    obtain ⟨goal, ht⟩ := exists_target hs
    exact scriptOf_unloaded ht ((documentOf_of_read named read).trans (parseNamed_error parsed))
  | rejected hs named read parsed showable verdict =>
    obtain ⟨goal, rfl⟩ := hs
    rw [scriptOf_read (supported_name goal) named read parsed, dump_of_showable _ showable,
      compile_rejected goal verdict]
    rfl
  | unshowable hs named read parsed unshowable =>
    obtain ⟨goal, rfl⟩ := hs
    rw [scriptOf_read (supported_name goal) named read parsed, dump_of_unshowable goal unshowable]
    rfl

/-- Something is wrong, or there is a script. -/
theorem fails_or_compiles (env : Environment) (t : Tree) (source shell : String) :
    (∃ e, Fails env t source shell e) ∨ ∃ script, scriptOf env t source shell = .ok script := by
  by_cases hs : Supported shell
  · cases named : sourceName env source with
    | error e => exact .inl ⟨_, .homeless hs named⟩
    | ok n =>
      cases read : t.read n with
      | error f => exact .inl ⟨_, .unreadable hs named read⟩
      | ok bytes =>
        cases parsed : parse (Format.ofName n) bytes with
        | error e => exact .inl ⟨_, .malformed hs named read parsed⟩
        | ok document =>
          by_cases unshowable : Unshowable (document.unroll checkedDepth [])
          · exact .inl ⟨_, .unshowable hs named read parsed unshowable⟩
          · obtain ⟨i, hi⟩ | ⟨vs, hvs⟩ := accepted_or_rejected (document.unroll checkedDepth [])
            · obtain ⟨goal, rfl⟩ := hs
              right
              rw [scriptOf_read (supported_name goal) named read parsed,
                dump_of_showable _ unshowable, compile_accepted goal hi]
              exact ⟨_, rfl⟩
            · exact .inl ⟨_, .rejected hs named read parsed unshowable hvs⟩
  · exact .inl ⟨_, .unsupported hs⟩

/-- The error of the first stage that fails says what is wrong. -/
theorem scriptOf_eq_error_iff :
    scriptOf env t source shell = .error e ↔ Fails env t source shell e := by
  constructor
  · intro h
    obtain ⟨e', fails⟩ | ⟨script, hs⟩ := fails_or_compiles env t source shell
    · rw [fails.scriptOf_eq, Except.error.injEq] at h
      exact h ▸ fails
    · rw [hs] at h
      cases h
  · exact Fails.scriptOf_eq

end ShellCompletion.Dump
