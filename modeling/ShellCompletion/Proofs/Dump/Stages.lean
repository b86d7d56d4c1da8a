import ShellCompletion.Proofs.Dump.Loaded
import ShellCompletion.Proofs.Files.Writing
import ShellCompletion.Proofs.Load.Reading

/-! Writing the script for the document in a file, stage by stage. The stages before the last
one give a script or an error whatever the output is, and leave files alone. The main statement
says that a run ends as the first stage that fails does, and what has changed in the tree when
none fails. -/
namespace ShellCompletion.Dump

open Document Files Load Script Host

/-- The script for the document that a source names: the shell is looked at, the file is read,
its content is parsed, and the document is checked and compiled. -/
def scriptOf (env : Environment) (t : Tree) (source shell : String) : Except DumpError String := do
  let _ ← (target shell).mapError .compile
  let file ← (readSource env t source).mapError .load
  let document ← (parseNamed file).mapError .load
  (compileLoaded shell document).1.mapError .compile

theorem scriptOf_eq (env : Environment) (t : Tree) (source shell : String) :
    scriptOf env t source shell = (do
      let _ ← (target shell).mapError .compile
      let document ← (documentOf env t source).mapError .load
      (compileLoaded shell document).1.mapError .compile) := by
  simp only [scriptOf, documentOf, mapError_bind, bind_assoc]

section

variable {env : Environment} {t : Tree} {source shell : String} {goal : Target}

theorem scriptOf_unsupported {e : CompileError} (ht : target shell = .error e) :
    scriptOf env t source shell = .error (.compile e) := by
  rw [scriptOf, ht]
  rfl

theorem scriptOf_unloaded {e : LoadError} (ht : target shell = .ok goal)
    (hd : documentOf env t source = .error e) :
    scriptOf env t source shell = .error (.load e) := by
  rw [scriptOf_eq, ht, hd]
  rfl

theorem scriptOf_loaded {document : Value} (ht : target shell = .ok goal)
    (hd : documentOf env t source = .ok document) :
    scriptOf env t source shell = (compileLoaded shell document).1.mapError .compile := by
  rw [scriptOf_eq, ht, hd]
  rfl

/-- A script is that of the document which has been loaded. -/
theorem exists_document_of_scriptOf {script : String}
    (h : scriptOf env t source shell = .ok script) :
    ∃ document, documentOf env t source = .ok document ∧
      (compileLoaded shell document).1 = .ok script ∧
      (document.isWhole = true → (Script.dump shell document).1 = .ok script) := by
  cases ht : target shell with
  | error e =>
    rw [scriptOf_unsupported ht] at h
    cases h
  | ok goal =>
    cases hd : documentOf env t source with
    | error e =>
      rw [scriptOf_unloaded ht hd] at h
      cases h
    | ok document =>
      rw [scriptOf_loaded ht hd, mapError_eq_ok_iff] at h
      exact ⟨document, rfl, h, fun hw => (compileLoaded_eq shell hw).symm.trans h⟩

end

variable {σ : Type} [Host σ] {P : σ → Prop} {s : σ}

/-- A run is the writing of the script, in a state with the files of the first one. -/
theorem dumpFile_eq (apart : Apart P) (source shell : String) (output : Option String) (hs : P s) :
    ∃ s', P s' ∧ SameFiles s s' ∧ dumpFile source shell output s =
      match scriptOf (environment s) (tree s) source shell with
      | .error e => (.error e, s')
      | .ok script =>
        match writeOutput script output s' with
        | (.error e, s) => (.error e, s)
        | (.ok _, s) => (.ok script, s) := by
  unfold dumpFile
  cases ht : target shell with
  | error e =>
    rw [scriptOf_unsupported ht]
    exact ⟨s, hs, ⟨rfl, rfl⟩, rfl⟩
  | ok goal =>
    obtain ⟨hl, hs₁, same₁⟩ := load_eq apart source hs
    generalize load source s = loaded at hl hs₁ same₁ ⊢
    rcases loaded with ⟨error | document, s₁⟩
    · rw [scriptOf_unloaded ht hl.symm]
      exact ⟨s₁, hs₁, same₁, rfl⟩
    · rw [scriptOf_loaded ht hl.symm]
      simp only
      rcases compileLoaded shell document with ⟨result, records⟩
      obtain ⟨hs₂, same₂⟩ := apart.noteAll records hs₁
      refine ⟨noteAll records s₁, hs₂, same₁.trans same₂, ?_⟩
      cases result <;> rfl

/-- A script is written, or the attempt leaves directories on the way to its file and perhaps a
beginning of the script. -/
theorem writeScript_cases (apart : Apart P) (script : String) (n : Name) (hs : P s) :
    (writeScript script n s).1 = .ok () ∧ Tree.Written n (Text.encodeUtf8 (script ++ "\n"))
        (tree s) (tree (writeScript script n s).2) ∨
      ∃ f, (writeScript script n s).1 = .error (.unwritable n f) ∧
        Tree.Unwritten n (Text.encodeUtf8 (script ++ "\n")) (tree s) f
          (tree (writeScript script n s).2) := by
  obtain ⟨hs₁, same₁⟩ := apart.note ⟨.debug, "Writing completions to: " ++ n.text⟩ s hs
  simp only [writeScript, same₁.tree]
  rcases he : (tree s).ensureDirectory n.parent with ⟨_ | f, t⟩
  · obtain ⟨hs₂, _, ht⟩ := apart.setTree t _ hs₁
    simp only [ht]
    rcases hw : t.write n (Text.encodeUtf8 (script ++ "\n")) with ⟨_ | f, t'⟩
    · have made := Tree.made_ensureDirectory (tree s) n.parent
      rw [he] at made
      obtain ⟨hs₃, _, ht'⟩ := apart.setTree t' _ hs₂
      obtain ⟨_, same₄⟩ := apart.note ⟨.info, "Completions written to " ++ n.text⟩ _ hs₃
      refine .inl ⟨rfl, ?_⟩
      rw [same₄.tree, ht']
      exact Tree.written_of_write made hw
    · obtain ⟨_, _, ht'⟩ := apart.setTree t' _ hs₂
      exact .inr ⟨f, rfl, ht'.symm ▸ Tree.unwritten_of_write he hw⟩
  · obtain ⟨_, _, ht⟩ := apart.setTree t _ hs₁
    exact .inr ⟨f, rfl, ht.symm ▸ Tree.unwritten_of_ensureDirectory _ he⟩

/-- How a run in an environment and a tree ends, and in which tree. -/
inductive Ends (env : Environment) (t : Tree) (source shell : String) :
    Option String → Except DumpError String → Tree → Prop
  /-- A stage before the last one has failed. -/
  | stopped {output : Option String} {e : DumpError}
      (script : scriptOf env t source shell = .error e) : Ends env t source shell output (.error e) t
  /-- There is no output. -/
  | returned {script : String} (ok : scriptOf env t source shell = .ok script) :
      Ends env t source shell none (.ok script) t
  /-- The home directory in the output is not known. -/
  | homeless {script o : String} {e : HomeError} (ok : scriptOf env t source shell = .ok script)
      (home : expandHome env (.ofText o) = .error e) :
      Ends env t source shell (some o) (.error (.outputHome e)) t
  | written {script o : String} {n : Name} {t' : Tree}
      (ok : scriptOf env t source shell = .ok script) (home : expandHome env (.ofText o) = .ok n)
      (written : Tree.Written n (Text.encodeUtf8 (script ++ "\n")) t t') :
      Ends env t source shell (some o) (.ok script) t'
  | unwritable {script o : String} {n : Name} {f : Fault} {t' : Tree}
      (ok : scriptOf env t source shell = .ok script) (home : expandHome env (.ofText o) = .ok n)
      (unwritten : Tree.Unwritten n (Text.encodeUtf8 (script ++ "\n")) t f t') :
      Ends env t source shell (some o) (.error (.unwritable n f)) t'

theorem dumpFile_ends (apart : Apart P) (source shell : String) (output : Option String)
    (hs : P s) :
    Ends (environment s) (tree s) source shell output (dumpFile source shell output s).1
      (tree (dumpFile source shell output s).2) := by
  obtain ⟨s', hs', same, hrun⟩ := dumpFile_eq apart source shell output hs
  rw [hrun]
  cases hscript : scriptOf (environment s) (tree s) source shell with
  | error e => simpa only [same.tree] using .stopped hscript
  | ok script =>
    cases output with
    | none => simpa only [writeOutput, same.tree] using .returned hscript
    | some o =>
      simp only [writeOutput, same.environment]
      cases hn : expandHome (environment s) (.ofText o) with
      | error e => simpa only [same.tree] using .homeless hscript hn
      | ok n =>
        have ended := writeScript_cases apart script n hs'
        rw [same.tree] at ended
        simp only
        generalize writeScript script n s' = attempt at ended ⊢
        obtain ⟨result, after⟩ := attempt
        rcases ended with ⟨rfl, written⟩ | ⟨f, rfl, unwritten⟩
        · exact .written hscript hn written
        · exact .unwritable hscript hn unwritten

/-- A run ends as the first stage that fails does. Before the last stage nothing changes in the
tree, and the script, which is that of the document, does not depend on the output; when it is
written, its file holds the script and a line break, and only directories that were missing have
been made besides. -/
theorem dumpFile_in_stages (source shell : String) (output : Option String) (s : Trace) :
    let run := dumpFile source shell output s
    (match scriptOf s.environment s.tree source shell, output with
      | .error e, _ => run.1 = .error e ∧ run.2.tree = s.tree
      | .ok script, none => run.1 = .ok script ∧ run.2.tree = s.tree
      | .ok script, some o =>
        match expandHome s.environment (.ofText o) with
        | .error e => run.1 = .error (.outputHome e) ∧ run.2.tree = s.tree
        | .ok n =>
          run.1 = .ok script ∧
            Tree.Written n (Text.encodeUtf8 (script ++ "\n")) s.tree run.2.tree ∨
          ∃ f, run.1 = .error (.unwritable n f)) ∧
    ∀ script, scriptOf s.environment s.tree source shell = .ok script →
      ∃ document, documentOf s.environment s.tree source = .ok document ∧
        (compileLoaded shell document).1 = .ok script ∧
        (document.isWhole = true → (Script.dump shell document).1 = .ok script) := by
  have ends : Ends s.environment s.tree source shell output (dumpFile source shell output s).1
    (dumpFile source shell output s).2.tree := dumpFile_ends apart_trace source shell output trivial
  refine ⟨?_, fun _ => exists_document_of_scriptOf⟩
  generalize (dumpFile source shell output s).1 = result,
    (dumpFile source shell output s).2.tree = after at ends
  cases ends with
  | stopped h => simp only [h, and_self]
  | returned h => simp only [h, and_self]
  | homeless h hn => simp only [h, hn, and_self]
  | written h hn w => simp only [h, hn]; exact .inl ⟨trivial, w⟩
  | unwritable h hn => simp only [h, hn]; exact .inr ⟨_, rfl⟩

end ShellCompletion.Dump
