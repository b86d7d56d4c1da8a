import ShellCompletion.Proofs.Dump.Stages

/-! What is left of a run whose script can not be written. Directories on the way to the output
are made before its file is opened, and they stay when the file can not be opened; the file is
made or emptied before the script is stored, and stays so when the storing breaks off. The main
statement says that nothing else is left, and which of the two it is. -/
namespace ShellCompletion.Dump

open Files Load Script Host

/-- The stages before the writing do not speak of the output. -/
theorem scriptOf_ne_unwritable (env : Environment) (t : Tree) (source shell : String) (n : Name)
    (f : Fault) : scriptOf env t source shell ≠ .error (.unwritable n f) := by
  cases ht : target shell with
  | error e =>
    rw [scriptOf_unsupported ht]
    simp
  | ok goal =>
    cases hd : documentOf env t source with
    | error e =>
      rw [scriptOf_unloaded ht hd]
      simp
    | ok document =>
      rw [scriptOf_loaded ht hd, Ne, mapError_eq_error_iff]
      simp

/-- When a script can not be written, every place holds what it held, but for directories that
were missing on the way to the output, and for the file of the output where the storing of the
script broke off: that holds a beginning of the script. If the directory of the output was there
and nothing broke off, nothing has changed. -/
theorem dumpFile_unwritable {source shell : String} {output : Option String} {s : Trace} {n : Name}
    {f : Fault} (h : (dumpFile source shell output s).1 = .error (.unwritable n f)) :
    let after := (dumpFile source shell output s).2.tree
    (∃ o, output = some o ∧ expandHome s.environment (.ofText o) = .ok n) ∧
    ∃ script, scriptOf s.environment s.tree source shell = .ok script ∧
      Tree.Unwritten n (Text.encodeUtf8 (script ++ "\n")) s.tree f after ∧
      ∀ q, after.node? q = s.tree.node? q ∨
        (s.tree.node? q = none ∧ after.node? q = some .directory ∧
          ∃ m : Name, m.Leads n.parent ∧ after.locate m = .ok q) ∨
        ∃ b, s.tree.breaks.lookup q = some b ∧ f = .broken b.reason ∧ after.locate n = .ok q ∧
          after.node? q = some (.file ((Text.encodeUtf8 (script ++ "\n")).take b.stored)) := by
  have ends : Ends s.environment s.tree source shell output (dumpFile source shell output s).1
    (dumpFile source shell output s).2.tree := dumpFile_ends apart_trace source shell output trivial
  rw [h] at ends
  generalize (dumpFile source shell output s).2.tree = after at ends
  cases ends with
  | stopped h => exact absurd h (scriptOf_ne_unwritable s.environment s.tree source shell n f)
  | unwritable ok home unwritten =>
    exact ⟨⟨_, rfl, home⟩, _, ok, unwritten, unwritten.node?_cases⟩

/-- A tree whose only file describes a tool, and nothing besides. -/
def soleSource : Trace where
  environment := {}
  tree := { nodes := [([], .directory), (["t.json"],
      .file [0x7B, 0x22, 0x6E, 0x61, 0x6D, 0x65, 0x22, 0x3A, 0x22, 0x74, 0x22, 0x7D])]
            here := [] }

/-- The output is the directory above one that is missing: that one is made and stays. -/
theorem dumpFile_unwritable_above_missing :
    let run := dumpFile "t.json" "bash" (some "new/..") soleSource
    run.1 = .error (.unwritable ⟨"", ["new", ".."]⟩ .isDirectory) ∧
      soleSource.tree.node? ["new"] = none ∧ run.2.tree.node? ["new"] = some .directory ∧
      ∃ script, scriptOf {} soleSource.tree "t.json" "bash" = .ok script ∧
        Tree.Unwritten ⟨"", ["new", ".."]⟩ (Text.encodeUtf8 (script ++ "\n")) soleSource.tree
          .isDirectory run.2.tree := by
  intro run
  have h : run.1 = .error (.unwritable ⟨"", ["new", ".."]⟩ .isDirectory) := by decide +kernel
  obtain ⟨-, script, ok, unwritten, -⟩ := dumpFile_unwritable h
  exact ⟨h, by decide +kernel, by decide +kernel, script, ok, unwritten⟩

/-- Where the disk is full the output is emptied. -/
example :
    let tree := soleSource.tree.set ["f"] (.file [0x6F])
    let full := { soleSource with tree := { tree with breaks := [(["f"], ⟨0, .noSpace⟩)] } }
    let run := dumpFile "t.json" "bash" (some "f") full
    run.1 = .error (.unwritable ⟨"", ["f"]⟩ (.broken .noSpace)) ∧
      run.2.tree.node? ["f"] = some (.file []) := by
  decide +kernel

end ShellCompletion.Dump
