import ShellCompletion.Dump
import ShellCompletion.Proofs.Files.Keeping
import ShellCompletion.Proofs.Load.Reading

/-! What dumping a file depends on, and what it can do to a host. A relation between the states
of a host that holds whenever something is noted, and whenever the tree is replaced by one that
keeps it, holds from the beginning of a run to its end. The main statement is about two hosts:
where files are named alike, the trees are one and what is done to one host is done to the other,
the runs end alike, whatever becomes of the records. -/
namespace ShellCompletion.Dump

open Document Files Load Script Host

/-! ### One host -/

section

variable {σ : Type} [Host σ]

/-- The relation holds from one state to the next, and from the first to the last. -/
structure Steady (Q : σ → σ → Prop) : Prop where
  refl : ∀ s, Q s s
  trans : ∀ {s s' s''}, Q s s' → Q s' s'' → Q s s''
  note : ∀ r s, Q s (note r s)
  setTree : ∀ {t s}, (tree s).Keeps t → Q s (setTree t s)

variable {Q : σ → σ → Prop}

theorem Steady.noteAll (h : Steady Q) (rs : List Log.Record) (s : σ) :
    Q s (Host.noteAll rs s) := by
  induction rs generalizing s with
  | nil => exact h.refl s
  | cons r rs ih => exact h.trans (h.note r s) (ih (Host.note r s))

theorem Steady.load (h : Steady Q) (source : String) (s : σ) : Q s (load source s).2 := by
  unfold Load.load
  cases sourceName (environment s) source with
  | error e => exact h.refl s
  | ok n =>
    have opened := h.note ⟨.info, "Loading " ++ n.text⟩ s
    have parsed := h.trans opened
      (h.note ⟨.debug, "Parsing " ++ n.text ++ " as " ++ (Format.ofName n).name⟩ _)
    simp only
    split
    · exact opened
    · split <;> exact parsed

theorem Steady.writeScript (h : Steady Q) (script : String) (n : Name) (s : σ) :
    Q s (writeScript script n s).2 := by
  have announced := h.note ⟨.debug, "Writing completions to: " ++ n.text⟩ s
  unfold Dump.writeScript
  generalize Host.note ⟨.debug, "Writing completions to: " ++ n.text⟩ s = s₁ at announced ⊢
  have made := (Tree.made_ensureDirectory (tree s₁) n.parent).grown.keeps
  simp only
  generalize (tree s₁).ensureDirectory n.parent = attempt at made ⊢
  obtain ⟨_ | f, t⟩ := attempt
  · have there := h.trans announced (h.setTree made)
    have stored := h.setTree
      ((tree (Host.setTree t s₁)).writes_write n (Text.encodeUtf8 (script ++ "\n"))).keeps
    simp only
    generalize (tree (Host.setTree t s₁)).write n _ = attempt at stored ⊢
    obtain ⟨_ | f, t'⟩ := attempt
    · exact h.trans (h.trans there stored) (h.note _ _)
    · exact h.trans there stored
  · exact h.trans announced (h.setTree made)

theorem Steady.writeOutput (h : Steady Q) (script : String) (output : Option String) (s : σ) :
    Q s (writeOutput script output s).2 := by
  unfold Dump.writeOutput
  cases output with
  | none => exact h.refl s
  | some o =>
    simp only
    split
    · exact h.refl s
    · exact h.writeScript ..

theorem Steady.dumpFile (h : Steady Q) (source shell : String) (output : Option String) (s : σ) :
    Q s (dumpFile source shell output s).2 := by
  have loaded := h.load source s
  unfold Dump.dumpFile
  cases target shell with
  | error e => exact h.refl s
  | ok goal =>
    simp only
    generalize Load.load source s = result at loaded ⊢
    obtain ⟨e | document, s₁⟩ := result
    · exact loaded
    · have compiled := h.trans loaded (h.noteAll (compileLoaded shell document).2 s₁)
      simp only
      split
      · exact compiled
      · next script _ =>
        have written := h.writeOutput script output
          (Host.noteAll (compileLoaded shell document).2 s₁)
        split
        · next hw =>
          rw [hw] at written
          exact h.trans compiled written
        · next hw =>
          rw [hw] at written
          exact h.trans compiled written

end

/-! ### Two hosts -/

/-- In two environments files have the same names: the source, and whatever the output is. -/
structure SameNames (source : String) (env env' : Environment) : Prop where
  source : sourceName env source = sourceName env' source
  home : ∀ n, expandHome env n = expandHome env' n

theorem sameNames_self (source : String) (env : Environment) : SameNames source env env :=
  ⟨rfl, fun _ => rfl⟩

variable {σ σ' : Type} [Host σ] [Host σ']

/-- What is done to related states leaves them related, and of these files are named alike and
the trees are one. -/
structure Mirrors (source : String) (R : σ → σ' → Prop) : Prop where
  names : ∀ {s s'}, R s s' → SameNames source (environment s) (environment s')
  tree : ∀ {s s'}, R s s' → tree s = tree s'
  note : ∀ r {s s'}, R s s' → R (note r s) (note r s')
  setTree : ∀ t {s s'}, R s s' → R (setTree t s) (setTree t s')

/-- Two runs have one result, and end in related states. -/
structure EndAlike {α : Type} (R : σ → σ' → Prop) (run : α × σ) (run' : α × σ') : Prop where
  result : run.1 = run'.1
  state : R run.2 run'.2

variable {source : String} {R : σ → σ' → Prop} {s : σ} {s' : σ'}

theorem Mirrors.noteAll (h : Mirrors source R) (rs : List Log.Record) (hR : R s s') :
    R (Host.noteAll rs s) (Host.noteAll rs s') := by
  induction rs generalizing s s' with
  | nil => exact hR
  | cons r rs ih => exact ih (h.note r hR)

theorem Mirrors.load (h : Mirrors source R) (hR : R s s') :
    EndAlike R (load source s) (load source s') := by
  unfold Load.load
  rw [(h.names hR).source]
  cases sourceName (environment s') source with
  | error e => exact ⟨rfl, hR⟩
  | ok n =>
    have opened := h.note ⟨.info, "Loading " ++ n.text⟩ hR
    have parsed := h.note ⟨.debug, "Parsing " ++ n.text ++ " as " ++ (Format.ofName n).name⟩ opened
    simp only [h.tree opened]
    split
    · exact ⟨rfl, opened⟩
    · split
      · exact ⟨rfl, parsed⟩
      · exact ⟨rfl, parsed⟩

theorem Mirrors.writeScript (h : Mirrors source R) (script : String) (n : Name) (hR : R s s') :
    EndAlike R (writeScript script n s) (writeScript script n s') := by
  have announced := h.note ⟨.debug, "Writing completions to: " ++ n.text⟩ hR
  unfold Dump.writeScript
  simp only [h.tree announced]
  split
  · next f t _ => exact ⟨rfl, h.setTree t announced⟩
  · next t _ =>
    have made := h.setTree t announced
    simp only [h.tree made]
    split
    · next t' _ => exact ⟨rfl, h.setTree t' made⟩
    · next t' _ => exact ⟨rfl, h.note _ (h.setTree t' made)⟩

theorem Mirrors.writeOutput (h : Mirrors source R) (script : String) (output : Option String)
    (hR : R s s') : EndAlike R (writeOutput script output s) (writeOutput script output s') := by
  unfold Dump.writeOutput
  cases output with
  | none => exact ⟨rfl, hR⟩
  | some o =>
    simp only [(h.names hR).home]
    split
    · exact ⟨rfl, hR⟩
    · exact h.writeScript script _ hR

/-- Dumping a file on one host ends as it does on another one that mirrors it. -/
theorem Mirrors.dumpFile (h : Mirrors source R) (shell : String) (output : Option String)
    (hR : R s s') :
    EndAlike R (dumpFile source shell output s) (dumpFile source shell output s') := by
  have loaded := h.load hR
  unfold Dump.dumpFile
  cases target shell with
  | error e => exact ⟨rfl, hR⟩
  | ok goal =>
    simp only
    generalize Load.load source s = run, Load.load source s' = run' at loaded ⊢
    obtain ⟨result, s₁⟩ := run
    obtain ⟨result', s₁'⟩ := run'
    obtain ⟨rfl, hR₁⟩ := loaded
    cases result with
    | error e => exact ⟨rfl, hR₁⟩
    | ok document =>
      have hR₂ := h.noteAll (compileLoaded shell document).2 hR₁
      simp only
      generalize Host.noteAll (compileLoaded shell document).2 s₁ = s₂,
        Host.noteAll (compileLoaded shell document).2 s₁' = s₂' at hR₂ ⊢
      cases (compileLoaded shell document).1 with
      | error e => exact ⟨rfl, hR₂⟩
      | ok script =>
        have written := h.writeOutput script output hR₂
        simp only
        generalize Dump.writeOutput script output s₂ = run,
          Dump.writeOutput script output s₂' = run' at written ⊢
        obtain ⟨result, s₃⟩ := run
        obtain ⟨result', s₃'⟩ := run'
        obtain ⟨rfl, hR₃⟩ := written
        cases result with
        | error e => exact ⟨rfl, hR₃⟩
        | ok _ => exact ⟨rfl, hR₃⟩

end ShellCompletion.Dump
