import Mathlib.Data.List.Basic
import ShellCompletion.Files.Tree

/-! What a tree keeps while directories are made in it. A tree that keeps its directories keeps
what names lead to. The main statement says that making a directory, and those that it is
missing above it, adds directories where nothing was, on the way to it, and does nothing else,
whether it succeeds or not. -/
namespace ShellCompletion.Files

/-- A name leads to another one that begins with its parts. -/
structure Name.Leads (m n : Name) : Prop where
  root : m.root = n.root
  parts : m.parts <+: n.parts

theorem Name.leads_self (n : Name) : n.Leads n := ⟨rfl, List.prefix_refl _⟩

theorem Name.leads_of_parent {m n : Name} (h : m.Leads n.parent) : m.Leads n :=
  ⟨h.root, h.parts.trans (List.dropLast_prefix _)⟩

/-- The fault is not that the storing of data broke off. -/
def Fault.Whole (f : Fault) : Prop := ∀ reason, f ≠ .broken reason

namespace Tree

variable {t t' t'' : Tree} {n m : Name} {p q : Place}

theorem node?_set (t : Tree) (p q : Place) (n : Node) :
    (t.set p n).node? q = if q = p then some n else t.node? q := by
  split
  · next h => rw [h, node?_set_self]
  · next h => exact node?_set_of_ne t n h

/-! ### Keeping directories -/

/-- Every directory of the first tree is one of the second. -/
structure KeepsDirectories (t t' : Tree) : Prop where
  here : t'.here = t.here
  directory : ∀ p, t.node? p = some .directory → t'.node? p = some .directory

/-- The place that a part leads to from a place. -/
def stepTo (p : Place) (part : String) : Place := if part = ".." then p.dropLast else p ++ [part]

/-- A way goes on from directories only. -/
theorem follow_cons_eq_ok_iff {part : String} {rest : List String} :
    t.follow p (part :: rest) = .ok q ↔ t.node? p = some .directory ∧
      part.utf8ByteSize ≤ maxPart ∧ t.follow (stepTo p part) rest = .ok q := by
  simp only [follow, stepTo]
  cases t.node? p with
  | none => simp
  | some node =>
    cases node with
    | file data => simp
    | directory =>
      by_cases hs : maxPart < part.utf8ByteSize
      · simp [hs, Nat.not_le.2 hs]
      · simp [hs, Nat.not_lt.1 hs]

theorem KeepsDirectories.follow (h : KeepsDirectories t t') {parts : List String}
    (hf : t.follow p parts = .ok q) : t'.follow p parts = .ok q := by
  induction parts generalizing p with
  | nil => exact hf
  | cons part rest ih =>
    obtain ⟨hp, hs, hf⟩ := follow_cons_eq_ok_iff.1 hf
    exact follow_cons_eq_ok_iff.2 ⟨h.directory p hp, hs, ih hf⟩

theorem locate_eq_ok_iff : t.locate n = .ok p ↔ n.hasNul = false ∧
    n.text.utf8ByteSize ≤ maxName ∧
      t.follow (if n.isAbsolute then [] else t.here) n.parts = .ok p := by
  unfold locate
  split
  · simp_all
  · split
    · simp_all [Nat.not_le.2]
    · simp_all

theorem KeepsDirectories.locate (h : KeepsDirectories t t') (hl : t.locate n = .ok p) :
    t'.locate n = .ok p := by
  obtain ⟨hn, hs, hf⟩ := locate_eq_ok_iff.1 hl
  exact locate_eq_ok_iff.2 ⟨hn, hs, h.here ▸ h.follow hf⟩

theorem isDirectory_iff :
    t.isDirectory n = true ↔ ∃ p, t.locate n = .ok p ∧ t.node? p = some .directory := by
  unfold isDirectory
  split <;> simp_all

theorem KeepsDirectories.isDirectory (h : KeepsDirectories t t') (hd : t.isDirectory n = true) :
    t'.isDirectory n = true := by
  obtain ⟨p, hl, hp⟩ := isDirectory_iff.1 hd
  exact isDirectory_iff.2 ⟨p, h.locate hl, h.directory p hp⟩

/-- A file that is written anew keeps the directories. -/
theorem keepsDirectories_set_file (hp : t.node? p ≠ some .directory) (data : List UInt8) :
    KeepsDirectories t (t.set p (.file data)) := by
  refine ⟨rfl, fun q hq => ?_⟩
  have hne : q ≠ p := fun h => hp (h ▸ hq)
  rw [node?_set_of_ne t _ hne, hq]

/-! ### Growing -/

/-- The second tree is the first one with more directories, each where nothing was and where a
name leads that leads to a given one. -/
structure GrownTo (n : Name) (t t' : Tree) : Prop where
  here : t'.here = t.here
  breaks : t'.breaks = t.breaks
  kept : ∀ p node, t.node? p = some node → t'.node? p = some node
  made : ∀ p, t.node? p = none → t'.node? p = none ∨
    t'.node? p = some .directory ∧ ∃ m : Name, m.Leads n ∧ t'.locate m = .ok p

theorem GrownTo.keepsDirectories (h : GrownTo n t t') : KeepsDirectories t t' :=
  ⟨h.here, fun p => h.kept p .directory⟩

theorem grownTo_self (n : Name) (t : Tree) : GrownTo n t t :=
  ⟨rfl, rfl, fun _ _ h => h, fun _ h => .inl h⟩

theorem GrownTo.trans (h : GrownTo n t t') (h' : GrownTo n t' t'') : GrownTo n t t'' := by
  refine ⟨h'.here.trans h.here, h'.breaks.trans h.breaks,
    fun p node hp => h'.kept p node (h.kept p node hp), fun p hp => ?_⟩
  obtain hp | ⟨hp, m, hm, hl⟩ := h.made p hp
  · exact h'.made p hp
  · exact .inr ⟨h'.kept p _ hp, m, hm, h'.keepsDirectories.locate hl⟩

theorem GrownTo.of_parent (h : GrownTo n.parent t t') : GrownTo n t t' :=
  ⟨h.here, h.breaks, h.kept, fun p hp => (h.made p hp).imp_right fun ⟨hd, m, hm, hl⟩ =>
    ⟨hd, m, Name.leads_of_parent hm, hl⟩⟩

theorem makeDirectory_eq_ok_iff : t.makeDirectory n = .ok t' ↔
    ∃ p, t.locate n = .ok p ∧ t.node? p = none ∧ t' = t.set p .directory := by
  unfold makeDirectory
  cases t.locate n with
  | error f => simp [bind, Except.bind]
  | ok p => cases hp : t.node? p <;> simp [bind, Except.bind, pure, Except.pure, hp, eq_comm]

theorem grownTo_of_makeDirectory (h : t.makeDirectory n = .ok t') : GrownTo n t t' := by
  obtain ⟨p, hl, hp, rfl⟩ := makeDirectory_eq_ok_iff.1 h
  have keeps : KeepsDirectories t (t.set p .directory) := by
    refine ⟨rfl, fun q hq => ?_⟩
    rw [node?_set, hq, ite_self]
  refine ⟨rfl, rfl, fun q node hq => ?_, fun q hq => ?_⟩
  · have hne : q ≠ p := by rintro rfl; simp [hp] at hq
    rw [node?_set_of_ne t _ hne, hq]
  · by_cases hqp : q = p
    · subst hqp
      exact .inr ⟨node?_set_self .., n, n.leads_self, keeps.locate hl⟩
    · exact .inl (by rw [node?_set_of_ne t _ hqp, hq])

theorem whole_of_locate {f : Fault} (h : t.locate n = .error f) : f.Whole := by
  rintro reason rfl
  simpa using fault_of_locate h

theorem whole_of_makeDirectory {f : Fault} (h : t.makeDirectory n = .error f) : f.Whole := by
  unfold makeDirectory at h
  cases hl : t.locate n with
  | error e =>
    simp only [hl, bind, Except.bind, Except.error.injEq] at h
    exact h ▸ whole_of_locate hl
  | ok p =>
    simp only [hl, bind, Except.bind] at h
    split at h
    · cases h
    · cases h
      simp [Fault.Whole]

/-- What is certain of an attempt to make a directory: the tree has grown towards it, and when
no fault is reported the directory is there. -/
structure Made (n : Name) (t : Tree) (attempt : Outcome) : Prop where
  grown : GrownTo n t attempt.2
  isDirectory : attempt.1 = none → attempt.2.isDirectory n = true
  whole : ∀ f ∈ attempt.1, f.Whole

theorem made_failed (h : GrownTo n t t') {f : Fault} (hf : f.Whole) : Made n t (some f, t') :=
  ⟨h, fun hf => (nomatch hf), fun _ h => Option.some.inj h ▸ hf⟩

theorem Made.after {attempt : Outcome} (h : GrownTo n t t') (hm : Made n t' attempt) :
    Made n t attempt :=
  ⟨h.trans hm.grown, hm.isDirectory, hm.whole⟩

theorem made_of_makeDirectory (h : t.makeDirectory n = .ok t') : Made n t (none, t') := by
  have grown := grownTo_of_makeDirectory h
  obtain ⟨p, hl, _, rfl⟩ := makeDirectory_eq_ok_iff.1 h
  refine ⟨grown, fun _ => ?_, fun _ h => nomatch h⟩
  exact isDirectory_iff.2 ⟨p, grown.keepsDirectories.locate hl, node?_set_self ..⟩

theorem made_unlessDirectory (t : Tree) (n : Name) {f : Fault} (hf : f.Whole) :
    Made n t (t.unlessDirectory n f) := by
  unfold unlessDirectory
  split
  · next h =>
    rw [Bool.and_eq_true] at h
    exact ⟨grownTo_self n t, fun _ => h.2, fun _ h => nomatch h⟩
  · exact made_failed (grownTo_self n t) hf

/-- Directories may have been made on the way to a name, and nothing else has happened. -/
theorem made_makeDirectories (t : Tree) (fuel : Nat) (n : Name) :
    Made n t (t.makeDirectories fuel n) := by
  have missing : Fault.notFound.Whole := by simp [Fault.Whole]
  induction fuel generalizing t n with
  | zero => exact made_failed (grownTo_self n t) missing
  | succ fuel ih =>
    unfold makeDirectories
    split
    · next h => exact made_of_makeDirectory h
    · split
      · exact made_failed (grownTo_self n t) missing
      · -- the directories above are made first, and then this one is tried again
        have above := ih t n.parent
        have grown := above.grown.of_parent
        split
        · next f _ h => rw [h] at above grown; exact made_failed grown (above.whole f rfl)
        · next h =>
          rw [h] at grown
          split
          · next h => exact .after grown (made_of_makeDirectory h)
          · exact made_failed grown missing
          · next h => exact .after grown (made_unlessDirectory _ n (whole_of_makeDirectory h))
    · next h => exact made_unlessDirectory t n (whole_of_makeDirectory h)

theorem made_ensureDirectory (t : Tree) (n : Name) : Made n t (t.ensureDirectory n) :=
  made_makeDirectories t _ n

end Tree

end ShellCompletion.Files
