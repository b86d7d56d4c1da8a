import ShellCompletion.Proofs.Files.Writing

/-! Trees in which nothing is taken away: a directory stays a directory and a file stays a file,
whatever it holds later. Whatever is made, changed or written keeps a tree in this way. The main
statement says that a file that can be read once can be changed ever after. -/
namespace ShellCompletion.Files.Tree

variable {t t' t'' : Tree} {n : Name} {p : Place}

/-- Every directory of the first tree is one of the second, and every file is a file. -/
structure Keeps (t t' : Tree) : Prop extends KeepsDirectories t t' where
  file : ∀ p data, t.node? p = some (.file data) → ∃ data', t'.node? p = some (.file data')

theorem keeps_self (t : Tree) : Keeps t t := ⟨⟨rfl, fun _ h => h⟩, fun _ data h => ⟨data, h⟩⟩

theorem Keeps.trans (h : Keeps t t') (h' : Keeps t' t'') : Keeps t t'' := by
  refine ⟨⟨h'.here.trans h.here, fun p hp => h'.directory p (h.directory p hp)⟩, ?_⟩
  intro p data hp
  obtain ⟨data', hp'⟩ := h.file p data hp
  exact h'.file p data' hp'

theorem keeps_set_file (hp : t.node? p ≠ some .directory) (data : List UInt8) :
    Keeps t (t.set p (.file data)) := by
  refine ⟨keepsDirectories_set_file hp data, fun q old hq => ?_⟩
  rw [node?_set]
  split
  · exact ⟨data, rfl⟩
  · exact ⟨old, hq⟩

theorem GrownTo.keeps (h : GrownTo n t t') : Keeps t t' :=
  ⟨h.keepsDirectories, fun p data hp => ⟨data, h.kept p _ hp⟩⟩

theorem Writes.keeps {data : List UInt8} {attempt : Outcome} (h : Writes n data t attempt) :
    Keeps t attempt.2 := by
  cases h with
  | unopened => exact keeps_self t
  | stored _ file => exact keeps_set_file file data
  | cut _ file => exact keeps_set_file file _

/-! ### Changing a file -/

theorem read_eq_ok_iff {data : List UInt8} :
    t.read n = .ok data ↔ ∃ p, t.locate n = .ok p ∧ t.node? p = some (.file data) := by
  constructor
  · intro h
    unfold read at h
    cases hl : t.locate n with
    | error f => simp [hl, bind, Except.bind] at h
    | ok p =>
      refine ⟨p, rfl, ?_⟩
      simp only [hl, bind, Except.bind] at h
      split at h
      · simp [throw, throwThe, MonadExceptOf.throw] at h
      · simp [throw, throwThe, MonadExceptOf.throw] at h
      · next hp =>
        cases h
        exact hp
  · rintro ⟨p, hl, hp⟩
    exact read_eq_ok hl hp

/-- What can be read can be read in a tree that has been kept, though it may have changed. -/
theorem Keeps.exists_read (h : Keeps t t') (hr : ∃ data, t.read n = .ok data) :
    ∃ data, t'.read n = .ok data := by
  obtain ⟨data, hr⟩ := hr
  obtain ⟨p, hl, hp⟩ := read_eq_ok_iff.1 hr
  obtain ⟨data', hp'⟩ := h.file p data hp
  exact ⟨data', read_eq_ok_iff.2 ⟨p, h.locate hl, hp'⟩⟩

theorem exists_of_update {f : List UInt8 → List UInt8} (h : t.update n f = .ok t') :
    ∃ p data, t.locate n = .ok p ∧ t.node? p ≠ some .directory ∧ t' = t.set p (.file data) := by
  unfold update at h
  cases hl : t.locate n with
  | error e => simp [hl, bind, Except.bind] at h
  | ok p =>
    simp only [hl, bind, Except.bind] at h
    split at h
    · next hp =>
      cases h
      exact ⟨p, f [], rfl, by simp [hp], rfl⟩
    · simp [throw, throwThe, MonadExceptOf.throw] at h
    · next data hp =>
      cases h
      exact ⟨p, f data, rfl, by simp [hp], rfl⟩

theorem keeps_of_update {f : List UInt8 → List UInt8} (h : t.update n f = .ok t') :
    Keeps t t' := by
  obtain ⟨p, data, _, hp, rfl⟩ := exists_of_update h
  exact keeps_set_file hp data

/-- A file that has been changed can be read. -/
theorem exists_read_of_update {f : List UInt8 → List UInt8} (h : t.update n f = .ok t') :
    ∃ data, t'.read n = .ok data := by
  obtain ⟨p, data, hl, hp, rfl⟩ := exists_of_update h
  exact ⟨data, read_eq_ok ((keepsDirectories_set_file hp data).locate hl) (node?_set_self ..)⟩

/-- A file that can be read can be changed, and nothing else changes with it. -/
theorem update_of_read {data : List UInt8} (hr : t.read n = .ok data)
    (f : List UInt8 → List UInt8) :
    ∃ t', t.update n f = .ok t' ∧ t'.read n = .ok (f data) ∧
      ∀ q, t.locate n ≠ .ok q → t'.node? q = t.node? q := by
  obtain ⟨p, hl, hp⟩ := read_eq_ok_iff.1 hr
  have hd : t.node? p ≠ some .directory := by simp [hp]
  refine ⟨t.set p (.file (f data)), ?_, ?_, fun q hq => ?_⟩
  · simp [update, hl, bind, Except.bind, hp, pure, Except.pure]
  · exact read_eq_ok ((keepsDirectories_set_file hd _).locate hl) (node?_set_self ..)
  · have hne : q ≠ p := fun h => hq (h ▸ hl)
    exact node?_set_of_ne t _ hne

end ShellCompletion.Files.Tree
