import ShellCompletion.Proofs.Files.Growth

/-! Writing a file after the directories that it is missing have been made. The main statement
says that the file then holds what was written, that every name which leads to it leads to a
directory, and that nothing else has changed but for the directories that were missing. Another
one says what is left of an attempt that fails: directories, and a beginning of the file where
the storing of its data breaks off. -/
namespace ShellCompletion.Files

theorem utf8ByteSize_intercalate_le (sep : String) {xs ys : List String} (h : xs <+: ys) :
    (sep.intercalate xs).utf8ByteSize ≤ (sep.intercalate ys).utf8ByteSize := by
  obtain ⟨rest, rfl⟩ := h
  by_cases hx : xs = []
  · simp [hx]
  by_cases hr : rest = []
  · simp [hr]
  rw [String.intercalate_append_of_ne_nil hx hr, String.utf8ByteSize_append,
    String.utf8ByteSize_append]
  omega

namespace Name

variable {m n : Name}

theorem Leads.isAbsolute_eq (h : m.Leads n) : m.isAbsolute = n.isAbsolute := by
  rw [isAbsolute, isAbsolute, h.root]

theorem Leads.hasNul_eq_false (h : m.Leads n) (hn : n.hasNul = false) : m.hasNul = false := by
  obtain ⟨rest, hr⟩ := h.parts
  simp only [hasNul, ← hr, List.any_append, Bool.or_eq_false_iff] at hn ⊢
  exact hn.1

/-- The name of a directory on the way to a file is not longer than that of the file. -/
theorem Leads.utf8ByteSize_text_le (h : m.Leads n) :
    m.text.utf8ByteSize ≤ n.text.utf8ByteSize := by
  have hp := utf8ByteSize_intercalate_le "/" h.parts
  have hs : (m.root ++ "/".intercalate m.parts).utf8ByteSize ≤
      (n.root ++ "/".intercalate n.parts).utf8ByteSize := by
    rw [String.utf8ByteSize_append, String.utf8ByteSize_append, h.root]
    omega
  have one : ".".utf8ByteSize = 1 := by decide
  simp only [text, String.isEmpty_iff_utf8ByteSize_eq_zero]
  split <;> split <;> omega

end Name

namespace Tree

variable {t t' t'' : Tree} {n m : Name} {p q : Place}

theorem follow_append {xs ys : List String} (hf : t.follow p (xs ++ ys) = .ok q) :
    ∃ r, t.follow p xs = .ok r ∧ t.follow r ys = .ok q := by
  induction xs generalizing p with
  | nil => exact ⟨p, rfl, hf⟩
  | cons x xs ih =>
    obtain ⟨hp, hs, hf⟩ := follow_cons_eq_ok_iff.1 hf
    obtain ⟨r, hr, hq⟩ := ih hf
    exact ⟨r, follow_cons_eq_ok_iff.2 ⟨hp, hs, hr⟩, hq⟩

/-- A name leads to a directory only if every name that leads to it does. -/
theorem isDirectory_of_leads (h : m.Leads n) (hd : t.isDirectory n = true) :
    t.isDirectory m = true := by
  obtain ⟨q, hl, hq⟩ := isDirectory_iff.1 hd
  obtain ⟨hn, hs, hf⟩ := locate_eq_ok_iff.1 hl
  obtain ⟨rest, hr⟩ := h.parts
  rw [← hr] at hf
  obtain ⟨p, hp, hrest⟩ := follow_append hf
  refine isDirectory_iff.2 ⟨p, locate_eq_ok_iff.2 ⟨h.hasNul_eq_false hn,
    Nat.le_trans h.utf8ByteSize_text_le hs, by rw [h.isAbsolute_eq]; exact hp⟩, ?_⟩
  cases rest with
  | nil => cases hrest; exact hq
  | cons y ys => exact (follow_cons_eq_ok_iff.1 hrest).1

/-- What is certain when a file has been written and its directories have been made. -/
structure Written (n : Name) (data : List UInt8) (t t' : Tree) : Prop where
  content : t'.read n = .ok data
  directories : ∀ m : Name, m.Leads n.parent → t'.isDirectory m = true
  keeps : KeepsDirectories t t'
  elsewhere : ∀ q, t'.locate n ≠ .ok q → t'.node? q = t.node? q ∨
    t.node? q = none ∧ t'.node? q = some .directory ∧
      ∃ m : Name, m.Leads n.parent ∧ t'.locate m = .ok q

theorem read_eq_ok {data : List UInt8} (hl : t.locate n = .ok p)
    (hp : t.node? p = some (.file data)) : t.read n = .ok data := by
  simp [read, hl, bind, Except.bind, hp, pure, Except.pure]

/-- What an attempt to write a file comes to: it is not opened and nothing changes, or it holds
all of the data, or a beginning of the data where writing breaks off. -/
inductive Writes (n : Name) (data : List UInt8) (t : Tree) : Outcome → Prop
  | unopened {f : Fault} (whole : f.Whole) : Writes n data t (some f, t)
  | stored {p : Place} (named : t.locate n = .ok p) (file : t.node? p ≠ some .directory)
      (whole : t.breaks.lookup p = none) : Writes n data t (none, t.set p (.file data))
  | cut {p : Place} {b : Break} (named : t.locate n = .ok p) (file : t.node? p ≠ some .directory)
      (breaks : t.breaks.lookup p = some b) :
      Writes n data t (some (.broken b.reason), t.set p (.file (data.take b.stored)))

theorem writes_write (t : Tree) (n : Name) (data : List UInt8) :
    Writes n data t (t.write n data) := by
  unfold write
  cases hl : t.locate n with
  | error f => exact .unopened (whole_of_locate hl)
  | ok p =>
    simp only
    split
    · exact .unopened (by simp [Fault.Whole])
    · next whole file => exact .stored hl file whole
    · next b breaks file => exact .cut hl file breaks

theorem written_of_write {data : List UInt8} (hm : Made n.parent t (none, t'))
    (hw : t'.write n data = (none, t'')) : Written n data t t'' := by
  have writes := t'.writes_write n data
  rw [hw] at writes
  cases writes with
  | @stored p hl hp _ =>
    have keeps := keepsDirectories_set_file hp data
    have hl := keeps.locate hl
    refine ⟨read_eq_ok hl (node?_set_self ..), fun m h => ?_, ?_, fun q hq => ?_⟩
    · exact keeps.isDirectory (isDirectory_of_leads h (hm.isDirectory rfl))
    · exact ⟨keeps.here.trans hm.grown.here, fun r hr => keeps.directory r (hm.grown.kept r _ hr)⟩
    · have hne : q ≠ p := fun h => hq (h ▸ hl)
      rw [node?_set_of_ne t' _ hne]
      cases h : t.node? q with
      | some node => exact .inl (hm.grown.kept q node h)
      | none =>
        obtain h' | ⟨h', m, hm, hl⟩ := hm.grown.made q h
        · exact .inl h'
        · exact .inr ⟨rfl, h', m, hm, keeps.locate hl⟩

/-- What is left when a file could not be written: directories that were missing on the way to
it, and a beginning of its data where the storing of that broke off. -/
inductive Unwritten (n : Name) (data : List UInt8) (t : Tree) : Fault → Tree → Prop
  | unopened {f : Fault} {t' : Tree} (grown : GrownTo n.parent t t')
      (there : t.isDirectory n.parent = true → t' = t) (whole : f.Whole) : Unwritten n data t f t'
  | cut {made : Tree} {p : Place} {b : Break} (grown : GrownTo n.parent t made)
      (there : t.isDirectory n.parent = true → made = t) (named : made.locate n = .ok p)
      (file : made.node? p ≠ some .directory) (breaks : t.breaks.lookup p = some b) :
      Unwritten n data t (.broken b.reason) (made.set p (.file (data.take b.stored)))

theorem ensureDirectory_of_isDirectory (h : t.isDirectory n = true) :
    t.ensureDirectory n = (none, t) := by
  obtain ⟨p, hl, hp⟩ := isDirectory_iff.1 h
  have hm : t.makeDirectory n = .error .exists_ := by
    simp [makeDirectory, hl, bind, Except.bind, hp, throw, throwThe, MonadExceptOf.throw]
  simp [ensureDirectory, makeDirectories, hm, unlessDirectory, h]

/-- The directory of the file can not be made. -/
theorem unwritten_of_ensureDirectory {f : Fault} (data : List UInt8)
    (h : t.ensureDirectory n.parent = (some f, t')) : Unwritten n data t f t' := by
  have made := t.made_ensureDirectory n.parent
  rw [h] at made
  refine .unopened made.grown (fun there => ?_) (made.whole f rfl)
  rw [ensureDirectory_of_isDirectory there] at h
  exact (congrArg Prod.snd h).symm

/-- The directory of the file is there, but the file can not be written. -/
theorem unwritten_of_write {f : Fault} {data : List UInt8}
    (h : t.ensureDirectory n.parent = (none, t')) (hw : t'.write n data = (some f, t'')) :
    Unwritten n data t f t'' := by
  have made := t.made_ensureDirectory n.parent
  rw [h] at made
  have there (hd : t.isDirectory n.parent = true) : t' = t := by
    rw [ensureDirectory_of_isDirectory hd] at h
    exact (congrArg Prod.snd h).symm
  have writes := t'.writes_write n data
  rw [hw] at writes
  cases writes with
  | unopened whole => exact .unopened made.grown there whole
  | cut named file breaks => exact .cut made.grown there named file (made.grown.breaks ▸ breaks)

/-- What a place holds after an attempt to write a file has failed: what it held before, or a
directory that was missing, or a beginning of the file. -/
theorem Unwritten.node?_cases {f : Fault} {data : List UInt8} (h : Unwritten n data t f t')
    (q : Place) : t'.node? q = t.node? q ∨
      (t.node? q = none ∧ t'.node? q = some .directory ∧
        ∃ m : Name, m.Leads n.parent ∧ t'.locate m = .ok q) ∨
      ∃ b, t.breaks.lookup q = some b ∧ f = .broken b.reason ∧ t'.locate n = .ok q ∧
        t'.node? q = some (.file (data.take b.stored)) := by
  have old {made : Tree} (grown : GrownTo n.parent t made) : made.node? q = t.node? q ∨
      t.node? q = none ∧ made.node? q = some .directory ∧
        ∃ m : Name, m.Leads n.parent ∧ made.locate m = .ok q := by
    cases hq : t.node? q with
    | some node => exact .inl (grown.kept q node hq)
    | none => exact (grown.made q hq).imp_right fun ⟨hd, hm⟩ => ⟨rfl, hd, hm⟩
  cases h with
  | unopened grown => exact (old grown).imp_right .inl
  | @cut made p b grown _ named file breaks =>
    have keeps := keepsDirectories_set_file file (data.take b.stored)
    by_cases hq : q = p
    · subst hq
      exact .inr (.inr ⟨b, breaks, rfl, keeps.locate named, node?_set_self ..⟩)
    · rw [node?_set_of_ne made _ hq]
      refine (old grown).imp_right fun ⟨hn, hd, m, leads, hm⟩ => .inl ⟨hn, hd, m, leads, ?_⟩
      exact keeps.locate hm

end Tree

end ShellCompletion.Files
