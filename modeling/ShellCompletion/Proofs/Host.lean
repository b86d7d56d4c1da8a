import ShellCompletion.Host

/-! Hosts whose log is apart from their files. In states of a host that have some property,
notes change neither the environment nor the tree, and the property is kept; of a trace this
holds in every state. The lemmas say so for several notes in turn. -/
namespace ShellCompletion.Host

variable {σ : Type} [Host σ]

/-- The states differ at most in their logs. -/
structure SameFiles (s s' : σ) : Prop where
  environment : environment s' = environment s
  tree : tree s' = tree s

theorem SameFiles.trans {s s' s'' : σ} (h : SameFiles s s') (h' : SameFiles s' s'') :
    SameFiles s s'' :=
  ⟨h'.environment.trans h.environment, h'.tree.trans h.tree⟩

/-- What is done to a state with the property keeps the property, and notes leave files alone. -/
structure Apart (P : σ → Prop) : Prop where
  note : ∀ r s, P s → P (note r s) ∧ SameFiles s (note r s)
  setTree : ∀ t s, P s → P (setTree t s) ∧ environment (setTree t s) = environment s ∧
    tree (setTree t s) = t

variable {P : σ → Prop} {s : σ}

theorem Apart.noteAll (h : Apart P) (rs : List Log.Record) (hs : P s) :
    P (noteAll rs s) ∧ SameFiles s (Host.noteAll rs s) := by
  induction rs generalizing s with
  | nil => exact ⟨hs, rfl, rfl⟩
  | cons r rs ih =>
    obtain ⟨hr, here⟩ := h.note r s hs
    obtain ⟨hrs, rest⟩ := ih hr
    exact ⟨hrs, here.trans rest⟩

/-- The log of a trace is apart from its files. -/
theorem apart_trace : Apart fun _ : Trace => True :=
  ⟨fun _ _ _ => ⟨trivial, rfl, rfl⟩, fun _ _ _ => ⟨trivial, rfl, rfl⟩⟩

end ShellCompletion.Host
