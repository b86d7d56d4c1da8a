/-! Steps that change a state. What a step gives is known from what its parts give. -/
namespace ShellCompletion.Document.Yaml

variable {σ α β : Type} {m : Type → Type} [Monad m] {x : StateT σ m α} {s s' s'' : σ} {a : α} {b : β}

/-- From a state, a step gives a result and another state. -/
def Gives (x : StateT σ m α) (s : σ) (a : α) (s' : σ) : Prop := x s = pure (a, s')

theorem gives_pure (a : α) (s : σ) : Gives (pure a : StateT σ m α) s a s := rfl

theorem gives_get (s : σ) : Gives (get : StateT σ m σ) s s s := rfl

theorem gives_set (s t : σ) : Gives (set t : StateT σ m PUnit) s ⟨⟩ t := rfl

theorem gives_modify (g : σ → σ) (s : σ) : Gives (modify g : StateT σ m PUnit) s ⟨⟩ (g s) := rfl

variable [LawfulMonad m]

theorem Gives.bind {f : α → StateT σ m β} (h : Gives x s a s') (hf : Gives (f a) s' b s'') :
    Gives (x >>= f) s b s'' := by
  have run : (x >>= f) s = x s >>= fun r => f r.1 r.2 := rfl
  rw [Gives, run, h, pure_bind]
  exact hf

/-- What holds of a state and is kept by the step for each item holds after all of them. -/
theorem gives_forM {f : α → StateT σ m PUnit} {P : σ → Prop} {Q : α → σ → Prop} {xs : List α}
    (hP : P s) (step : ∀ x ∈ xs, ∀ s, P s → ∃ s', Gives (f x) s ⟨⟩ s' ∧ P s' ∧ Q x s' ∧
      ∀ y, Q y s → Q y s') :
    ∃ s', Gives (xs.forM f) s ⟨⟩ s' ∧ P s' ∧ (∀ x ∈ xs, Q x s') ∧ ∀ y, Q y s → Q y s' := by
  induction xs generalizing s with
  | nil => exact ⟨s, gives_pure _ s, hP, nofun, fun _ => id⟩
  | cons x xs ih =>
    obtain ⟨s₁, h₁, hP₁, hQ₁, keep₁⟩ := step x List.mem_cons_self s hP
    obtain ⟨s₂, h₂, hP₂, hQ₂, keep₂⟩ := ih hP₁ fun y hy => step y (List.mem_cons_of_mem x hy)
    exact ⟨s₂, h₁.bind h₂, hP₂, List.forall_mem_cons.2 ⟨keep₂ x hQ₁, hQ₂⟩,
      fun y hy => keep₂ y (keep₁ y hy)⟩

end ShellCompletion.Document.Yaml
