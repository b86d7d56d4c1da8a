import ShellCompletion.Text.Rest

/-! Runs at the front of a list, most often of the characters of a text. A run is all that stands
before the first element which fails a test. -/
namespace ShellCompletion.Text

section

variable {α : Type} {p : α → Bool} {s t : List α}

/-- The list does not begin with an element that satisfies the test. -/
def Stops (p : α → Bool) (s : List α) : Prop := ∀ c ∈ s.head?, p c = false

@[simp] theorem stops_nil : Stops p [] := by simp [Stops]

@[simp] theorem stops_cons {c : α} : Stops p (c :: s) ↔ p c = false := by simp [Stops]

theorem Stops.append (hs : Stops p s) (ht : s = [] → Stops p t) : Stops p (s ++ t) := by
  cases s with
  | nil => exact ht rfl
  | cons c s => exact stops_cons.2 (stops_cons.1 hs)

theorem Stops.mono {q : α → Bool} (h : Stops p s) (hpq : ∀ c, p c = false → q c = false) :
    Stops q s :=
  fun c hc => hpq c (h c hc)

theorem takeWhile_of_stops (h : Stops p s) : s.takeWhile p = [] := by
  cases s with
  | nil => rfl
  | cons c s => rw [List.takeWhile_cons_of_neg (by simp [stops_cons.1 h])]

theorem takeWhile_run (hs : ∀ c ∈ s, p c = true) (ht : Stops p t) : (s ++ t).takeWhile p = s := by
  rw [List.takeWhile_append_of_pos hs, takeWhile_of_stops ht, List.append_nil]

theorem dropWhile_run (hs : ∀ c ∈ s, p c = true) (ht : Stops p t) : (s ++ t).dropWhile p = t := by
  rw [List.dropWhile_append_of_pos hs]
  cases t with
  | nil => rfl
  | cons c t => rw [List.dropWhile_cons_of_neg (by simp [stops_cons.1 ht])]

/-- Every list is a run and what stops it. -/
theorem exists_run (p : α → Bool) (s : List α) :
    ∃ a b, s = a ++ b ∧ (∀ c ∈ a, p c = true) ∧ Stops p b := by
  refine ⟨s.takeWhile p, s.dropWhile p, List.takeWhile_append_dropWhile.symm,
    List.all_eq_true.1 List.all_takeWhile, fun c hc => ?_⟩
  have h := List.head?_dropWhile_not p s
  rw [Option.mem_def.1 hc] at h
  exact h

end

variable {s t : List Char}

theorem Rest.drop_run (o : Nat) {n : Nat} (hn : s.length = n) :
    (⟨o, s ++ t⟩ : Rest).drop n = ⟨o + n, t⟩ := by
  simp [Rest.drop, ← hn]

theorem Rest.skip_run {p : Char → Bool} (o : Nat) (hs : ∀ c ∈ s, p c = true) (ht : Stops p t) :
    (⟨o, s ++ t⟩ : Rest).skip p = ⟨o + s.length, t⟩ := by
  rw [Rest.skip, takeWhile_run hs ht, Rest.drop_run o rfl]

end ShellCompletion.Text
