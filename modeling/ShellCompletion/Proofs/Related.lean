import Mathlib.Data.List.Forall2

/-! Options and lists whose parts are related one by one. What can not tell related parts
apart can not tell the wholes apart. -/
namespace ShellCompletion

theorem map_eq_of_rel {α β : Type} {R : α → α → Prop} {f : α → β} {a b : Option α}
    (h : Option.Rel R a b) (hf : ∀ x y, R x y → f x = f y) : a.map f = b.map f := by
  cases h with
  | none => rfl
  | some h => exact congrArg some (hf _ _ h)

theorem map_eq_of_forall₂ {α β : Type} {R : α → α → Prop} {f : α → β} {xs ys : List α}
    (h : List.Forall₂ R xs ys) (hf : ∀ x y, R x y → f x = f y) : xs.map f = ys.map f := by
  induction h with
  | nil => rfl
  | cons h _ ih => rw [List.map_cons, List.map_cons, hf _ _ h, ih]

theorem map_mapIdx_eq_of_forall₂ {α β γ : Type} {R : α → α → Prop} {f : Nat → α → β} {u v : β → γ}
    {xs ys : List α} (h : List.Forall₂ R xs ys) (hf : ∀ k x y, R x y → u (f k x) = v (f k y)) :
    (xs.mapIdx f).map u = (ys.mapIdx f).map v := by
  induction h generalizing f with
  | nil => rfl
  | cons h _ ih =>
    rw [List.mapIdx_cons, List.mapIdx_cons, List.map_cons, List.map_cons, hf 0 _ _ h,
      ih fun k => hf (k + 1)]

end ShellCompletion
