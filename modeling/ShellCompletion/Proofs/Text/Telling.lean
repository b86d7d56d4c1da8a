/-! Writings that tell what they are writings of. A writing tells a key of its subject when a
text that begins with it fixes the key and where the writing ends: two such texts are equal
just when the keys are and the texts go on alike. Writings that tell are put together one
after another, and a list of them tells the list where what follows can not be taken for one
more. Nothing is said of what the key leaves out, which does not show in the writing. -/
namespace ShellCompletion.Text

variable {α β γ κ μ : Type} {f : α → List Char} {g : β → List Char} {k : α → κ} {l : β → μ}

def Tells (f : α → List Char) (k : α → κ) : Prop :=
  ∀ x y r s, f x ++ r = f y ++ s ↔ k x = k y ∧ r = s

/-- No text begins with a writing of the one kind and one of the other. -/
def Apart (f : α → List Char) (g : β → List Char) : Prop := ∀ x y r s, f x ++ r ≠ g y ++ s

/-- Two beginnings of which neither goes on as the other does. -/
def Differ (u v : List Char) : Prop := ¬u <+: v ∧ ¬v <+: u

instance (u v : List Char) : Decidable (Differ u v) :=
  inferInstanceAs (Decidable (¬u <+: v ∧ ¬v <+: u))

theorem Differ.append_ne {u v : List Char} (h : Differ u v) (r s : List Char) :
    u ++ r ≠ v ++ s := by
  intro he
  rcases List.prefix_or_prefix_of_prefix (List.prefix_append u r) (he ▸ List.prefix_append v s)
    with hp | hp
  · exact h.1 hp
  · exact h.2 hp

theorem append_cons_inj_of_not_mem {c : Char} {u v r s : List Char} (hu : c ∉ u) (hv : c ∉ v) :
    u ++ c :: r = v ++ c :: s ↔ u = v ∧ r = s := by
  induction u generalizing v with
  | nil =>
    cases v with
    | nil => simp
    | cons d v => simp [List.ne_of_not_mem_cons hv]
  | cons d u ih =>
    cases v with
    | nil => simp [(List.ne_of_not_mem_cons hu).symm]
    | cons e v =>
      rw [List.cons_append, List.cons_append, List.cons.injEq, List.cons.injEq, and_assoc,
        ih (List.not_mem_of_not_mem_cons hu) (List.not_mem_of_not_mem_cons hv)]

namespace Tells

theorem const (t : List Char) : Tells (fun _ : α => t) fun _ => () := by
  intro _ _ r s
  simp

theorem comp (hf : Tells f k) (t : γ → α) : Tells (fun z => f (t z)) fun z => k (t z) :=
  fun x y => hf (t x) (t y)

/-- A key may be replaced by one that tells as much. -/
theorem congr (hf : Tells f k) {k' : α → μ} (h : ∀ x y, k x = k y ↔ k' x = k' y) :
    Tells f k' := by
  intro x y r s
  rw [hf x y r s, h]

theorem append {g : α → List Char} {l : α → μ} (hf : Tells f k) (hg : Tells g l) :
    Tells (fun x => f x ++ g x) fun x => (k x, l x) := by
  intro x y r s
  rw [List.append_assoc, List.append_assoc, hf, hg, Prod.mk.injEq, and_assoc]

theorem const_append (t : List Char) (hf : Tells f k) : Tells (fun x => t ++ f x) k :=
  ((const t).append hf).congr fun x y => by simp

theorem append_const (hf : Tells f k) (t : List Char) : Tells (fun x => f x ++ t) k :=
  (hf.append (const t)).congr fun x y => by simp

/-- A text tells itself by a character after it that it does not hold. -/
theorem upTo {c : Char} (h : ∀ x, c ∉ f x) : Tells (fun x => f x ++ [c]) f := by
  intro x y r s
  simp only [List.append_assoc, List.singleton_append]
  exact append_cons_inj_of_not_mem (h x) (h y)

/-- A list of writings tells the keys in order where what follows is apart from them. -/
theorem flatMap_append {g : γ → List Char} {l : γ → μ} (hf : Tells f k) (hg : Tells g l)
    (ha : Apart f g) (xs : γ → List α) :
    Tells (fun p => (xs p).flatMap f ++ g p) fun p => ((xs p).map k, l p) := by
  intro p q r s
  rw [List.append_assoc, List.append_assoc, Prod.mk.injEq, and_assoc]
  generalize xs p = ys, xs q = zs
  induction ys generalizing zs with
  | nil =>
    cases zs with
    | nil => simpa using hg p q r s
    | cons z zs => simpa using (ha z p _ _).symm
  | cons y ys ih =>
    cases zs with
    | nil => simpa using ha y q _ _
    | cons z zs =>
      rw [List.flatMap_cons, List.flatMap_cons, List.append_assoc, List.append_assoc, hf, ih,
        List.map_cons, List.map_cons, List.cons.injEq, and_assoc]

end Tells

end ShellCompletion.Text
