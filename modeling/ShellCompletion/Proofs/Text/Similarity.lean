import Mathlib.Algebra.Order.Group.Multiset
import ShellCompletion.Proofs.Text.Runs

/-! The matched characters of two texts. Every run that is taken stands in both texts, and what
is matched later stands before it in both or after it in both, so the matched characters are
among those that the texts share wherever they stand. The main statement says that the two bounds
of the similarity are bounds: trying them first changes no answer to whether a word is close. -/
namespace ShellCompletion.Text

/-! ### Characters that texts share -/

theorem shared_eq_card (a b : List Char) :
    shared a b = ((a : Multiset Char) ∩ (b : Multiset Char)).card := by
  induction a generalizing b with
  | nil => simp [shared]
  | cons c a ih =>
    rw [shared, ← Multiset.cons_coe]
    split
    · next h =>
      have hm : c ∈ (b : Multiset Char) := by simpa using h
      rw [Multiset.cons_inter_of_pos _ hm, Multiset.card_cons, Multiset.coe_erase, ih]
    · next h =>
      have hm : c ∉ (b : Multiset Char) := by simpa using h
      rw [Multiset.cons_inter_of_neg _ hm, ih]

/-- A run, with what the texts share before it and what they share after it, is shared. -/
theorem shared_run_le (before front run after back : List Char) :
    run.length + shared before front + shared after back ≤
      shared (before ++ run ++ after) (front ++ run ++ back) := by
  simp only [shared_eq_card, ← Multiset.coe_add, ← Multiset.coe_card run, ← Multiset.card_add]
  refine Multiset.card_le_card (Multiset.le_inter ?_ ?_)
  · rw [add_comm (before : Multiset Char)]
    gcongr <;> exact Multiset.inter_le_left
  · rw [add_comm (front : Multiset Char)]
    gcongr <;> exact Multiset.inter_le_right

theorem matchedFrom_le_shared (usual : Char → Bool) (fuel : Nat) (a b : List Char) :
    matchedFrom usual fuel a b ≤ shared a b := by
  induction fuel generalizing a b with
  | zero => exact Nat.zero_le _
  | succ fuel ih =>
    simp only [matchedFrom]
    split
    · exact Nat.zero_le _
    · obtain ⟨before, front, run, after, back, rfl, rfl, hl, hr, hs, _⟩ :=
        (longestRun_isBlock usual a b).fits
      obtain ⟨hbt, hbd⟩ := take_drop_run before run after
      obtain ⟨hft, hfd⟩ := take_drop_run front run back
      rw [← hl, ← hr, ← hs, hbt, hbd, hft, hfd]
      have hi := ih before front
      have hj := ih after back
      have hg := shared_run_le before front run after back
      omega

theorem shared_le (a b : List Char) : shared a b ≤ min a.length b.length := by
  rw [shared_eq_card]
  exact le_min (Multiset.card_le_card Multiset.inter_le_left)
    (Multiset.card_le_card Multiset.inter_le_right)

/-! ### The bounds -/

/-- More matched characters make texts no less close. -/
theorem Similarity.close_ofMatched_mono {k l : Nat} (h : k ≤ l) {a b : List Char}
    (hc : (Similarity.ofMatched k a b).close = true) :
    (Similarity.ofMatched l a b).close = true := by
  unfold ofMatched at hc ⊢
  split at hc
  · next hn => rw [if_pos hn, hc]
  · next hn =>
    rw [if_neg hn]
    simp only [close, decide_eq_true_eq] at hc ⊢
    omega

/-- The bounds that are tried first change no answer. -/
theorem isClose_eq_close (known text : List Char) :
    isClose known text = (similarity known text).close := by
  have hm : matched known text ≤ shared known text := matchedFrom_le_shared ..
  rw [isClose, Bool.and_assoc]
  cases hc : (similarity known text).close with
  | false => simp
  | true =>
    have hs : (sharedBound known text).close = true := Similarity.close_ofMatched_mono hm hc
    have hl : (lengthBound known text).close = true :=
      Similarity.close_ofMatched_mono (shared_le known text) hs
    simp [hs, hl]

end ShellCompletion.Text
