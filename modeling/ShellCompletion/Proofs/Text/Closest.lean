import Mathlib.Algebra.Order.Field.Rat
import Mathlib.Data.Prod.Lex
import Mathlib.Data.String.Basic
import Mathlib.Tactic.Linarith
import ShellCompletion.Proofs.Text.Matching
import ShellCompletion.Proofs.Text.Similarity

/-! The closest of several known words. Words are ranked by their similarity to a text, and
equally similar ones by themselves. The main statements say that the closest word is the one of
the highest rank among the known words, if its similarity is at least six tenths, and that there
is none just when all known words are less similar. So neither the order of the known words nor
their repetition counts. -/
namespace ShellCompletion.Text

/-- The share of matched characters. -/
def Similarity.value (r : Similarity) : ℚ := r.part / r.whole

/-- How alike a known word and a text are. -/
def ratio (text w : String) : ℚ := (similarity w.toList text.toList).value

/-- How alike two texts are is told by their matched characters alone. -/
theorem ratio_eq_of_matching (text w : String) :
    ∃ n, (∀ k, Matching (tooUsual text.toList) w.toList text.toList k ↔ k = n) ∧
      ratio text w = (Similarity.ofMatched n w.toList text.toList).value :=
  ⟨matched w.toList text.toList, fun _ => matching_iff.trans eq_comm, rfl⟩

/-- What known words are ranked by: first how alike the text they are, then themselves. -/
def rank (text w : String) : ℚ ×ₗ String := toLex (ratio text w, w)

theorem similarity_whole_pos (a b : List Char) : (0 : ℚ) < (similarity a b).whole := by
  rw [similarity, Similarity.ofMatched]
  split
  · simp
  · next h => exact_mod_cast Nat.pos_of_ne_zero h

theorem similarity_le_iff (a b c d : List Char) :
    (similarity a b).le (similarity c d) = true ↔
      (similarity a b).value ≤ (similarity c d).value := by
  rw [Similarity.value, Similarity.value,
    div_le_div_iff₀ (similarity_whole_pos a b) (similarity_whole_pos c d), Similarity.le,
    decide_eq_true_eq]
  norm_cast

theorem isClose_iff (text w : String) :
    isClose w.toList text.toList = true ↔ 3 / 5 ≤ ratio text w := by
  have hw := similarity_whole_pos w.toList text.toList
  have hc (p q : ℕ) : 6 * q ≤ 10 * p ↔ 3 / 5 * (q : ℚ) ≤ p := by
    rw [← @Nat.cast_le ℚ]
    push_cast
    constructor <;> intro h <;> linarith
  rw [isClose_eq_close, ratio, Similarity.value, Similarity.close, decide_eq_true_eq,
    le_div_iff₀ hw, hc]

theorem rank_injective (text : String) : Function.Injective (rank text) := fun _ _ h =>
  congrArg (fun r => (ofLex r).2) h

/-- The better of two words is the one of the higher rank. -/
theorem betterOf_eq (text v w : String) :
    betterOf text v w = if rank text v < rank text w then w else v := by
  have hvw : (similarity v.toList text.toList).le (similarity w.toList text.toList) = true ↔
      ratio text v ≤ ratio text w := similarity_le_iff ..
  have hwv : (similarity w.toList text.toList).le (similarity v.toList text.toList) = true ↔
      ratio text w ≤ ratio text v := similarity_le_iff ..
  have hr : rank text v < rank text w ↔
      ratio text v < ratio text w ∨ ratio text v = ratio text w ∧ v < w := Prod.Lex.toLex_lt_toLex
  simp only [betterOf, Bool.not_eq_true', Bool.eq_false_iff, ne_eq, hvw, hwv, hr, not_le]
  rcases lt_trichotomy (ratio text v) (ratio text w) with h | h | h
  · rw [if_pos h, if_pos (.inl h)]
  · simp [h]
  · have hn : ¬(ratio text v < ratio text w ∨ ratio text v = ratio text w ∧ v < w) := by
      rintro (hl | ⟨he, _⟩)
      · exact lt_asymm h hl
      · exact h.ne' he
    rw [if_neg h.not_gt, if_pos h, if_neg hn]

theorem rank_betterOf (text v w : String) :
    rank text (betterOf text v w) = max (rank text v) (rank text w) := by
  rw [betterOf_eq]
  split
  · next h => rw [max_eq_right h.le]
  · next h => rw [max_eq_left (not_lt.1 h)]

theorem foldl_betterOf (text w : String) (ws : List String) :
    ws.foldl (betterOf text) w ∈ w :: ws ∧
      ∀ v ∈ w :: ws, rank text v ≤ rank text (ws.foldl (betterOf text) w) := by
  induction ws generalizing w with
  | nil => simp
  | cons u ws ih =>
    obtain ⟨hm, hr⟩ := ih (betterOf text w u)
    have hb : betterOf text w u = u ∨ betterOf text w u = w := by
      rw [betterOf_eq]
      split <;> simp
    have hl : max (rank text w) (rank text u) ≤ rank text ((u :: ws).foldl (betterOf text) w) :=
      rank_betterOf text w u ▸ hr _ List.mem_cons_self
    refine ⟨?_, fun v hv => ?_⟩
    · rw [List.foldl_cons, List.mem_cons, List.mem_cons]
      rcases List.mem_cons.1 hm with h | h
      · rw [h]
        rcases hb with hb | hb
        · exact .inr (.inl hb)
        · exact .inl hb
      · exact .inr (.inr h)
    · rcases List.mem_cons.1 hv with rfl | hv
      · exact (le_max_left _ _).trans hl
      rcases List.mem_cons.1 hv with rfl | hv
      · exact (le_max_right _ _).trans hl
      · exact hr v (List.mem_cons_of_mem _ hv)

theorem closest_eq_none_iff {text : String} {known : List String} :
    closest text known = none ↔ ∀ w ∈ known, ratio text w < 3 / 5 := by
  have hf : closest text known = none ↔
      known.filter (fun w => isClose w.toList text.toList) = [] := by
    rw [closest]
    cases known.filter fun w => isClose w.toList text.toList <;> simp
  rw [hf, List.filter_eq_nil_iff]
  simp only [isClose_iff, not_le]

theorem highest_of_closest {text w : String} {known : List String}
    (h : closest text known = some w) :
    w ∈ known ∧ 3 / 5 ≤ ratio text w ∧ ∀ v ∈ known, rank text v ≤ rank text w := by
  have hm (v : String) : v ∈ known.filter (fun w => isClose w.toList text.toList) ↔
      v ∈ known ∧ 3 / 5 ≤ ratio text v := by
    rw [List.mem_filter, isClose_iff]
  rw [closest] at h
  cases hk : known.filter fun w => isClose w.toList text.toList with
  | nil => simp [hk] at h
  | cons u us =>
    obtain ⟨hu, hr⟩ := foldl_betterOf text u us
    simp only [hk, Option.some.injEq] at h hm
    rw [h] at hu hr
    obtain ⟨hw, hs⟩ := (hm w).1 hu
    refine ⟨hw, hs, fun v hv => ?_⟩
    by_cases hvs : 3 / 5 ≤ ratio text v
    · exact hr v ((hm v).2 ⟨hv, hvs⟩)
    · exact Prod.Lex.toLex_le_toLex.2 (.inl ((not_le.1 hvs).trans_le hs))

/-- The closest word is the known word of the highest rank, if it is alike enough. -/
theorem closest_eq_some_iff {text w : String} {known : List String} :
    closest text known = some w ↔
      w ∈ known ∧ 3 / 5 ≤ ratio text w ∧ ∀ v ∈ known, rank text v ≤ rank text w := by
  refine ⟨highest_of_closest, fun ⟨hw, hs, hr⟩ => ?_⟩
  cases hn : closest text known with
  | none => exact absurd (closest_eq_none_iff.1 hn w hw) (not_lt.2 hs)
  | some v =>
    -- no two words have one rank
    obtain ⟨hv, _, hmax⟩ := highest_of_closest hn
    rw [rank_injective text ((hr v hv).antisymm (hmax w hw))]

/-- A word is closest by its own rank, whatever other listing the known words have. -/
theorem closest_eq_of_mem_iff {known listed : List String} (h : ∀ w, w ∈ listed ↔ w ∈ known)
    (text : String) : closest text listed = closest text known := by
  cases hc : closest text known with
  | none =>
    rw [closest_eq_none_iff] at hc ⊢
    exact fun w hw => hc w ((h w).1 hw)
  | some w =>
    obtain ⟨hw, hs, hr⟩ := closest_eq_some_iff.1 hc
    exact closest_eq_some_iff.2 ⟨(h w).2 hw, hs, fun v hv => hr v ((h v).1 hv)⟩

/-- What the closest of the known words is: the one of the highest rank, if it is alike enough,
and none if none is. -/
def IsClosest (text : String) (known : List String) : Option String → Prop
  | some w => w ∈ known ∧ 3 / 5 ≤ ratio text w ∧ ∀ v ∈ known, rank text v ≤ rank text w
  | none => ∀ w ∈ known, ratio text w < 3 / 5

theorem isClosest_closest (text : String) (known : List String) :
    IsClosest text known (closest text known) := by
  cases h : closest text known with
  | none => exact closest_eq_none_iff.1 h
  | some w => exact closest_eq_some_iff.1 h

end ShellCompletion.Text
