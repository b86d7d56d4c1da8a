import ShellCompletion.Proofs.Text.Runs

/-! Matched characters as a relation. Two texts are matched along the first of their longest runs,
made longer as far as they agree, and then before it and after it, until no run is left. The main
statement says that the number of matched characters is the one of this relation: the bound on the
depth of the recursion is never met. -/
namespace ShellCompletion.Text

/-- The texts have a number of matched characters. -/
inductive Matching (usual : Char → Bool) : List Char → List Char → Nat → Prop
  | none {a b : List Char} {m : CommonRun} (block : m.IsBlock usual a b) (none : m.size = 0) :
      Matching usual a b 0
  | run {before front run after back : List Char} {k l : Nat}
      (block : CommonRun.IsBlock usual ⟨before.length, front.length, run.length⟩
        (before ++ run ++ after) (front ++ run ++ back)) (some : 0 < run.length)
      (left : Matching usual before front k) (right : Matching usual after back l) :
      Matching usual (before ++ run ++ after) (front ++ run ++ back) (run.length + k + l)

variable {usual : Char → Bool} {a b : List Char}

theorem matching_matchedFrom {fuel : Nat} (h : a.length < fuel) :
    Matching usual a b (matchedFrom usual fuel a b) := by
  induction fuel generalizing a b with
  | zero => exact absurd h (Nat.not_lt_zero _)
  | succ fuel ih =>
    have hm := longestRun_isBlock usual a b
    simp only [matchedFrom]
    split
    · next hs => exact .none hm hs
    · next hs =>
      obtain ⟨before, front, run, after, back, rfl, rfl, hl, hr, hn, _⟩ := hm.fits
      obtain ⟨hbt, hbd⟩ := take_drop_run before run after
      obtain ⟨hft, hfd⟩ := take_drop_run front run back
      have hp : longestRun usual (before ++ run ++ after) (front ++ run ++ back) =
          ⟨before.length, front.length, run.length⟩ := by
        rw [hl, hr, hn]
      rw [hp] at hm hs
      have hs : 0 < run.length := Nat.pos_of_ne_zero hs
      simp only [List.length_append] at h
      rw [hp, hbt, hbd, hft, hfd]
      exact .run hm hs (ih (by omega)) (ih (by omega))

theorem matchedFrom_eq {n : Nat} (h : Matching usual a b n) {fuel : Nat} (hf : a.length < fuel) :
    matchedFrom usual fuel a b = n := by
  induction h generalizing fuel with
  | none block none =>
    obtain ⟨fuel, rfl⟩ := Nat.exists_eq_succ_of_ne_zero (Nat.ne_zero_of_lt hf)
    rw [matchedFrom, (longestRun_isBlock usual _ _).unique block, if_pos none]
  | @run before front run after back k l block some left right ihl ihr =>
    obtain ⟨fuel, rfl⟩ := Nat.exists_eq_succ_of_ne_zero (Nat.ne_zero_of_lt hf)
    obtain ⟨hbt, hbd⟩ := take_drop_run before run after
    obtain ⟨hft, hfd⟩ := take_drop_run front run back
    simp only [List.length_append] at hf
    rw [matchedFrom, (longestRun_isBlock usual _ _).unique block, if_neg (Nat.ne_of_gt some)]
    dsimp only
    rw [hbt, hbd, hft, hfd, ihl (by omega), ihr (by omega)]

/-- The number of matched characters is the only one of the relation. -/
theorem matching_iff {n : Nat} : Matching (tooUsual b) a b n ↔ matched a b = n := by
  constructor
  · intro h
    exact matchedFrom_eq h (Nat.lt_succ_self _)
  · rintro rfl
    exact matching_matchedFrom (Nat.lt_succ_self _)

end ShellCompletion.Text
