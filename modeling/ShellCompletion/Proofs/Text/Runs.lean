import ShellCompletion.Text.Similarity

/-! Runs that two texts have in common. The longest one is looked for from row to row of a table
with the longest runs that end at each pair of places, and then made longer at both ends. The main
statements say that the run that is found is the first of the longest ones, and that it is made
longer as far as the texts agree. -/
namespace ShellCompletion.Text

/-! ### Runs that stand in both texts -/

/-- The run stands in both texts, at the places that it says, and has none of some characters. -/
def CommonRun.Fits (usual : Char → Bool) (m : CommonRun) (a b : List Char) : Prop :=
  ∃ before front run after back, a = before ++ run ++ after ∧ b = front ++ run ++ back ∧
    before.length = m.left ∧ front.length = m.right ∧ run.length = m.size ∧
    ∀ c ∈ run, usual c = false

/-- The last characters of two texts are the same, and none of some characters is among them. -/
def EndAlike (usual : Char → Bool) (k : Nat) (a b : List Char) : Prop :=
  ∃ run : List Char, run.length = k ∧ run <:+ a ∧ run <:+ b ∧ ∀ c ∈ run, usual c = false

variable {usual : Char → Bool} {a b : List Char}

theorem endAlike_zero (a b : List Char) : EndAlike usual 0 a b :=
  ⟨[], rfl, List.nil_suffix, List.nil_suffix, by simp⟩

theorem EndAlike.le_length {k : Nat} (h : EndAlike usual k a b) : k ≤ a.length ∧ k ≤ b.length := by
  obtain ⟨run, rfl, ha, hb, _⟩ := h
  exact ⟨ha.length_le, hb.length_le⟩

theorem endAlike_succ_concat {k : Nat} {c d : Char} :
    EndAlike usual (k + 1) (a ++ [c]) (b ++ [d]) ↔
      d = c ∧ usual d = false ∧ EndAlike usual k a b := by
  constructor
  · rintro ⟨run, hl, ha, hb, hu⟩
    have hn : run ≠ [] := List.ne_nil_of_length_eq_add_one hl
    obtain ⟨r, rfl, hra⟩ := (List.suffix_concat_iff.1 ha).resolve_left hn
    obtain ⟨s, hs, hsb⟩ := (List.suffix_concat_iff.1 hb).resolve_left hn
    obtain ⟨rfl, hd⟩ := List.append_inj' hs rfl
    cases hd
    exact ⟨rfl, hu c (by simp), r, by simpa using hl, hra, hsb, fun e he => hu e (by simp [he])⟩
  · rintro ⟨rfl, hd, run, rfl, ha, hb, hu⟩
    refine ⟨run ++ [d], by simp, List.suffix_concat_iff.2 (.inr ⟨run, rfl, ha⟩),
      List.suffix_concat_iff.2 (.inr ⟨run, rfl, hb⟩), fun e he => ?_⟩
    rcases List.mem_append.1 he with he | he
    · exact hu e he
    · rw [List.mem_singleton.1 he, hd]

/-- A run is where two beginnings of the texts end alike. -/
theorem CommonRun.fits_iff {m : CommonRun} : m.Fits usual a b ↔
    m.left + m.size ≤ a.length ∧ m.right + m.size ≤ b.length ∧
      EndAlike usual m.size (a.take (m.left + m.size)) (b.take (m.right + m.size)) := by
  obtain ⟨left, right, size⟩ := m
  constructor
  · rintro ⟨before, front, run, after, back, rfl, rfl, rfl, rfl, rfl, hu⟩
    refine ⟨by simp, by simp, run, rfl, ?_, ?_, hu⟩ <;>
      rw [← List.length_append, List.take_left] <;> exact List.suffix_append ..
  · rintro ⟨ha, hb, run, hl, ⟨before, hbefore⟩, ⟨front, hfront⟩, hu⟩
    dsimp only at ha hb hl hbefore hfront
    have hbl := congrArg List.length hbefore
    have hfl := congrArg List.length hfront
    simp only [List.length_append, List.length_take] at hbl hfl
    refine ⟨before, front, run, a.drop (left + size), b.drop (right + size), ?_, ?_, ?_, ?_, hl, hu⟩
    · rw [hbefore, List.take_append_drop]
    · rw [hfront, List.take_append_drop]
    · dsimp only; omega
    · dsimp only; omega

/-! ### The first longest run -/

/-- Each number of the row is the greatest length of a run that ends where the first text does and
at the place of the number in the second. -/
def RowFits (usual : Char → Bool) (a b : List Char) (row : List Nat) : Prop :=
  row.length = b.length ∧
    ∀ j k, row[j]? = some k → ∀ l, EndAlike usual l a (b.take (j + 1)) ↔ l ≤ k

theorem endAlike_nil_left {l : Nat} : EndAlike usual l [] b ↔ l ≤ 0 := by
  refine ⟨fun h => h.le_length.1, fun h => ?_⟩
  obtain rfl := Nat.le_zero.1 h
  exact endAlike_zero ..

theorem endAlike_nil_right {l : Nat} : EndAlike usual l a [] ↔ l ≤ 0 := by
  refine ⟨fun h => h.le_length.2, fun h => ?_⟩
  obtain rfl := Nat.le_zero.1 h
  exact endAlike_zero ..

theorem rowFits_zero (b : List Char) : RowFits usual [] b (b.map fun _ => 0) := by
  refine ⟨by simp, fun j k h l => ?_⟩
  rw [List.getElem?_map, Option.map_eq_some_iff] at h
  obtain ⟨_, _, rfl⟩ := h
  exact endAlike_nil_left

/-- One more character of the first text: the next row. -/
theorem RowFits.runRow {row : List Nat} (h : RowFits usual a b row) (c : Char) :
    RowFits usual (a ++ [c]) b (runRow usual c b row) := by
  obtain ⟨hl, h⟩ := h
  have hp (j n : Nat) (hn : (0 :: row)[j]? = some n) (l : Nat) :
      EndAlike usual l a (b.take j) ↔ l ≤ n := by
    cases j with
    | zero =>
      cases hn
      exact endAlike_nil_right
    | succ j => exact h j n hn l
  refine ⟨by simp [Text.runRow, hl], fun j k hk l => ?_⟩
  simp only [Text.runRow, List.getElem?_map, Option.map_eq_some_iff, List.getElem?_zip_eq_some] at hk
  obtain ⟨⟨d, n⟩, ⟨hd, hn⟩, rfl⟩ := hk
  obtain ⟨hj, rfl⟩ := List.getElem?_eq_some_iff.1 hd
  dsimp only at hn ⊢
  rw [List.take_succ_eq_append_getElem hj]
  cases l with
  | zero => simp [endAlike_zero]
  | succ l =>
    rw [endAlike_succ_concat, hp j n hn]
    by_cases hc : b[j] = c ∧ usual b[j] = false
    · rw [if_pos (by simpa using hc)]
      simp [hc.1, hc.1 ▸ hc.2]
    · rw [if_neg (by simpa using hc), ← and_assoc]
      simp [hc]

/-- A run is no longer than another one, and if as long, not before it. -/
def CommonRun.Yields (n m : CommonRun) : Prop :=
  n.size < m.size ∨
    n.size = m.size ∧ (m.left < n.left ∨ m.left = n.left ∧ m.right ≤ n.right)

/-- Of the runs of two texts without some characters it is the first of the longest ones. -/
def CommonRun.IsFirstLongest (usual : Char → Bool) (m : CommonRun) (a b : List Char) : Prop :=
  m.Fits usual a b ∧ ∀ n : CommonRun, n.Fits usual a b → n.Yields m

/-- The run ends in the first `i` characters of the first text, or with the next one and in the
first `j` characters of the second. -/
def CommonRun.EndsIn (m : CommonRun) (i j : Nat) : Prop :=
  m.left + m.size ≤ i ∨ m.left + m.size = i + 1 ∧ m.right + m.size ≤ j

/-- Of the runs that end so far it is the first of the longest ones. -/
structure CommonRun.IsFirstTo (usual : Char → Bool) (a b : List Char) (i j : Nat) (m : CommonRun) :
    Prop where
  fits : m.Fits usual a b
  ends : m.EndsIn i j
  yields : ∀ n : CommonRun, n.Fits usual a b → n.EndsIn i j → n.Yields m

namespace CommonRun

theorem isFirstTo_zero (a b : List Char) : IsFirstTo usual a b 0 0 ⟨0, 0, 0⟩ := by
  refine ⟨⟨[], [], [], a, b, by simp⟩, .inl (Nat.le_refl _), fun n _ hn => ?_⟩
  simp only [EndsIn, Yields] at hn ⊢
  omega

/-- All places of the second text are seen, and it is the turn of the next of the first. -/
theorem IsFirstTo.next {i : Nat} {m : CommonRun} (h : m.IsFirstTo usual a b i b.length) :
    m.IsFirstTo usual a b (i + 1) 0 := by
  obtain ⟨hf, he, hy⟩ := h
  refine ⟨hf, ?_, fun n hn hne => ?_⟩
  · simp only [EndsIn] at he ⊢
    omega
  · have hl := (fits_iff.1 hn).2.1
    by_cases hi : n.EndsIn i b.length
    · exact hy n hn hi
    · -- the run has no characters
      simp only [EndsIn, Yields] at hi hne he ⊢
      omega

/-- A run that ends in one more character of the second text may end with just this one. -/
theorem EndsIn.of_succ {i j : Nat} {m : CommonRun} (h : m.EndsIn i (j + 1)) :
    m.EndsIn i j ∨ m.left + m.size = i + 1 ∧ m.right + m.size = j + 1 := by
  simp only [EndsIn] at h ⊢
  omega

/-- The longest run that ends at one more place of the second text. -/
theorem IsFirstTo.improve {i j k : Nat} {best : CommonRun} (h : best.IsFirstTo usual a b i j)
    (hi : i < a.length) (hj : j < b.length)
    (hk : ∀ l, EndAlike usual l (a.take (i + 1)) (b.take (j + 1)) ↔ l ≤ k) :
    (if best.size < k then ⟨i + 1 - k, j + 1 - k, k⟩ else best : CommonRun).IsFirstTo usual a b i
      (j + 1) := by
  obtain ⟨hf, he, hy⟩ := h
  have hle := ((hk k).2 (Nat.le_refl _)).le_length
  simp only [List.length_take] at hle
  have hn {n : CommonRun} (hn : n.Fits usual a b) (hne : n.EndsIn i (j + 1)) :
      n.EndsIn i j ∨ n.left + n.size = i + 1 ∧ n.right + n.size = j + 1 ∧ n.size ≤ k := by
    rcases hne.of_succ with hs | ⟨hl, hr⟩
    · exact .inl hs
    · have hfn := (fits_iff.1 hn).2.2
      rw [hl, hr] at hfn
      exact .inr ⟨hl, hr, (hk n.size).1 hfn⟩
  split
  · next hb =>
    have hc : (⟨i + 1 - k, j + 1 - k, k⟩ : CommonRun).Fits usual a b := by
      refine fits_iff.2 ⟨by dsimp only; omega, by dsimp only; omega, ?_⟩
      dsimp only
      rw [Nat.sub_add_cancel (by omega), Nat.sub_add_cancel (by omega)]
      exact (hk k).2 (Nat.le_refl _)
    refine ⟨hc, ?_, fun n hfn hne => ?_⟩
    · simp only [EndsIn]
      omega
    · rcases hn hfn hne with hs | hs
      · have hy := hy n hfn hs
        simp only [Yields] at hy ⊢
        omega
      · simp only [Yields]
        omega
  · next hb =>
    refine ⟨hf, ?_, fun n hfn hne => ?_⟩
    · simp only [EndsIn] at he ⊢
      omega
    · rcases hn hfn hne with hs | hs
      · exact hy n hfn hs
      · simp only [EndsIn, Yields] at he ⊢
        omega

end CommonRun

theorem improve_isFirstTo {i j : Nat} {row : List Nat} {best : CommonRun} (hi : i < a.length)
    (hl : j + row.length = b.length)
    (hr : ∀ n k, row[n]? = some k →
      ∀ l, EndAlike usual l (a.take (i + 1)) (b.take (j + n + 1)) ↔ l ≤ k)
    (hb : best.IsFirstTo usual a b i j) :
    (improve i j row best).IsFirstTo usual a b i b.length := by
  induction row generalizing j best with
  | nil =>
    rw [List.length_nil, Nat.add_zero] at hl
    rwa [← hl]
  | cons k row ih =>
    rw [List.length_cons] at hl
    refine ih (by omega) (fun n l hn => ?_) (hb.improve hi (by omega) (hr 0 k rfl))
    rw [show j + 1 + n + 1 = j + (n + 1) + 1 by omega]
    exact hr (n + 1) l hn

theorem longestFrom_isFirstTo {rest : List Char} {row : List Nat} {best : CommonRun}
    (hr : RowFits usual a b row) (hb : best.IsFirstTo usual (a ++ rest) b a.length 0) :
    (longestFrom usual b a.length rest row best).IsFirstTo usual (a ++ rest) b (a ++ rest).length
      0 := by
  induction rest generalizing a row best with
  | nil =>
    rw [List.append_nil] at hb ⊢
    exact hb
  | cons c rest ih =>
    have hn : RowFits usual (a ++ [c]) b (Text.runRow usual c b row) := hr.runRow c
    have ha : a ++ c :: rest = a ++ [c] ++ rest := by simp
    have hl : (a ++ [c]).length = a.length + 1 := List.length_append
    have ht : (a ++ [c] ++ rest).take (a.length + 1) = a ++ [c] := List.take_left' hl
    rw [ha] at hb ⊢
    have hi : (improve a.length 0 (Text.runRow usual c b row) best).IsFirstTo usual
        (a ++ [c] ++ rest) b a.length b.length :=
      improve_isFirstTo (by simp) (by simp [hn.1]) (fun n k hk => by
        rw [ht, Nat.zero_add]
        exact hn.2 n k hk) hb
    have hf := ih hn (hl ▸ hi.next)
    rwa [hl] at hf

/-- The run that is looked up is the first of the longest ones. -/
theorem longestFrom_isFirstLongest (usual : Char → Bool) (a b : List Char) :
    (longestFrom usual b 0 a (b.map fun _ => 0) ⟨0, 0, 0⟩).IsFirstLongest usual a b := by
  have h : (longestFrom usual b 0 a (b.map fun _ => 0) ⟨0, 0, 0⟩).IsFirstTo usual a b a.length 0 :=
    longestFrom_isFirstTo (a := []) (rowFits_zero b) (CommonRun.isFirstTo_zero a b)
  exact ⟨h.fits, fun n hn => h.yields n hn (.inl (CommonRun.fits_iff.1 hn).1)⟩

/-! ### Runs made longer -/

/-- The first characters that are counted as shared are shared. -/
theorem sharedStart_spec (a b : List Char) :
    ∃ run : List Char, run.length = sharedStart a b ∧ run <+: a ∧ run <+: b := by
  induction a generalizing b with
  | nil => exact ⟨[], rfl, List.nil_prefix, List.nil_prefix⟩
  | cons c a ih =>
    cases b with
    | nil => exact ⟨[], rfl, List.nil_prefix, List.nil_prefix⟩
    | cons d b =>
      obtain ⟨run, hl, ha, hb⟩ := ih b
      rw [sharedStart]
      split
      · next h =>
        obtain rfl := beq_iff_eq.1 h
        exact ⟨c :: run, by simp [hl], List.cons_prefix_cons.2 ⟨rfl, ha⟩,
          List.cons_prefix_cons.2 ⟨rfl, hb⟩⟩
      · exact ⟨[], rfl, List.nil_prefix, List.nil_prefix⟩

theorem length_le_sharedStart {run : List Char} (ha : run <+: a) (hb : run <+: b) :
    run.length ≤ sharedStart a b := by
  induction run generalizing a b with
  | nil => exact Nat.zero_le _
  | cons c run ih =>
    obtain ⟨s, rfl⟩ := ha
    obtain ⟨t, rfl⟩ := hb
    have hl := ih (List.prefix_append run s) (List.prefix_append run t)
    simpa [sharedStart] using hl

/-- The parts of a text before a run in it and after it. -/
theorem take_drop_run (before run after : List Char) :
    (before ++ run ++ after).take before.length = before ∧
      (before ++ run ++ after).drop (before.length + run.length) = after := by
  constructor
  · rw [List.append_assoc, List.take_left]
  · rw [← List.length_append, List.drop_left]

/-- A run of a text that has another one in it, after `k` characters: these stand at the end of what
is before the other run. -/
theorem parts_of_run_eq {before run after before' run' after' : List Char} {k : Nat}
    (h : before ++ run ++ after = before' ++ run' ++ after')
    (hb : before'.length + k = before.length) (hr : k + run.length ≤ run'.length) :
    before = before' ++ run'.take k ∧ after = run'.drop (k + run.length) ++ after' := by
  have hparts : run'.take k ++ (run'.drop k).take run.length ++ run'.drop (k + run.length) = run' := by
    rw [← List.drop_drop, List.append_assoc, List.take_append_drop, List.take_append_drop]
  have he : before ++ (run ++ after) = before' ++ run'.take k ++
      ((run'.drop k).take run.length ++ (run'.drop (k + run.length) ++ after')) := calc
    before ++ (run ++ after) = before' ++ run' ++ after' := by rw [← List.append_assoc, h]
    _ = before' ++ (run'.take k ++ (run'.drop k).take run.length ++ run'.drop (k + run.length)) ++
        after' := by rw [hparts]
    _ = _ := by simp only [List.append_assoc]
  obtain ⟨hbefore, hrest⟩ := List.append_inj he (by simp; omega)
  exact ⟨hbefore, (List.append_inj hrest (by simp; omega)).2⟩

/-- A run is made longer by what the parts before it share at their ends and the parts after it at
their starts. -/
theorem extendRun_eq (before front run after back : List Char) :
    extendRun (before ++ run ++ after) (front ++ run ++ back)
        ⟨before.length, front.length, run.length⟩ =
      ⟨before.length - sharedStart before.reverse front.reverse,
        front.length - sharedStart before.reverse front.reverse,
        sharedStart before.reverse front.reverse + run.length + sharedStart after back⟩ := by
  obtain ⟨hbt, hbd⟩ := take_drop_run before run after
  obtain ⟨hft, hfd⟩ := take_drop_run front run back
  simp only [extendRun, hbt, hbd, hft, hfd]

/-- Another run is in the run, at the same places of both texts. -/
def CommonRun.Has (m n : CommonRun) : Prop :=
  ∃ k, m.left + k = n.left ∧ m.right + k = n.right ∧ k + n.size ≤ m.size

/-- The run is another one made longer as far as the texts agree, whatever the characters. -/
structure CommonRun.IsExtension (e m : CommonRun) (a b : List Char) : Prop where
  fits : e.Fits (fun _ => false) a b
  has : e.Has m
  longest : ∀ n : CommonRun, n.Fits (fun _ => false) a b → n.Has m → e.Has n

theorem extendRun_fits {m : CommonRun} (h : m.Fits usual a b) :
    (extendRun a b m).Fits (fun _ => false) a b := by
  obtain ⟨left, right, size⟩ := m
  obtain ⟨before, front, run, after, back, rfl, rfl, rfl, rfl, rfl, _⟩ := h
  obtain ⟨rear, hr, ⟨before', hb⟩, ⟨front', hf⟩⟩ := sharedStart_spec before.reverse front.reverse
  obtain ⟨ahead, ha, ⟨after', rfl⟩, ⟨back', rfl⟩⟩ := sharedStart_spec after back
  have hb : before = before'.reverse ++ rear.reverse := by simpa using congrArg List.reverse hb.symm
  have hf : front = front'.reverse ++ rear.reverse := by simpa using congrArg List.reverse hf.symm
  rw [extendRun_eq, ← hr, ← ha]
  refine ⟨before'.reverse, front'.reverse, rear.reverse ++ run ++ ahead, after', back', ?_, ?_,
    ?_, ?_, ?_, fun _ _ => rfl⟩
  · simp [hb]
  · simp [hf]
  · simp [hb]
  · simp [hf]
  · simp [Nat.add_assoc]

theorem sharedStart_le_right (a b : List Char) : sharedStart a b ≤ b.length := by
  obtain ⟨run, hl, _, hb⟩ := sharedStart_spec a b
  exact hl ▸ hb.length_le

theorem extendRun_isExtension {m : CommonRun} (h : m.Fits usual a b) :
    (extendRun a b m).IsExtension m a b := by
  have hf := extendRun_fits h
  obtain ⟨left, right, size⟩ := m
  obtain ⟨before, front, run, after, back, rfl, rfl, rfl, rfl, rfl, _⟩ := h
  rw [extendRun_eq] at hf ⊢
  have hb := sharedStart_le_left before.reverse front.reverse
  have hr := sharedStart_le_right before.reverse front.reverse
  rw [List.length_reverse] at hb hr
  refine ⟨hf, ⟨sharedStart before.reverse front.reverse, by simp [hb], by simp [hr], by simp⟩, ?_⟩
  rintro ⟨left, right, size⟩ ⟨before', front', run', after', back', ha', hb', rfl, rfl, rfl, -⟩
    ⟨k, hl, hr, hs⟩
  dsimp only at hl hr hs
  obtain ⟨hbefore, hafter⟩ := parts_of_run_eq ha' hl hs
  obtain ⟨hfront, hback⟩ := parts_of_run_eq hb' hr hs
  have hk : k ≤ sharedStart before.reverse front.reverse := by
    have hp : (run'.take k).reverse <+: before.reverse ∧ (run'.take k).reverse <+: front.reverse := by
      simp [hbefore, hfront]
    have hl := length_le_sharedStart hp.1 hp.2
    simpa [show k ≤ run'.length by omega] using hl
  have ht : run'.length - (k + run.length) ≤ sharedStart after back := by
    have hp : run'.drop (k + run.length) <+: after ∧ run'.drop (k + run.length) <+: back := by
      simp [hafter, hback]
    simpa using length_le_sharedStart hp.1 hp.2
  refine ⟨sharedStart before.reverse front.reverse - k, ?_, ?_, ?_⟩ <;> dsimp only <;> omega

/-- The run is the first of the longest ones without some characters, made longer. -/
def CommonRun.IsBlock (usual : Char → Bool) (e : CommonRun) (a b : List Char) : Prop :=
  ∃ m : CommonRun, m.IsFirstLongest usual a b ∧ e.IsExtension m a b

theorem longestRun_isBlock (usual : Char → Bool) (a b : List Char) :
    (longestRun usual a b).IsBlock usual a b :=
  have h := longestFrom_isFirstLongest usual a b
  ⟨_, h, extendRun_isExtension h.1⟩

namespace CommonRun

variable {m n : CommonRun}

theorem IsBlock.fits (h : m.IsBlock usual a b) : m.Fits (fun _ => false) a b := h.choose_spec.2.fits

theorem IsFirstLongest.unique (hm : m.IsFirstLongest usual a b)
    (hn : n.IsFirstLongest usual a b) : m = n := by
  have h := hm.2 n hn.1
  have h' := hn.2 m hm.1
  obtain ⟨left, right, size⟩ := m
  obtain ⟨left', right', size'⟩ := n
  simp only [Yields] at h h'
  rw [mk.injEq]
  omega

/-- There is just one block. -/
theorem IsBlock.unique (hm : m.IsBlock usual a b) (hn : n.IsBlock usual a b) : m = n := by
  obtain ⟨first, hf, hm⟩ := hm
  obtain ⟨_, hf', hn⟩ := hn
  obtain rfl := hf.unique hf'
  obtain ⟨k, hk⟩ := hm.longest n hn.fits hn.has
  obtain ⟨l, hl⟩ := hn.longest m hm.fits hm.has
  obtain ⟨left, right, size⟩ := m
  obtain ⟨left', right', size'⟩ := n
  dsimp only at hk hl
  rw [mk.injEq]
  omega

end CommonRun

end ShellCompletion.Text
