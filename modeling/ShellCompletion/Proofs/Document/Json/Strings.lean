import ShellCompletion.Proofs.Document.Json.Source
import ShellCompletion.Proofs.Text.Spans

/-! Strings in JSON. The main statements say that reading a string takes the pieces of a string
off the text up to the quote, and that it takes any pieces which are those of a string. -/
namespace ShellCompletion.Document.Json

open Text

variable {ds t : List Char} {o : Nat}

/-! ### Code units -/

theorem FourHex.exists_cons (h : FourHex ds) : ∃ a b c d, ds = [a, b, c, d] := by
  obtain ⟨hl, -⟩ := h
  match ds, hl with
  | [a, b, c, d], _ => exact ⟨a, b, c, d, rfl⟩

theorem fourHex?_run (h : FourHex ds) (t : List Char) : fourHex? (ds ++ t) = some (code ds) := by
  obtain ⟨a, b, c, d, rfl⟩ := h.exists_cons
  have hex := h.hex
  simp only [isHexDigit, List.mem_cons, List.not_mem_nil, or_false, forall_eq_or_imp, forall_eq,
    Option.isSome_iff_exists] at hex
  obtain ⟨⟨w, hw⟩, ⟨x, hx⟩, ⟨y, hy⟩, z, hz⟩ := hex
  simp [fourHex?, code, hw, hx, hy, hz]

theorem FourHex.code_lt (h : FourHex ds) : code ds < 0x10000 := by
  obtain ⟨a, b, c, d, rfl⟩ := h.exists_cons
  have hex := h.hex
  simp only [isHexDigit, List.mem_cons, List.not_mem_nil, or_false, forall_eq_or_imp, forall_eq,
    Option.isSome_iff_exists] at hex
  obtain ⟨⟨w, hw⟩, ⟨x, hx⟩, ⟨y, hy⟩, z, hz⟩ := hex
  have := baseDigit?_lt hw
  have := baseDigit?_lt hx
  have := baseDigit?_lt hy
  have := baseDigit?_lt hz
  simp only [code, List.filterMap_cons, hw, hx, hy, hz, List.filterMap_nil, valueOf, List.foldl_cons,
    List.foldl_nil]
  omega

theorem exists_of_fourHex? {s : List Char} {n : Nat} (h : fourHex? s = some n) :
    ∃ ds t, s = ds ++ t ∧ FourHex ds ∧ n = code ds := by
  have hs : FourHex (s.take 4) := by
    unfold fourHex? at h
    split at h
    · next a b c d he =>
      rw [he]
      refine ⟨rfl, ?_⟩
      simp only [List.mapM_cons, List.mapM_nil, Option.map_eq_some_iff, Option.bind_eq_bind,
        Option.bind_eq_some_iff, Option.pure_def, Option.some.injEq] at h
      obtain ⟨_, ⟨w, hw, _, ⟨x, hx, _, ⟨y, hy, _, ⟨z, hz, _⟩, _⟩, _⟩, _⟩, _⟩ := h
      simp [isHexDigit, hw, hx, hy, hz]
    · cases h
  refine ⟨s.take 4, s.drop 4, (List.take_append_drop 4 s).symm, hs, ?_⟩
  have := fourHex?_run hs (s.drop 4)
  rw [List.take_append_drop, h] at this
  exact Option.some.inj this

/-- What follows a code unit is not one that makes a character with it. -/
def Apart (ds tail : List Char) : Prop :=
  ∀ ls t, tail = '\\' :: 'u' :: (ls ++ t) → FourHex ls → t ≠ [] → ¬(IsHigh ds ∧ IsLow ls)

/-- What follows a code unit is no broken escape of another one. -/
def Sound (tail : List Char) : Prop :=
  ∀ low, tail = '\\' :: 'u' :: low → ∃ ls t, low = ls ++ t ∧ FourHex ls

theorem unicodeEscape_unit (hds : FourHex ds) (ht : t ≠ []) (sound : Sound t) (apart : Apart ds t) :
    unicodeEscape ⟨o, ds ++ t⟩ = .ok (Char.ofNat (code ds), 4) := by
  have hlen : ¬(ds ++ t).length ≤ 4 := by
    have := List.length_pos_iff.2 ht
    simp [hds.length]; omega
  have hdrop : (⟨o, ds ++ t⟩ : Rest).drop 4 = ⟨o + 4, t⟩ := Rest.drop_run o hds.length
  simp only [unicodeEscape, hlen, if_false, fourHex?_run hds, hdrop]
  split
  · next low =>
    split
    · next hhigh =>
      simp only [Bool.and_eq_true, decide_eq_true_eq] at hhigh
      obtain ⟨ls, t, rfl, hls⟩ := sound low rfl
      have hlow : ¬(0xDC00 ≤ code ls ∧ code ls ≤ 0xDFFF) := fun hl =>
        apart ls t rfl hls (by rintro rfl; simp [hls.length] at hhigh) ⟨hhigh.1, hl⟩
      simp [fourHex?_run hls, hlow]
    · rfl
  · rfl

theorem unicodeEscape_pair {hs ls : List Char} (hhs : FourHex hs) (high : IsHigh hs)
    (hls : FourHex ls) (low : IsLow ls) (ht : t ≠ []) :
    unicodeEscape ⟨o, hs ++ '\\' :: 'u' :: (ls ++ t)⟩ = .ok ((Piece.pair hs ls).meaning, 10) := by
  have hdrop : (⟨o, hs ++ '\\' :: 'u' :: (ls ++ t)⟩ : Rest).drop 4 =
      ⟨o + 4, '\\' :: 'u' :: (ls ++ t)⟩ := Rest.drop_run o hhs.length
  have hlen : 4 < ls.length + t.length := by
    have := List.length_pos_iff.2 ht
    have := hls.length
    omega
  rw [unicodeEscape, if_neg (by simp [hhs.length])]
  simp [fourHex?_run, hhs, hdrop, hls, high.1, high.2, low.1, low.2, hlen, Piece.meaning]

/-- An escape of a code unit is one of a unit or of two that are one character. -/
theorem exists_of_unicodeEscape {r : Rest} {c : Char} {size : Nat}
    (h : unicodeEscape r = .ok (c, size)) :
    (∃ ds t, r.chars = ds ++ t ∧ FourHex ds ∧ size = 4 ∧ c = Char.ofNat (code ds) ∧ Apart ds t) ∨
      ∃ hs ls t, r.chars = hs ++ '\\' :: 'u' :: (ls ++ t) ∧ (FourHex hs ∧ IsHigh hs) ∧
        (FourHex ls ∧ IsLow ls) ∧ size = 10 ∧ c = (Piece.pair hs ls).meaning := by
  unfold unicodeEscape at h
  split at h
  · cases h
  · split at h
    · cases h
    · next n hn =>
      obtain ⟨ds, t, hr, hds, rfl⟩ := exists_of_fourHex? hn
      have hdrop : (r.drop 4).chars = t := by
        simp only [Rest.drop, hr, ← hds.length, List.drop_left]
      simp only [hdrop] at h
      split at h
      · next low =>
        split at h
        · next hhigh =>
          simp only [Bool.and_eq_true, decide_eq_true_eq] at hhigh
          split at h
          · cases h
          · next m hm =>
            obtain ⟨ls, t, rfl, hls, rfl⟩ := exists_of_fourHex? hm
            by_cases hlow : IsLow ls
            · rw [if_pos (by simpa [IsLow] using hlow), Except.ok.injEq, Prod.mk.injEq] at h
              obtain ⟨rfl, rfl⟩ := h
              exact .inr ⟨ds, ls, t, hr, ⟨hds, hhigh.1⟩, ⟨hls, hlow⟩, rfl, rfl⟩
            · rw [if_neg (by simpa [IsLow] using hlow)] at h
              cases h
              refine .inl ⟨ds, _, hr, hds, rfl, rfl, fun ls' t' he hls' _ hl => hlow ?_⟩
              simp only [List.cons.injEq, true_and] at he
              rw [(List.append_inj he (hls.length.trans hls'.length.symm)).1]
              exact hl.2
        · next hhigh =>
          cases h
          refine .inl ⟨ds, _, hr, hds, rfl, rfl, fun ls t he hls ht hl => hhigh ?_⟩
          simp only [List.cons.injEq, true_and] at he
          have := List.length_pos_iff.2 ht
          simp [he, hls.length, hl.1.1, hl.1.2, this]
      · next hno =>
        cases h
        exact .inl ⟨ds, t, hr, hds, rfl, rfl, fun ls t he => absurd he (hno _)⟩

/-! ### Pieces -/

@[simp] theorem piecesText_nil : piecesText [] = [] := rfl

@[simp] theorem piecesText_cons (p : Piece) (ps : List Piece) :
    piecesText (p :: ps) = p.text ++ piecesText ps := by
  simp [piecesText]

theorem piecesText_append (ps qs : List Piece) :
    piecesText (ps ++ qs) = piecesText ps ++ piecesText qs := by
  simp [piecesText]

theorem PiecesJson.append_right {ps qs : List Piece} (h : PiecesJson (ps ++ qs)) : PiecesJson qs := by
  induction ps with
  | nil => exact h
  | cons p ps ih => exact ih h.2.2

theorem PiecesJson.append_left {ps qs : List Piece} (h : PiecesJson (ps ++ qs)) : PiecesJson ps := by
  induction ps with
  | nil => trivial
  | cons p ps ih =>
    refine ⟨h.1, fun q hq => h.2.1 q ?_, ih h.2.2⟩
    obtain ⟨ps', rfl⟩ := List.head?_eq_some_iff.1 hq
    rfl

/-- The first piece of a string, where its text begins as that of a code unit. -/
theorem PiecesJson.exists_unit {ps : List Piece} (hps : PiecesJson ps) {low : List Char}
    (h : piecesText ps ++ '"' :: t = '\\' :: 'u' :: low) :
    ∃ ls t p ps', low = ls ++ t ∧ FourHex ls ∧ ps = p :: ps' ∧
      (p = .unit ls ∨ IsHigh ls ∧ ∃ ls', p = .pair ls ls') := by
  cases ps with
  | nil => simp at h
  | cons p ps =>
    obtain ⟨hp, -, -⟩ := hps
    cases p with
    | char c => simp_all [Piece.text, Piece.IsJson]
    | letter c =>
      simp [Piece.text] at h
      rw [Piece.IsJson, h.1] at hp
      cases hp
    | unit ls =>
      simp only [piecesText_cons, Piece.text, List.cons_append, List.cons.injEq, true_and,
        List.append_assoc] at h
      exact ⟨ls, _, _, _, h.symm, hp, rfl, .inl rfl⟩
    | pair ls ls' =>
      simp only [piecesText_cons, Piece.text, List.cons_append, List.cons.injEq, true_and,
        List.append_assoc] at h
      exact ⟨ls, _, _, _, h.symm, hp.1.1, rfl, .inr ⟨hp.1.2, ls', rfl⟩⟩

/-- Reading a string goes past a piece. -/
theorem readString_piece {p : Piece} (hp : p.IsJson) (ht : t ≠ [])
    (unit : ∀ ds, p = .unit ds → Sound t ∧ Apart ds t) (start fuel : Nat) (done : List Char) :
    readString start (fuel + 1) done ⟨o, p.text ++ t⟩ =
      readString start fuel (p.meaning :: done) ⟨o + p.text.length, t⟩ := by
  cases p with
  | char c =>
    obtain ⟨hq, hb, hc⟩ := hp
    have hc : ¬c.toNat < 0x20 := by omega
    simp [readString, Piece.text, Piece.meaning, hc, Rest.drop]
  | letter c =>
    obtain ⟨d, hd⟩ := Option.isSome_iff_exists.1 hp
    have hu : c ≠ 'u' := by
      rintro rfl
      cases hd
    simp [readString, Piece.text, Piece.meaning, hd, Rest.drop]
  | unit ds =>
    obtain ⟨sound, apart⟩ := unit ds rfl
    have escape : unicodeEscape ((⟨o, '\\' :: 'u' :: (ds ++ t)⟩ : Rest).drop 2) = _ :=
      unicodeEscape_unit hp ht sound apart
    have hdrop : (⟨o, '\\' :: 'u' :: (ds ++ t)⟩ : Rest).drop (2 + 4) = ⟨o + (2 + 4), t⟩ :=
      Rest.drop_run (s := '\\' :: 'u' :: ds) o (by simp [hp.length])
    simp only [readString, Piece.text, List.cons_append, escape, hdrop, bind, Except.bind]
    simp [Piece.meaning, hp.length]
  | pair hs ls =>
    obtain ⟨⟨hhs, high⟩, hls, low⟩ := hp
    have escape : unicodeEscape
        ((⟨o, '\\' :: 'u' :: (hs ++ '\\' :: 'u' :: (ls ++ t))⟩ : Rest).drop 2) = _ :=
      unicodeEscape_pair hhs high hls low ht
    have hdrop : (⟨o, '\\' :: 'u' :: (hs ++ '\\' :: 'u' :: (ls ++ t))⟩ : Rest).drop (2 + 10) =
        ⟨o + (2 + 10), t⟩ := by
      have := Rest.drop_run (s := (Piece.pair hs ls).text) (t := t) o (n := 2 + 10)
        (by simp [Piece.text, hhs.length, hls.length])
      simpa [Piece.text] using this
    simp only [readString, Piece.text, List.cons_append, List.append_assoc, escape, hdrop, bind,
      Except.bind]
    simp [hhs.length, hls.length]

/-- Reading a string takes the pieces of a string off the text, up to the quote. -/
theorem readString_pieces {ps : List Piece} (hps : PiecesJson ps) {start fuel : Nat} (done : List Char)
    (o : Nat) (t : List Char) (hfuel : ps.length < fuel) :
    ∃ o', readString start fuel done ⟨o, piecesText ps ++ '"' :: t⟩ =
      .ok (String.ofList (done.reverse ++ ps.map Piece.meaning), ⟨o', t⟩) := by
  induction ps generalizing fuel done o with
  | nil =>
    obtain ⟨fuel, rfl⟩ := Nat.exists_eq_succ_of_ne_zero (Nat.ne_of_gt hfuel)
    exact ⟨o + 1, by simp [readString, Rest.drop]⟩
  | cons p ps ih =>
    obtain ⟨fuel, rfl⟩ := Nat.exists_eq_succ_of_ne_zero (Nat.ne_zero_of_lt hfuel)
    obtain ⟨hp, hjoins, hps⟩ := hps
    rw [piecesText_cons, List.append_assoc, readString_piece hp (by simp)]
    · obtain ⟨o', ho'⟩ := ih hps (p.meaning :: done) (o + p.text.length) (Nat.lt_of_succ_lt_succ hfuel)
      exact ⟨o', by simpa using ho'⟩
    · rintro ds rfl
      refine ⟨fun low he => ?_, fun ls t' he hls _ hl => ?_⟩
      · obtain ⟨ls, t, _, _, h, hls, _⟩ := hps.exists_unit he
        exact ⟨ls, t, h, hls⟩
      · obtain ⟨ls', t, q, ps', h, hls', rfl, hq⟩ := hps.exists_unit he
        obtain rfl := (List.append_inj h (hls.length.trans hls'.length.symm)).1
        obtain rfl | ⟨high, -⟩ := hq
        · exact hjoins _ rfl hl
        · exact absurd hl.2.1 (by have := high.2; omega)

theorem length_le_piecesText (ps : List Piece) : ps.length ≤ (piecesText ps).length := by
  induction ps with
  | nil => exact Nat.le_refl _
  | cons p ps ih =>
    have : 0 < p.text.length := by cases p <;> simp [Piece.text]
    simp only [piecesText_cons, List.length_append, List.length_cons]
    omega

theorem quoted_append (ps : List Piece) (t : List Char) :
    quoted ps ++ t = '"' :: (piecesText ps ++ '"' :: t) := by
  simp [quoted]

theorem readString_quoted {ps : List Piece} (hps : PiecesJson ps) (o : Nat) (t : List Char) :
    ∃ o', readString o (quoted ps ++ t).length [] ((⟨o, quoted ps ++ t⟩ : Rest).drop 1) =
      .ok (piecesMeaning ps, ⟨o', t⟩) := by
  rw [quoted_append]
  refine readString_pieces hps [] (o + 1) t ?_
  have := length_le_piecesText ps
  simp only [List.length_cons, List.length_append]
  omega

/-- A piece goes before others where it is not read together with the first of them. -/
theorem PiecesJson.cons {p : Piece} {ps : List Piece} (hps : PiecesJson ps) (hp : p.IsJson)
    (apart : ∀ ds, p = .unit ds → Apart ds (piecesText ps ++ '"' :: t)) : PiecesJson (p :: ps) := by
  refine ⟨hp, fun q hq hj => ?_, hps⟩
  obtain ⟨ps, rfl⟩ := List.head?_eq_some_iff.1 hq
  unfold Piece.Joins at hj
  split at hj
  · next ds ls => exact apart ds rfl ls (piecesText ps ++ '"' :: t) (by simp [Piece.text]) hps.1 (by simp) hj
  · exact hj

/-- What reading a string has taken is the pieces of a string and the quote. -/
theorem exists_of_readString {start fuel : Nat} {done : List Char} {r r' : Rest} {s : String}
    (h : readString start fuel done r = .ok (s, r')) :
    ∃ ps, PiecesJson ps ∧ r.chars = piecesText ps ++ '"' :: r'.chars ∧
      s = String.ofList (done.reverse ++ ps.map Piece.meaning) := by
  induction fuel generalizing done r with
  | zero => cases h
  | succ fuel ih =>
    -- a piece is put in front of those that the rest of the reading takes
    have extend {p : Piece} {t : List Char} (hr : r.chars = p.text ++ t) (hp : p.IsJson)
        (apart : ∀ ds, p = .unit ds → Apart ds t)
        (h : readString start fuel (p.meaning :: done) (r.drop p.text.length) = .ok (s, r')) :
        ∃ ps, PiecesJson ps ∧ r.chars = piecesText ps ++ '"' :: r'.chars ∧
          s = String.ofList (done.reverse ++ ps.map Piece.meaning) := by
      obtain ⟨ps, hps, hrest, hs⟩ := ih h
      have ht : t = piecesText ps ++ '"' :: r'.chars := by simpa [Rest.drop, hr] using hrest
      exact ⟨p :: ps, hps.cons hp fun ds he => ht ▸ apart ds he, by simp [hr, ht], by simpa using hs⟩
    rw [readString] at h
    split at h
    · cases h
    · next t hr =>
      cases h
      exact ⟨[], trivial, by simp [hr, Rest.drop], by simp⟩
    · next more hr =>
      split at h
      · cases h
      · next more =>
        cases hu : unicodeEscape (r.drop 2) with
        | error e => simp [hu, bind, Except.bind] at h
        | ok found =>
          obtain ⟨c, size⟩ := found
          simp only [hu, bind, Except.bind] at h
          have hr' (s : List Char) (hs : (r.drop 2).chars = s) : r.chars = '\\' :: 'u' :: s := by
            simpa [Rest.drop, hr] using hs
          obtain ⟨ds, t, hd, hds, hsize, hc, apart⟩ | ⟨hs, ls, t, hd, hhs, hls, hsize, hc⟩ :=
            exists_of_unicodeEscape hu
          · refine extend (p := .unit ds) (t := t) (hr' _ hd) hds (fun _ he => by cases he; exact apart) ?_
            simpa [Piece.text, Piece.meaning, hds.length, hsize, hc] using h
          · refine extend (p := .pair hs ls) (t := t) (by simpa [Piece.text] using hr' _ hd)
              ⟨hhs, hls⟩ (by simp) ?_
            simpa [Piece.text, hhs.1.length, hls.1.length, hsize, hc] using h
      · next c more hc =>
        split at h
        · next d hd =>
          exact extend (p := .letter c) (t := more) hr (by simp [Piece.IsJson, hd]) (by simp)
            (by simpa [Piece.text, Piece.meaning, hd] using h)
        · cases h
    · next c t hq hb hr =>
      split at h
      · cases h
      · next hc =>
        exact extend (p := .char c) (t := t) hr ⟨hq, hb, by omega⟩ (by simp) h

end ShellCompletion.Document.Json
