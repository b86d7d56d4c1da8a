import ShellCompletion.Proofs.Document.Json.Plain
import ShellCompletion.Proofs.Document.Yaml.Cursor

/-! Plain strings as scalars in YAML. The main statement says that a string in its quotes is
taken off a text as a quoted scalar with the meaning of the string. -/
namespace ShellCompletion.Document.Yaml

open Text Json Cursor

variable {c : Cursor} {t : List Char} {began : Mark}

theorem span_cons {p : Char → Bool} {x : Char} (h : c.rest = x :: t) (hx : p x = true) :
    c.span p = (x :: (c.next.span p).1, (c.next.span p).2) := by
  rw [span, span, next_rest, h, List.takeWhile_cons_of_pos hx]
  rfl

theorem span_stops {p : Char → Bool} (h : Stops p c.rest) : c.span p = ([], c) := by
  rw [span, takeWhile_of_stops h]
  rfl

/-! ### Solid parts -/

/-- What a solid part of a quoted scalar goes past at once. -/
def isSolid (x : Char) : Bool := !(x == '\'' || x == '"' || x == '\\' || isBlankOrEnd x)

theorem quotedSolid_char {x : Char} (h : c.rest = x :: t) (hx : isSolid x = true) (fuel : Nat)
    (done : List Char) : quotedSolid true began (fuel + 1) done c =
      quotedSolid true began (fuel + 1) (done ++ [x]) c.next := by
  have hspan := span_cons (p := fun x => !(x == '\'' || x == '"' || x == '\\' || isBlankOrEnd x)) h hx
  simp only [quotedSolid, hspan, List.append_assoc, List.singleton_append]

/-- What stands at a character that is not solid. -/
theorem quotedSolid_stop {x : Char} (h : c.rest = x :: t) (hx : isSolid x = false) (fuel : Nat)
    (done : List Char) : quotedSolid true began (fuel + 1) done c =
      if x == '\'' then quotedSolid true began fuel (done ++ [x]) c.next
      else if x == '\\' then
        match plainEscape? c.next.peek, codeLength? c.next.peek with
        | some e, _ => quotedSolid true began fuel (done ++ [e]) c.next.next
        | none, some n => do
          let (e, c) ← readCode began n c.next.next
          quotedSolid true began fuel (done ++ [e]) c
        | none, none =>
          if isBreak c.next.peek then do
            let (more, c) ← readQuotedBreaks began c.next.lineBreak.2
            quotedSolid true began fuel (done ++ more) c
          else failIn .doubleQuoted began (.unknownEscape c.next.peek) c.next
      else .ok (done, c) := by
  have hspan := span_stops (c := c)
    (p := fun x => !(x == '\'' || x == '"' || x == '\\' || isBlankOrEnd x)) (h ▸ stops_cons.2 hx)
  simp only [quotedSolid, hspan, List.append_nil, peek_of_rest h]
  rfl

theorem readCode_unit (began : Mark) {ds : List Char} (hds : FourHex ds) (h : c.rest = ds ++ t) :
    readCode began 4 c = .ok (Char.ofNat (code ds), forward ds.length c) := by
  have run : (c.rest.take 4).takeWhile isHexDigit = ds := by
    rw [h, ← hds.length, List.take_left, ← List.append_nil ds, takeWhile_run hds.hex stops_nil,
      List.append_nil]
  have small : ¬0x110000 ≤ Text.valueOf 16 (ds.filterMap (baseDigit? 16)) := by
    have := hds.code_lt
    unfold code at this
    omega
  simp only [readCode, run, hds.length, Nat.lt_irrefl, if_false, small]
  rfl

/-- The letters after a backslash that JSON has mean the same in YAML. -/
theorem plainEscape?_eq {l d : Char} (h : Json.plainEscape? l = some d) : plainEscape? l = some d := by
  unfold Json.plainEscape? at h
  split at h <;> first | exact h | cases h

/-- The piece is a space that stands for itself. -/
def isSpacePiece : Piece → Bool
  | .char c => c == ' '
  | _ => false

theorem isSolid_of_plain {x : Char} (hj : (Piece.char x).IsJson) (hp : (Piece.char x).IsPlain)
    (hs : isSpacePiece (.char x) = false) (hq : x ≠ '\'') : isSolid x = true := by
  obtain ⟨hj₁, hj₂, hj₃⟩ := hj
  have ht : x ≠ '\t' := by rintro rfl; exact absurd hj₃ (by decide)
  have he : x ≠ endChar := by rintro rfl; exact absurd hj₃ (by decide)
  simp only [isSpacePiece] at hs
  simp [isSolid, isBlankOrEnd, isSpaceOrEnd, isBreakOrEnd, hj₁, hj₂, hq, ht, he, hs, hp.2]

/-- A solid part goes past a piece that is no space. -/
theorem quotedSolid_piece (began : Mark) {p : Piece} (hj : p.IsJson) (hp : p.IsPlain)
    (hs : isSpacePiece p = false) (h : c.rest = p.text ++ t) (fuel : Nat) (done : List Char) :
    ∃ f, fuel ≤ f ∧ quotedSolid true began (fuel + 1) done c =
      quotedSolid true began f (done ++ [p.meaning]) (forward p.text.length c) := by
  cases p with
  | char x =>
    by_cases hq : x = '\''
    · subst hq
      exact ⟨fuel, Nat.le_refl _, quotedSolid_stop h rfl fuel done⟩
    · exact ⟨fuel + 1, Nat.le_succ _, quotedSolid_char h (isSolid_of_plain hj hp hs hq) fuel done⟩
  | letter l =>
    obtain ⟨d, hd⟩ := Option.isSome_iff_exists.1 hj
    have hnext := rest_next h
    refine ⟨fuel, Nat.le_refl _, (quotedSolid_stop h rfl fuel done).trans ?_⟩
    simp [peek_of_rest hnext, plainEscape?_eq hd, Piece.meaning, hd]
    rfl
  | unit ds =>
    have hnext := rest_next h
    refine ⟨fuel, Nat.le_refl _, (quotedSolid_stop h rfl fuel done).trans ?_⟩
    have code := readCode_unit began hj (rest_next hnext)
    simp [peek_of_rest hnext, code, plainEscape?, codeLength?, Piece.meaning, bind, Except.bind]
    rfl
  | pair hs ls => exact hp.elim

/-- A solid part goes past pieces that are no spaces, up to a quote or a space. -/
theorem quotedSolid_pieces {ps : List Piece} (hj : PiecesJson ps) (hp : PiecesPlain ps)
    (hs : ∀ p ∈ ps, isSpacePiece p = false) {x : Char} (hx : x = '"' ∨ x = ' ') {fuel : Nat}
    (hf : ps.length < fuel) (done : List Char) (h : c.rest = piecesText ps ++ x :: t) :
    quotedSolid true began fuel done c =
      .ok (done ++ ps.map Piece.meaning, forward (piecesText ps).length c) := by
  induction ps generalizing fuel done c with
  | nil =>
    obtain ⟨fuel, rfl⟩ := Nat.exists_eq_succ_of_ne_zero (Nat.ne_zero_of_lt hf)
    have hx' : isSolid x = false ∧ x ≠ '\'' ∧ x ≠ '\\' := by obtain rfl | rfl := hx <;> decide
    rw [quotedSolid_stop h hx'.1]
    simp [hx'.2, forward_zero]
  | cons p ps ih =>
    obtain ⟨fuel, rfl⟩ := Nat.exists_eq_succ_of_ne_zero (Nat.ne_zero_of_lt hf)
    obtain ⟨hpj, -, hj⟩ := hj
    simp only [PiecesPlain, List.mem_cons, forall_eq_or_imp] at hp hs
    rw [piecesText_cons, List.append_assoc] at h
    obtain ⟨f, hle, hf'⟩ := quotedSolid_piece began hpj hp.1 hs.1 h fuel done
    have hf := Nat.lt_of_succ_lt_succ hf
    rw [hf', ih hj hp.2 hs.2 (Nat.lt_of_lt_of_le hf hle) _ (rest_forward h), piecesText_cons,
      List.length_append, forward_add]
    simp

/-- Pieces that are no spaces are taken at once, as the rest of the text is long enough. -/
theorem quotedSolid_front {ps : List Piece} (hj : PiecesJson ps) (hp : PiecesPlain ps)
    (hs : ∀ p ∈ ps, isSpacePiece p = false) {x : Char} (hx : x = '"' ∨ x = ' ')
    (h : c.rest = piecesText ps ++ x :: t) : quotedSolid true began (c.rest.length + 1) [] c =
      .ok (ps.map Piece.meaning, forward (piecesText ps).length c) := by
  have hle := length_le_piecesText ps
  refine quotedSolid_pieces hj hp hs hx ?_ [] h
  rw [h, List.length_append]
  omega

/-! ### Whole scalars -/

theorem eq_space_of_isSpacePiece {p : Piece} (h : isSpacePiece p = true) : p = .char ' ' := by
  cases p with
  | char c => rw [eq_of_beq h]
  | _ => cases h

theorem spaces_of_pieces {ps : List Piece} (h : ∀ p ∈ ps, isSpacePiece p = true) :
    piecesText ps = ps.map Piece.meaning ∧ ∀ x ∈ piecesText ps, x = ' ' := by
  induction ps with
  | nil => exact ⟨rfl, by simp⟩
  | cons p ps ih =>
    simp only [List.mem_cons, forall_eq_or_imp] at h
    obtain ⟨text, spaces⟩ := ih h.2
    obtain rfl := eq_space_of_isSpacePiece h.1
    rw [piecesText_cons, text] at *
    exact ⟨rfl, by simpa [Piece.text] using spaces⟩

/-- A blank part of a quoted scalar goes past spaces, up to what is no blank. -/
theorem readQuotedBlanks_spaces (began : Mark) {b : List Char} (hb : ∀ x ∈ b, x = ' ')
    {x : Char} (hx : isBlankOrEnd x = false) (h : c.rest = b ++ x :: t) :
    readQuotedBlanks began c = .ok (b, forward b.length c) := by
  have stop : (x == ' ' || x == '\t') = false ∧ isBreak x = false ∧ (x == endChar) = false := by
    simp only [isBlankOrEnd, isSpaceOrEnd, isBreakOrEnd, Bool.or_eq_false_iff] at hx
    simp [hx]
  have run := span_run (p := fun x => x == ' ' || x == '\t') h (fun y hy => by simp [hb y hy])
    (stops_cons.2 stop.1)
  have hpeek := peek_of_rest (rest_forward h)
  simp [readQuotedBlanks, run, hpeek, stop]
  rfl

/-- Pieces that do not begin with a space, and the quote, do not begin with a blank. -/
theorem exists_solid_front {ps : List Piece} (hj : PiecesJson ps) (hp : PiecesPlain ps)
    (hs : Stops isSpacePiece ps) (t : List Char) :
    ∃ x r, piecesText ps ++ '"' :: t = x :: r ∧ isBlankOrEnd x = false := by
  cases ps with
  | nil => exact ⟨'"', t, rfl, by decide⟩
  | cons p ps =>
    rw [stops_cons] at hs
    have hp := hp p List.mem_cons_self
    cases p with
    | char x =>
      refine ⟨x, piecesText ps ++ '"' :: t, rfl, ?_⟩
      by_cases hq : x = '\''
      · rw [hq]
        decide
      · have := isSolid_of_plain hj.1 hp hs hq
        simp only [isSolid, Bool.not_eq_true', Bool.or_eq_false_iff] at this
        exact this.2
    | letter l => exact ⟨'\\', _, rfl, by decide⟩
    | unit ds => exact ⟨'\\', _, rfl, by decide⟩
    | pair hs ls => exact hp.elim

/-- The parts of a quoted scalar go past pieces, up to the quote. -/
theorem quotedParts_pieces {ps : List Piece} (hj : PiecesJson ps) (hp : PiecesPlain ps) {fuel : Nat}
    (hf : ps.length < fuel) (done : List Char) (h : c.rest = piecesText ps ++ '"' :: t) :
    quotedParts true began fuel done c =
      .ok (done ++ ps.map Piece.meaning, forward ((piecesText ps).length + 1) c) := by
  -- a solid part and the spaces after it are taken in one round
  induction fuel generalizing ps done c with
  | zero => exact absurd hf (Nat.not_lt_zero _)
  | succ fuel ih =>
    obtain ⟨solid, more, rfl, hsolid, hmore⟩ := exists_run (!isSpacePiece ·) ps
    obtain ⟨spaces, rest, rfl, hspaces, hrest⟩ := exists_run isSpacePiece more
    simp only [PiecesPlain, List.mem_append, or_imp, forall_and] at hp
    obtain ⟨hp₁, -, hp₃⟩ := hp
    have hj₁ := hj.append_left
    have hj₃ := hj.append_right.append_right
    have hsolid : ∀ p ∈ solid, isSpacePiece p = false := by simpa using hsolid
    cases spaces with
    | nil =>
      obtain rfl : rest = [] := by
        cases rest with
        | nil => rfl
        | cons p rest => simp_all
      simp only [List.append_nil] at h ⊢
      rw [quotedParts, quotedSolid_front hj₁ hp₁ hsolid (.inl rfl) h]
      simp [bind, Except.bind, peek_of_rest (rest_forward h), forward_add, forward_one]
      rfl
    | cons p spaces =>
      obtain ⟨htext, hblank⟩ := spaces_of_pieces hspaces
      obtain ⟨x, r, hx, hsolid'⟩ := exists_solid_front hj₃ hp₃ hrest t
      have hf' : rest.length < fuel := by
        simp only [List.length_append, List.length_cons] at hf
        omega
      obtain ⟨s, hs⟩ : ∃ s, piecesText (p :: spaces) = ' ' :: s := by
        rw [eq_space_of_isSpacePiece (hspaces p List.mem_cons_self)]
        exact ⟨_, rfl⟩
      rw [piecesText_append, piecesText_append, List.append_assoc, List.append_assoc] at h
      have hc := rest_forward h
      have blanks := readQuotedBlanks_spaces began hblank hsolid' (hx ▸ hc)
      have next := ih hj₃ hp₃ hf' (done ++ solid.map Piece.meaning ++ piecesText (p :: spaces))
        (rest_forward hc)
      rw [quotedParts, quotedSolid_front hj₁ hp₁ hsolid (.inr rfl) (by rw [h, hs]; rfl)]
      simp only [bind, Except.bind, peek_of_rest (hs ▸ hc : _ = ' ' :: _)]
      rw [if_neg (by decide), blanks]
      refine next.trans ?_
      simp only [htext, List.map_append, piecesText_append, List.length_append, forward_add,
        List.append_assoc]

/-- A string in its quotes is taken off a text as a quoted scalar. -/
theorem readQuoted_quoted {ps : List Piece} (hj : PiecesJson ps) (hp : PiecesPlain ps)
    (h : c.rest = quoted ps ++ t) :
    readQuoted true c = .ok (piecesMeaning ps, forward (quoted ps).length c) := by
  rw [quoted_append] at h
  have hlen : ps.length < c.rest.length + 1 := by
    have := length_le_piecesText ps
    rw [h, List.length_cons, List.length_append]
    omega
  rw [readQuoted, quotedParts_pieces hj hp hlen [] (rest_next h)]
  have hlen : (quoted ps).length = 1 + ((piecesText ps).length + 1) := by simp [quoted, Nat.add_comm]
  rw [hlen, forward_add 1, forward_one]
  rfl

end ShellCompletion.Document.Yaml
