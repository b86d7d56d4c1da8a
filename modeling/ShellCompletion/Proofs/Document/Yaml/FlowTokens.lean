import ShellCompletion.Proofs.Document.Yaml.Lexing

/-! The tokens of collections in flow, and words. Each token is one round of reading. -/
namespace ShellCompletion.Document.Yaml.Lexer

open Text Cursor

variable {l m : Lexer} {d : Nat} {ks : List TokenKind} {x : Char} {s t : List Char}

/-! ### What is fetched -/

/-- What a character in flow begins. -/
def flowFetch? : Char → Option (Lexer → Except Fault Lexer)
  | '[' => some fun l => l.fetchFlowStart .flowSequenceStart
  | '{' => some fun l => l.fetchFlowStart .flowMappingStart
  | ']' => some fun l => l.fetchFlowEnd .flowSequenceEnd
  | '}' => some fun l => l.fetchFlowEnd .flowMappingEnd
  | ',' => some fetchFlowEntry
  | '"' => some fun l => l.fetchQuoted true
  | _ => none

theorem Ready.fetch_flow (h : Ready l m d ks (x :: t)) {f : Lexer → Except Fault Lexer}
    (hx : flowFetch? x = some f) : l.fetch = f m := by
  rw [fetch, h.skipped]
  unfold flowFetch? at hx
  split at hx <;> cases hx <;>
    simp [bind, Except.bind, h.calm.unwind, peek_of_rest h.rest, endChar]

theorem Ready.fetch_value (h : Ready l m (d + 1) ks (':' :: t)) : l.fetch = m.fetchValue := by
  rw [fetch, h.skipped]
  simp [bind, Except.bind, h.calm.unwind, peek_of_rest h.rest, endChar, h.calm.inFlow]

theorem Ready.fetch_end (h : Ready l m d ks []) : l.fetch = m.fetchEnd := by
  rw [fetch, h.skipped]
  simp [bind, Except.bind, h.calm.unwind, peek_of_nil h.rest]

theorem Ready.fetch_word (h : Ready l m d ks (x :: t)) (hx : isIndicator x = false)
    (hb : isBlankOrEnd x = false) (hp : x ≠ '.') : l.fetch = m.fetchPlain := by
  rw [fetch, h.skipped]
  simp only [isIndicator, List.contains_eq_mem, decide_eq_false_iff_not] at hx
  simp [isBlankOrEnd, isSpaceOrEnd, isBreakOrEnd] at hx hb
  simp [bind, Except.bind, h.calm.unwind, peek_of_rest h.rest, hx, hb, hp, beginsPlain, isIndicator,
    isBlankOrEnd, isSpaceOrEnd, isBreakOrEnd]

theorem Ready.fetch_minus (h : Ready l m d ks ('-' :: x :: t)) (hx : x ≠ '-')
    (hb : isBlankOrEnd x = false) : l.fetch = m.fetchPlain := by
  have following : m.cursor.peekAt 1 = x := by simp [peekAt, h.rest]
  have separator : m.cursor.atSeparator = false := by simp [atSeparator, h.rest, hx]
  rw [fetch, h.skipped]
  simp [bind, Except.bind, h.calm.unwind, peek_of_rest h.rest, following, separator, hb, endChar,
    beginsPlain]

/-! ### Tokens of collections -/

theorem front_of_flowFetch? {f : Lexer → Except Fault Lexer} (hx : flowFetch? x = some f) :
    Front (x :: t) := by
  refine stops_cons.2 ?_
  unfold flowFetch? at hx
  split at hx <;> first | decide | cases hx

theorem Calm.pushChars (h : Calm l d ks) (k : TokenKind) (n : Nat) :
    Calm (l.pushChars k n) d (k :: ks) :=
  ⟨h.flow, h.indent, h.indents, h.optional, by simp [Lexer.pushChars, push, h.kinds], h.going⟩

/-- A character that stands for itself is read in one round. -/
theorem At.punctuation {d' : Nat} {ks' : List TokenKind} {f : Lexer → Except Fault Lexer}
    {allowed : Bool} (h : At l d ks (x :: t)) (hx : flowFetch? x = some f)
    (hf : ∀ m, Calm m d ks → ∃ m', f m = .ok m' ∧ Calm m' d' ks' ∧ m'.cursor = m.cursor.next ∧
      m'.keyAllowed = allowed) :
    ∃ m, Within 1 l m ∧ At m d' ks' t ∧ m.keyAllowed = allowed := by
  obtain ⟨m, ready⟩ := h.ready (front_of_flowFetch? hx)
  obtain ⟨m', he, calm, hc, rfl⟩ := hf m ready.calm
  exact h.round ((ready.fetch_flow hx).trans he) ⟨calm, gapThen_of_rest (hc ▸ rest_next ready.rest)⟩

theorem At.flowStart {k : TokenKind} (h : At l d ks (x :: t))
    (hx : flowFetch? x = some fun l => l.fetchFlowStart k) :
    ∃ m, Within 1 l m ∧ At m (d + 1) (k :: ks) t ∧ m.keyAllowed = true := by
  refine h.punctuation hx fun m hm => ?_
  obtain ⟨keys, hkeys, he⟩ := hm.saveKey
  have calm : Calm { m with keys, flow := m.flow + 1, keyAllowed := true } (d + 1) ks :=
    ⟨by simp [hm.flow], hm.indent, hm.indents, hkeys, hm.kinds, hm.going⟩
  exact ⟨_, by rw [fetchFlowStart, he]; rfl, calm.pushChars k 1, rfl, rfl⟩

theorem At.flowEnd {k : TokenKind} (h : At l (d + 1) ks (x :: t))
    (hx : flowFetch? x = some fun l => l.fetchFlowEnd k) :
    ∃ m, Within 1 l m ∧ At m d (k :: ks) t ∧ m.keyAllowed = false := by
  refine h.punctuation hx fun m hm => ?_
  obtain ⟨keys, hkeys, he⟩ := hm.dropKey
  have calm : Calm { m with keys, flow := m.flow - 1, keyAllowed := false } d ks :=
    ⟨by simp [hm.flow], hm.indent, hm.indents, hkeys, hm.kinds, hm.going⟩
  exact ⟨_, by rw [fetchFlowEnd, he]; rfl, calm.pushChars k 1, rfl, rfl⟩

theorem At.flowEntry (h : At l d ks (',' :: t)) :
    ∃ m, Within 1 l m ∧ At m d (.flowEntry :: ks) t ∧ m.keyAllowed = true := by
  refine h.punctuation rfl fun m hm => ?_
  have allowed : Calm { m with keyAllowed := true } d ks :=
    ⟨hm.flow, hm.indent, hm.indents, hm.optional, hm.kinds, hm.going⟩
  obtain ⟨keys, hkeys, he⟩ := allowed.dropKey
  exact ⟨_, by rw [fetchFlowEntry, he]; rfl, (allowed.withKeys hkeys).pushChars .flowEntry 1, rfl, rfl⟩

/-! ### Words -/

/-- A word that is taken for a plain scalar: a digit or a small letter stands first, or a minus
with a digit after it. -/
structure IsWord (w : List Char) : Prop where
  chars : ∀ x ∈ w, isWordChar x = true
  front : (∃ x r, w = x :: r ∧ isIndicator x = false ∧ x ≠ '.' ∧ x ≠ '\ufeff') ∨
    ∃ x r, w = '-' :: x :: r ∧ x ≠ '-'

theorem Ready.fetch_isWord {w : List Char} (h : Ready l m d ks (w ++ t)) (hw : IsWord w) :
    l.fetch = m.fetchPlain := by
  obtain ⟨chars, ⟨x, r, rfl, hx, hp, -⟩ | ⟨x, r, rfl, hx⟩⟩ := hw
  · have := chars x (by simp)
    simp only [isWordChar, Bool.not_eq_true', Bool.or_eq_false_iff] at this
    exact h.fetch_word hx (by simp [this]) hp
  · have := chars x (by simp)
    simp only [isWordChar, Bool.not_eq_true', Bool.or_eq_false_iff] at this
    exact h.fetch_minus hx (by simp [this])

theorem front_of_isWord {w : List Char} (hw : IsWord w) : Front (w ++ t) := by
  obtain ⟨chars, ⟨x, r, rfl, -, -, hx⟩ | ⟨x, r, rfl, -⟩⟩ := hw
  · have := chars x (by simp)
    simp only [isWordChar, isBlankOrEnd, isSpaceOrEnd, isBreakOrEnd, Bool.not_eq_true',
      Bool.or_eq_false_iff] at this
    refine stops_cons.2 ?_
    simp [isGap, this, hx]
  · exact stops_cons.2 (by decide)

theorem IsWord.ne_nil {w : List Char} (hw : IsWord w) : w ≠ [] := by
  obtain ⟨-, ⟨x, r, rfl, -⟩ | ⟨x, r, rfl, -⟩⟩ := hw <;> simp

/-- A word before blanks is read in one round. -/
theorem At.word {w b : List Char} (h : At l d ks (w ++ (b ++ t))) (hw : IsWord w)
    (hb : ∀ x ∈ b, isGap x = true) (ht : Ends (decide (d ≠ 0)) t) :
    ∃ m, Within 1 l m ∧ At m d (.scalar (String.ofList w) true :: ks) t := by
  obtain ⟨m, ready⟩ := h.ready (front_of_isWord hw)
  obtain ⟨keys, hkeys, he⟩ := ready.calm.saveKey
  have calm := ready.calm.withKeys hkeys
  obtain ⟨text, gap⟩ := readPlain_word hw.chars hw.ne_nil (ready.calm.inFlow ▸ ht) hb ready.rest m.indent
  generalize read : readPlain m.inFlow m.indent m.cursor = r at text gap
  obtain ⟨p, c⟩ := r
  have fetched : l.fetch = .ok {
      ({ m with keys } : Lexer).push ⟨.scalar (String.ofList p.text) true, m.mark, p.stop⟩ with
      cursor := c, keyAllowed := p.lineEnded } := by
    have read : readPlain ({ m with keys } : Lexer).inFlow m.indent m.cursor = (p, c) := read
    rw [ready.fetch_isWord hw, fetchPlain, he]
    simp only [bind, Except.bind, read]
    rfl
  have kinds : List.map Token.kind (⟨.scalar (String.ofList p.text) true, m.mark, p.stop⟩ :: m.tokens) =
      .scalar (String.ofList w) true :: ks := by
    rw [List.map_cons, ready.calm.kinds, text]
  obtain ⟨m', within, at_, -⟩ := h.round fetched
    ⟨⟨calm.flow, calm.indent, calm.indents, calm.optional, kinds, calm.going⟩, gap⟩
  exact ⟨m', within, at_⟩

/-! ### The end -/

/-- At the end of a text reading is over. -/
theorem At.finish (h : At l d ks []) : ∃ ts, ts.map Token.kind = ks.reverse ++ [.streamEnd] ∧
    ∀ fuel, run (fuel + 1) l = (ts, none) := by
  obtain ⟨m, ready⟩ := h.ready stops_nil
  obtain ⟨keys, -, he⟩ := ready.calm.dropKey
  obtain ⟨m', fetched, kinds, done⟩ : ∃ m', l.fetch = .ok m' ∧
      m'.tokens.map Token.kind = .streamEnd :: ks ∧ m'.done = true :=
    ⟨_, by rw [ready.fetch_end, fetchEnd, ready.calm.unwind, he]; rfl,
      by simp [pushHere, push, ready.calm.kinds], rfl⟩
  refine ⟨m'.tokens.reverse, by simp [kinds], fun fuel => ?_⟩
  rw [run_succ, if_neg (by simp [h.calm.going]), fetched]
  simp only [done, if_true]

end ShellCompletion.Document.Yaml.Lexer
