import ShellCompletion.Proofs.Document.Agreement.Quoted
import ShellCompletion.Proofs.Document.Yaml.FlowTokens

/-! Strings and keys. -/
namespace ShellCompletion.Document.Yaml.Lexer

open Text Cursor Json

variable {l m : Lexer} {d : Nat} {ks : List TokenKind} {ps : List Piece} {t : List Char}

theorem front_quoted (ps : List Piece) (t : List Char) : Front (quoted ps ++ t) :=
  stops_cons.2 (by decide)

/-- A string is read as one token, whichever keys are kept before it. -/
theorem Calm.fetchQuoted (h : Calm m d ks) {keys : List (Int × SimpleKey)}
    (hkeys : ∀ k ∈ keys, k.2.required = false) (hs : m.saveKey = .ok { m with keys })
    (hj : PiecesJson ps) (hp : PiecesPlain ps) (hr : m.cursor.rest = quoted ps ++ t) :
    ∃ m', m.fetchQuoted true = .ok m' ∧ Calm m' d (.scalar (piecesMeaning ps) false :: ks) ∧
      m'.cursor = forward (quoted ps).length m.cursor ∧ m'.keys = keys ∧ m'.count = m.count + 1 := by
  have read := readQuoted_quoted hj hp hr
  refine ⟨_, by rw [Lexer.fetchQuoted, fetchWith, hs]; simp only [bind, Except.bind, read]; rfl, ?_,
    rfl, rfl, rfl⟩
  exact ⟨h.flow, h.indent, h.indents, hkeys, by simp [push, h.kinds], h.going⟩

theorem At.string (h : At l d ks (quoted ps ++ t)) (hj : PiecesJson ps) (hp : PiecesPlain ps) :
    ∃ m, Within 1 l m ∧ At m d (.scalar (piecesMeaning ps) false :: ks) t := by
  obtain ⟨m, ready⟩ := h.ready (front_quoted ps t)
  obtain ⟨keys, hkeys, hs⟩ := ready.calm.saveKey
  obtain ⟨m', he, calm, hc, -, -⟩ := ready.calm.fetchQuoted hkeys hs hj hp ready.rest
  have fetched : l.fetch = .ok m' := (ready.fetch_flow rfl).trans he
  obtain ⟨m'', within, at_, -⟩ := h.round fetched ⟨calm, gapThen_of_rest (hc ▸ rest_forward ready.rest)⟩
  exact ⟨m'', within, at_⟩


/-! ### Keys -/

/-- What is kept for a key stays fresh over a short text on one line. -/
theorem isStale_forward {c : Cursor} {s : List Char} (h : c.rest = s ++ t)
    (hs : ∀ x ∈ s, isBreak x = false) (hlen : s.length ≤ longestKey)
    (hm : m.cursor = forward s.length c) (n : Nat) (r : Bool) : m.isStale ⟨n, r, c.mark⟩ = false := by
  have line := line_forward h hs
  have index := index_forward h
  simp only [isStale, mark, hm, line, index, longestKey, bne_self_eq_false, Bool.false_or] at hlen ⊢
  simp only [decide_eq_false_iff_not]
  omega

/-- One token has been read since a possible key began, which is kept. -/
structure Held (m : Lexer) (d : Nat) (ks : List TokenKind) (k : SimpleKey) : Prop where
  calm : Calm m d ks
  keys : ∃ keys, m.keys = (m.flow, k) :: keys
  count : m.count = k.number + 1

theorem Held.refresh {k : SimpleKey} (h : Held m d ks k) (hs : m.isStale k = false) :
    Held m.refresh d ks k := by
  obtain ⟨keys, hkeys⟩ := h.keys
  refine ⟨h.calm.refresh, ⟨keys.filter fun p => !m.isStale p.2, ?_⟩, h.count⟩
  simp only [Lexer.refresh, hkeys]
  rw [List.filter_cons_of_pos (by simp [hs])]

theorem Held.moved {k : SimpleKey} (h : Held m d ks k) (c : Cursor) :
    Held { m with cursor := c } d ks k :=
  ⟨⟨h.calm.flow, h.calm.indent, h.calm.indents, h.calm.optional, h.calm.kinds, h.calm.going⟩, h.keys,
    h.count⟩

/-- The colon after a key puts the mark of a key in front of the token. -/
theorem Held.fetchValue {k : SimpleKey} {kind : TokenKind} (h : Held m (d + 1) (kind :: ks) k) :
    ∃ m', m.fetchValue = .ok m' ∧ Calm m' (d + 1) (.value :: kind :: .key :: ks) ∧
      m'.cursor = m.cursor.next := by
  obtain ⟨calm, ⟨keys, hkeys⟩, hcount⟩ := h
  have found : m.key? = some k := by simp [key?, hkeys]
  have flow : (m.forgetKey.insert k.number ⟨.key, k.mark, k.mark⟩).inFlow = true := by
    simpa [Lexer.insert, forgetKey, Lexer.inFlow] using calm.inFlow
  have kinds : (m.forgetKey.insert k.number ⟨.key, k.mark, k.mark⟩).tokens.map Token.kind =
      kind :: .key :: ks := by
    obtain ⟨token, tokens, htokens, rfl, rfl⟩ := List.map_eq_cons_iff.1 calm.kinds
    simp [Lexer.insert, forgetKey, hcount, htokens]
  have calm' : Calm { m.forgetKey.insert k.number ⟨.key, k.mark, k.mark⟩ with keyAllowed := false }
      (d + 1) (kind :: .key :: ks) :=
    ⟨calm.flow, calm.indent, calm.indents, fun p hp => calm.optional p (List.mem_filter.1 hp).1, kinds,
      calm.going⟩
  exact ⟨_, by rw [Lexer.fetchValue, found]; simp only [flow, if_true]; rfl, calm'.pushChars .value 1, rfl⟩

theorem skipToToken_spaces {b : List Char} {x : Char} (h : m.cursor.rest = b ++ x :: t)
    (hb : ∀ y ∈ b, y = ' ') (hx : isGap x = false) (hash : x ≠ '#') (mark : x ≠ '\ufeff') :
    m.skipToToken = { m with cursor := forward b.length m.cursor } := by
  have first : (m.cursor.peek == '\ufeff') = false := by
    cases b with
    | nil => simp [peek_of_rest h, mark]
    | cons y b => simp [peek_of_rest h, hb y List.mem_cons_self]
  simp only [isGap, Bool.or_eq_false_iff] at hx
  have skip : m.cursor.skip (· == ' ') = forward b.length m.cursor :=
    skip_run h (by simpa using hb) (stops_cons.2 hx.1)
  have peek : (forward b.length m.cursor).peek = x := peek_of_rest (rest_forward h)
  simp [skipToToken, first, skipBlanks, skip, peek, hash, hx.2]

/-- A colon on the same line, and not far from where a possible key began, makes it a key. -/
theorem Held.value {c : Cursor} {n : Nat} {r : Bool} {kind : TokenKind} {s gap : List Char}
    (h : Held m (d + 1) (kind :: ks) ⟨n, r, c.mark⟩) (hm : m.cursor = forward s.length c)
    (hc : c.rest = s ++ (gap ++ ':' :: t)) (hs : ∀ x ∈ s, isBreak x = false)
    (hgap : ∀ x ∈ gap, x = ' ') (hlen : s.length + gap.length ≤ longestKey) :
    ∃ m', Within 1 m m' ∧ At m' (d + 1) (.value :: kind :: .key :: ks) t := by
  have hr : m.cursor.rest = gap ++ ':' :: t := hm ▸ rest_forward hc
  have moved := h.moved (forward gap.length m.cursor)
  have fresh : ({ m with cursor := forward gap.length m.cursor } : Lexer).isStale ⟨n, r, c.mark⟩ = false :=
    isStale_forward (s := s ++ gap) (by rw [hc, List.append_assoc])
      (List.forall_mem_append.2 ⟨hs, fun x hx => hgap x hx ▸ rfl⟩) (by simpa using hlen)
      (by simp [hm, forward_add]) n r
  have held := moved.refresh fresh
  have ready : Ready m _ (d + 1) (kind :: ks) (':' :: t) :=
    ⟨by rw [skipToToken_spaces hr hgap rfl (by decide) (by decide)]; exact moved.calm.dropStale,
      held.calm, rest_forward hr, id⟩
  obtain ⟨m', he, calm, hc'⟩ := held.fetchValue
  exact ⟨m'.refresh, h.calm.round (ready.fetch_value.trans he) calm,
    calm.refresh, gapThen_of_rest (hc' ▸ rest_next ready.rest)⟩

/-- A string before a colon is read as a key, in two rounds. -/
theorem At.key {gap : List Char} (h : At l (d + 1) ks (quoted ps ++ (gap ++ ':' :: t)))
    (ha : l.keyAllowed = true) (hj : PiecesJson ps) (hk : KeyPlain ps gap) :
    ∃ m, Within 2 l m ∧ At m (d + 1) (.value :: .scalar (piecesMeaning ps) false :: .key :: ks) t := by
  obtain ⟨m, ready⟩ := h.ready (front_quoted ps _)
  obtain ⟨keys, hkeys, hs⟩ := ready.calm.saveKey_allowed (ready.keyAllowed ha)
  obtain ⟨m₁, he, calm, hc, hkeys₁, hcount⟩ := ready.calm.fetchQuoted
    (List.forall_mem_cons.2 ⟨rfl, hkeys⟩) hs hj hk.pieces ready.rest
  have solid : ∀ x ∈ quoted ps, isBreak x = false := fun x hx => (hj.isSolid_quoted hk.pieces x hx).2
  have held : Held m₁ (d + 1) (.scalar (piecesMeaning ps) false :: ks) ⟨m.count, false, m.mark⟩ :=
    ⟨calm, ⟨keys, by rw [hkeys₁, calm.flow, ready.calm.flow]⟩, hcount⟩
  have fresh := isStale_forward ready.rest solid (Nat.le_of_add_right_le hk.short) hc m.count false
  have first : Within 1 l m₁.refresh := h.calm.round ((ready.fetch_flow rfl).trans he) calm
  obtain ⟨m', second, at_⟩ := (held.refresh fresh).value hc ready.rest solid hk.spaces hk.short
  exact ⟨m', first.trans second, at_⟩

end ShellCompletion.Document.Yaml.Lexer
