import ShellCompletion.Proofs.Document.Yaml.Blanks

/-! Reading the tokens of a text without blocks. Between two tokens nothing counts but the depth of
flow, the tokens so far and the rest of the text, since no key has to come. The main statement says
that the blanks before a token are skipped, and that reading a token is one round of the reader. -/
namespace ShellCompletion.Document.Yaml

open Text Cursor

namespace Lexer

variable {l m : Lexer} {d : Nat} {ks : List TokenKind} {t : List Char}

/-- A lexer that reads a document without blocks: `d` is the depth of flow, and `ks` are the kinds
of the tokens so far, last first. No key has to come. -/
structure Calm (l : Lexer) (d : Nat) (ks : List TokenKind) : Prop where
  flow : l.flow = d
  indent : l.indent = -1
  indents : l.indents = []
  optional : ∀ k ∈ l.keys, k.2.required = false
  kinds : l.tokens.map Token.kind = ks
  going : l.done = false

theorem Calm.unwind (h : Calm l d ks) (column : Int) : l.unwind column = l := by
  simp [Lexer.unwind, h.indents, unwindTo]

theorem Calm.inFlow (h : Calm l d ks) : l.inFlow = decide (d ≠ 0) := by
  rw [Lexer.inFlow, h.flow]
  cases d <;> rfl

theorem Calm.withKeys (h : Calm l d ks) {keys : List (Int × SimpleKey)}
    (hkeys : ∀ k ∈ keys, k.2.required = false) : Calm { l with keys } d ks :=
  ⟨h.flow, h.indent, h.indents, hkeys, h.kinds, h.going⟩

/-! ### Possible keys -/

/-- A lexer with those of its keys that are still possible. -/
def refresh (l : Lexer) : Lexer := { l with keys := l.keys.filter fun k => !l.isStale k.2 }

theorem Calm.dropStale (h : Calm l d ks) : l.dropStale = .ok l.refresh := by
  have none : (l.keys.find? fun k => l.isStale k.2 && k.2.required) = none := by
    rw [List.find?_eq_none]
    intro k hk
    simp [h.optional k hk]
  rw [Lexer.dropStale, none]
  rfl

theorem Calm.refresh (h : Calm l d ks) : Calm l.refresh d ks :=
  h.withKeys fun k hk => h.optional k ((List.mem_filter.1 hk).1)

theorem Calm.dropKey (h : Calm l d ks) :
    ∃ keys, (∀ k ∈ keys, k.2.required = false) ∧ l.dropKey = .ok { l with keys } := by
  unfold Lexer.dropKey
  split
  · next k hk =>
    obtain ⟨before, after, hkeys, -⟩ := List.lookup_eq_some_iff.1 hk
    have hreq : k.required = false := h.optional (l.flow, k) (by simp [hkeys])
    rw [if_neg (by simp [hreq])]
    exact ⟨_, fun p hp => h.optional p ((List.mem_filter.1 hp).1), rfl⟩
  · exact ⟨l.keys, h.optional, rfl⟩

/-- A key that begins outside flow does not have to come, as no block is indented by minus one. -/
theorem Calm.saveKey_allowed (h : Calm l d ks) (ha : l.keyAllowed = true) :
    ∃ keys, (∀ k ∈ keys, k.2.required = false) ∧
      l.saveKey = .ok { l with keys := (l.flow, ⟨l.count, false, l.mark⟩) :: keys } := by
  obtain ⟨keys, hkeys, he⟩ := h.dropKey
  have optional : (!l.inFlow && l.indent == l.column) = false := by simp [h.indent, Lexer.column]
  refine ⟨keys, hkeys, ?_⟩
  rw [Lexer.saveKey, if_pos ha, he, ← optional]
  rfl

theorem Calm.saveKey (h : Calm l d ks) :
    ∃ keys, (∀ k ∈ keys, k.2.required = false) ∧ l.saveKey = .ok { l with keys } := by
  by_cases ha : l.keyAllowed = true
  · obtain ⟨keys, hkeys, he⟩ := h.saveKey_allowed ha
    exact ⟨_, List.forall_mem_cons.2 ⟨rfl, hkeys⟩, he⟩
  · exact ⟨l.keys, h.optional, by rw [Lexer.saveKey, if_neg ha]⟩

/-! ### Blanks -/

/-- What a token may begin with: no blank, no comment, and no mark of byte order. -/
def Front (t : List Char) : Prop := Stops (fun x => isGap x || x == '#' || x == '\ufeff') t

theorem Front.stops (h : Front t) : Stops isGap t := h.mono fun x hx => by simp at hx; simp [hx]

theorem skipBlanks_gap (h : GapThen t l.cursor) (ht : Front t) {fuel : Nat}
    (hf : l.cursor.rest.length < fuel) : ∃ c k,
      skipBlanks fuel l = { l with cursor := c, keyAllowed := k } ∧ c.rest = t ∧
        (l.keyAllowed = true → k = true) := by
  induction fuel generalizing l with
  | zero => exact absurd hf (Nat.not_lt_zero _)
  | succ fuel ih =>
    obtain ⟨spaces, stop⟩ := h.skipSpaces ht.stops
    have hash : ((l.cursor.skip (· == ' ')).peek == '#') = false :=
      spaces.peek (p := (· == '#'))
        (fun _ => of_isGap (P := fun x => (x == '#') = false) (by decide)) rfl
        (ht.mono fun x hx => by simp at hx; simp [hx])
    simp only [skipBlanks, hash, Bool.false_eq_true, if_false]
    split
    · next hb =>
      have shorter : (l.cursor.skip (· == ' ')).lineBreak.2.rest.length < fuel :=
        Nat.lt_of_lt_of_le (length_lineBreak_lt hb)
          (Nat.le_trans (length_skip_le _ l.cursor) (Nat.le_of_lt_succ hf))
      obtain ⟨c, k, he, hr, hk⟩ := ih (l := { l with
        cursor := (l.cursor.skip (· == ' ')).lineBreak.2, keyAllowed := l.keyAllowed || !l.inFlow })
        (spaces.lineBreak ht.stops hb) shorter
      exact ⟨c, k, he, hr, fun h => hk (by simp [h])⟩
    · next hb =>
      refine ⟨_, _, rfl, spaces.rest_eq ?_, id⟩
      have space : ((l.cursor.skip (· == ' ')).peek == ' ') = false :=
        peek_of_stops (p := (· == ' ')) stop rfl
      simp only [isGap, space, Bool.false_or]
      simpa using hb

/-- A calm lexer at blanks before a text. -/
structure At (l : Lexer) (d : Nat) (ks : List TokenKind) (t : List Char) : Prop where
  calm : Calm l d ks
  gap : GapThen t l.cursor

theorem At.skip {b : List Char} (h : At l d ks (b ++ t)) (hb : ∀ x ∈ b, isGap x = true) :
    At l d ks t := by
  obtain ⟨calm, b', hb', hr⟩ := h
  exact ⟨calm, b' ++ b, List.forall_mem_append.2 ⟨hb', hb⟩, by simp [hr]⟩

/-- The lexer is at the next token: the blanks are behind it, and keys that are stale are gone. -/
structure Ready (l m : Lexer) (d : Nat) (ks : List TokenKind) (t : List Char) : Prop where
  skipped : l.skipToToken.dropStale = .ok m
  calm : Calm m d ks
  rest : m.cursor.rest = t
  keyAllowed : l.keyAllowed = true → m.keyAllowed = true

theorem At.ready (h : At l d ks t) (ht : Front t) : ∃ m, Ready l m d ks t := by
  obtain ⟨calm, gap⟩ := h
  have mark : (l.cursor.peek == '\ufeff') = false :=
    gap.peek (p := (· == '\ufeff')) (fun _ => of_isGap (P := fun x => (x == '\ufeff') = false) (by decide))
      rfl (ht.mono fun x hx => by simp at hx; simp [hx])
  obtain ⟨c, k, he, hr, hk⟩ := skipBlanks_gap gap ht (Nat.lt_succ_self _)
  have skip : l.skipToToken = { l with cursor := c, keyAllowed := k } := by
    simp only [skipToToken, mark, Bool.and_false, Bool.false_eq_true, if_false]
    exact he
  have calm' : Calm { l with cursor := c, keyAllowed := k } d ks :=
    ⟨calm.flow, calm.indent, calm.indents, calm.optional, calm.kinds, calm.going⟩
  refine ⟨_, ?_, calm'.refresh, hr, hk⟩
  rw [skip]
  exact calm'.dropStale

/-! ### Rounds -/

/-- Reading comes from one state to another in at most some rounds. -/
def Within (k : Nat) (l m : Lexer) : Prop := ∃ n ≤ k, ∀ fuel, run (fuel + n) l = run fuel m

theorem Within.trans {j k : Nat} {o : Lexer} (h : Within j l m) (h' : Within k m o) :
    Within (j + k) l o := by
  obtain ⟨a, ha, hrun⟩ := h
  obtain ⟨b, hb, hrun'⟩ := h'
  exact ⟨b + a, by omega, fun fuel => by rw [← Nat.add_assoc, hrun, hrun']⟩

theorem Within.mono {j k : Nat} (h : Within j l m) (hjk : j ≤ k) : Within k l m := by
  obtain ⟨n, hn, hrun⟩ := h
  exact ⟨n, Nat.le_trans hn hjk, hrun⟩

-- otherwise the match on what is fetched would evaluate the reading of a whole token
attribute [local irreducible] fetch in
theorem run_succ (fuel : Nat) (l : Lexer) : run (fuel + 1) l =
    if l.done then (l.tokens.reverse, none)
    else match l.fetch with
      | .error f => (l.usableTokens, some f)
      | .ok m =>
        if m.done then (m.tokens.reverse, none)
        else match m.dropStale with
          | .error f => (l.usableTokens, some f)
          | .ok m => run fuel m :=
  rfl

/-- A token is read in one round. -/
theorem Calm.round {d' : Nat} {ks' : List TokenKind} (h : Calm l d ks) (hf : l.fetch = .ok m)
    (hm : Calm m d' ks') : Within 1 l m.refresh := by
  refine ⟨1, Nat.le_refl 1, fun fuel => ?_⟩
  rw [run_succ, if_neg (by simp [h.going]), hf]
  simp only [hm.going, hm.dropStale, Bool.false_eq_true, if_false]

theorem At.round {d' : Nat} {ks' : List TokenKind} {s : List Char} (h : At l d ks s)
    (hf : l.fetch = .ok m) (hm : At m d' ks' t) :
    ∃ m', Within 1 l m' ∧ At m' d' ks' t ∧ m'.keyAllowed = m.keyAllowed :=
  ⟨m.refresh, h.calm.round hf hm.calm, ⟨hm.calm.refresh, hm.gap⟩, rfl⟩

end Lexer

end ShellCompletion.Document.Yaml
