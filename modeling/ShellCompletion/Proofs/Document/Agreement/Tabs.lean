import ShellCompletion.Proofs.Document.Agreement.Tokens
import ShellCompletion.Proofs.Document.Yaml.Making

/-! Collections that are indented with tabs. The main statement says that such a text is refused in
YAML, although tabs are blanks in JSON. -/
namespace ShellCompletion.Document.Yaml

open Text Cursor

variable {text : List Char}

/-- A text that begins with a collection, and in which the first thing after the bracket that is
not a space or a break is a tab. -/
inductive Tabbed : List Char → Prop
  | intro (before blanks rest : List Char) (bracket : Char) (hb : bracket = '[' ∨ bracket = '\x7b')
      (hbefore : ∀ x ∈ before, isGap x = true) (hblanks : ∀ x ∈ blanks, isGap x = true) :
      Tabbed (before ++ bracket :: (blanks ++ '\t' :: rest))

namespace Lexer

variable {l : Lexer} {d : Nat} {ks : List TokenKind} {b t : List Char}

/-- No token begins with a tab. -/
theorem At.tab (h : At l d ks ('\t' :: t)) :
    ∃ mark, l.fetch = .error ⟨some .nextToken, none, .cannotStart '\t', mark⟩ := by
  obtain ⟨m, ready⟩ := h.ready (stops_cons.2 (by decide))
  refine ⟨m.mark, ?_⟩
  rw [fetch, ready.skipped]
  simp [bind, Except.bind, ready.calm.unwind, peek_of_rest ready.rest, endChar, beginsPlain, isBlankOrEnd,
    isSpaceOrEnd, isIndicator]

end Lexer

/-- A tab stops the tokens of a text after those of its beginning and of the bracket. -/
theorem Tabbed.tokens (h : Tabbed text) : ∃ t u n mark,
    tokens text = ([t, u].take n, some ⟨some .nextToken, none, .cannotStart '\t', mark⟩) ∧
      t.kind = .streamStart ∧ (u.kind = .flowSequenceStart ∨ u.kind = .flowMappingStart) := by
  obtain ⟨before, blanks, rest, bracket, hb, hbefore, hblanks⟩ := h
  obtain ⟨k, hx, hk⟩ : ∃ k, Lexer.flowFetch? bracket = some (fun l => l.fetchFlowStart k) ∧
      (k = .flowSequenceStart ∨ k = .flowMappingStart) := by
    obtain rfl | rfl := hb
    · exact ⟨_, rfl, .inl rfl⟩
    · exact ⟨_, rfl, .inr rfl⟩
  generalize htext : before ++ bracket :: (blanks ++ '\t' :: rest) = text
  have start : Lexer.At (.ofText text) 0 [.streamStart] (before ++ bracket :: (blanks ++ '\t' :: rest)) :=
    ⟨⟨rfl, rfl, rfl, by simp [Lexer.ofText], rfl, rfl⟩, gapThen_of_rest htext.symm⟩
  obtain ⟨m, ⟨n, hn, hrun⟩, at_, -⟩ := (start.skip hbefore).flowStart hx
  obtain ⟨mark, hf⟩ := (at_.skip hblanks).tab
  obtain ⟨u, us, htokens, hu, hus⟩ := List.map_eq_cons_iff.1 at_.calm.kinds
  obtain ⟨t, rfl, ht⟩ := List.map_eq_singleton_iff.1 hus
  refine ⟨t, u, m.usable, mark, ?_, ht, hu ▸ hk⟩
  have fuel : text.length + 2 = text.length + 1 - n + 1 + n := by omega
  rw [Yaml.tokens, fuel, hrun, Lexer.run_succ, if_neg (by simp [at_.calm.going]), hf]
  simp [Lexer.usableTokens, htokens]

theorem Tabbed.graph (h : Tabbed text) :
    ∃ mark, graph text = .error ⟨some .nextToken, none, .cannotStart '\t', mark⟩ := by
  obtain ⟨t, u, n, mark, htokens, ht, hu⟩ := h.tokens
  refine ⟨mark, ?_⟩
  rw [Yaml.graph, htokens]
  obtain _ | _ | n := n
  · rfl
  · rfl
  · obtain ⟨k, start, stop⟩ := u
    simp only [List.take_succ_cons, List.take_nil]
    obtain rfl | rfl := hu
    · rfl
    · rfl

/-- A text that is indented with tabs is refused, and not for a defect. -/
theorem Tabbed.parse (h : Tabbed text) : ∃ e, parse text = .error e ∧ ∀ d, e ≠ .defect d := by
  obtain ⟨mark, hgraph⟩ := h.graph
  rw [Yaml.parse]
  split
  · exact ⟨_, rfl, nofun⟩
  · rw [hgraph]
    exact ⟨_, rfl, nofun⟩

end ShellCompletion.Document.Yaml
