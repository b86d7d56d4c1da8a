import ShellCompletion.Proofs.Document.Agreement.Keys

/-! The tokens in YAML of texts in JSON. The main statement says that a plain text in JSON has the
tokens of its tree, and no fault. -/
namespace ShellCompletion.Document

open Text Json

/-! ### The tokens of a tree -/

namespace Json

open Yaml (TokenKind)

mutual

/-- The kinds of the tokens that write a value in flow. -/
def Source.kinds : Source → List TokenKind
  | .name entry => [.scalar (String.ofList entry.1) true]
  | .number n => [.scalar (String.ofList n.text) true]
  | .string ps => [.scalar (piecesMeaning ps) false]
  | .emptyList _ => [.flowSequenceStart, .flowSequenceEnd]
  | .list items => .flowSequenceStart :: (items.kinds ++ [.flowSequenceEnd])
  | .emptyMap _ => [.flowMappingStart, .flowMappingEnd]
  | .map members => .flowMappingStart :: (members.kinds ++ [.flowMappingEnd])

def Items.kinds : Items → List TokenKind
  | .last _ item _ => item.kinds
  | .more _ item _ rest => item.kinds ++ .flowEntry :: rest.kinds

def Members.kinds : Members → List TokenKind
  | .last _ key _ _ value _ => .key :: .scalar (piecesMeaning key) false :: .value :: value.kinds
  | .more _ key _ _ value _ rest =>
    .key :: .scalar (piecesMeaning key) false :: .value :: (value.kinds ++ .flowEntry :: rest.kinds)

end

end Json

namespace Yaml.Lexer

variable {l : Lexer} {d : Nat} {ks : List TokenKind} {b t : List Char}

theorem isGap_of_isBlank (hb : IsBlank b) (ht : '\t' ∉ b) : ∀ x ∈ b, isGap x = true := by
  intro x hx
  have hspace := hb x hx
  simp only [isSpace, Bool.or_eq_true, beq_iff_eq] at hspace
  obtain ((rfl | rfl) | rfl) | rfl := hspace
  all_goals first | rfl | exact absurd hx ht

theorem At.blanks (h : At l d ks (b ++ t)) (hb : IsBlank b) (ht : '\t' ∉ b) : At l d ks t :=
  h.skip (isGap_of_isBlank hb ht)

/-! ### Words -/

theorem isWord_name {entry : List Char × Value} (h : entry ∈ names) (hp : ∀ x, entry.2 ≠ .float x) :
    IsWord entry.1 := by
  simp only [names, List.mem_cons, List.not_mem_nil, or_false] at h
  obtain rfl | rfl | rfl | rfl | rfl | rfl := h
  case inl | inr.inl | inr.inr.inl =>
    exact ⟨List.forall_iff_forall_mem.1 (by decide), .inl ⟨_, _, rfl, by decide⟩⟩
  all_goals exact absurd rfl (hp _)

theorem isWord_numeral {n : Numeral} (hn : n.IsJson) : IsWord n.text := by
  have all : ∀ x ∈ numeralChars, isWordChar x = true := List.forall_iff_forall_mem.1 (by decide)
  refine ⟨fun x hx => all x (hn.mem_numeralChars hx), ?_⟩
  obtain ⟨x, r, hx⟩ := List.exists_cons_of_ne_nil hn.whole_ne_nil
  have digit : isDigit x = true := hn.whole_digits (hx ▸ List.mem_cons_self)
  cases hneg : n.negative with
  | false =>
    exact .inl ⟨x, _, by simp [Numeral.text, Numeral.sign, hneg, hx]; rfl, of_isDigit
      (P := fun x => isIndicator x = false ∧ x ≠ '.' ∧ x ≠ '\ufeff') (by decide) digit⟩
  | true =>
    exact .inr ⟨x, _, by simp [Numeral.text, Numeral.sign, hneg, hx]; rfl,
      of_isDigit (P := (· ≠ '-')) (by decide) digit⟩

/-! ### Trees -/

theorem ends_entry (t : List Char) : Ends (decide (d + 1 ≠ 0)) (',' :: t) :=
  .inr ⟨by simp, ',', t, rfl, .inl rfl⟩

theorem ends_listEnd (t : List Char) : Ends (decide (d + 1 ≠ 0)) (']' :: t) :=
  .inr ⟨by simp, ']', t, rfl, .inr (.inl rfl)⟩

theorem ends_mapEnd (t : List Char) : Ends (decide (d + 1 ≠ 0)) ('}' :: t) :=
  .inr ⟨by simp, '}', t, rfl, .inr (.inr rfl)⟩

/-- The key of a member is read with the blanks around it and around its colon. -/
theorem At.member {before gap inner u : List Char} {key : List Piece}
    (h : At l (d + 1) ks (before ++ (quoted key ++ (gap ++ ':' :: (inner ++ u)))))
    (ha : l.keyAllowed = true) (hbefore : IsBlank before) (hbefore' : '\t' ∉ before)
    (hj : PiecesJson key) (hk : KeyPlain key gap) (hinner : IsBlank inner) (hinner' : '\t' ∉ inner) :
    ∃ m, Within 2 l m ∧ At m (d + 1) (.value :: .scalar (piecesMeaning key) false :: .key :: ks) u := by
  obtain ⟨m, hm, at_⟩ := (h.blanks hbefore hbefore').key ha hj hk
  exact ⟨m, hm, at_.blanks hinner hinner'⟩

mutual

/-- A value before blanks is read as its tokens. -/
theorem At.source (s : Json.Source) (hs : s.IsJson) (hp : s.IsPlain) {l : Lexer} {d : Nat}
    {ks : List TokenKind} {b t : List Char} (hb : IsBlank b) (hb' : '\t' ∉ b)
    (ht : Ends (decide (d ≠ 0)) t) (h : At l d ks (s.text ++ (b ++ t))) :
    ∃ m, Within s.text.length l m ∧ At m d (s.kinds.reverse ++ ks) t := by
  cases s with
  | name entry =>
    have word := isWord_name hs hp
    obtain ⟨m, hm, at_⟩ := h.word word (isGap_of_isBlank hb hb') ht
    exact ⟨m, hm.mono (List.length_pos_iff.2 word.ne_nil), at_⟩
  | number n =>
    have word := isWord_numeral hs
    obtain ⟨m, hm, at_⟩ := h.word word (isGap_of_isBlank hb hb') ht
    exact ⟨m, hm.mono (List.length_pos_iff.2 word.ne_nil), at_⟩
  | string ps =>
    obtain ⟨m, hm, at_⟩ := At.string h hs hp
    exact ⟨m, hm.mono (by simp [Source.text, quoted]), at_.blanks hb hb'⟩
  | emptyList blank =>
    simp only [Source.text, List.cons_append, List.append_assoc, List.nil_append] at h
    obtain ⟨m₁, hm₁, at₁, -⟩ := h.flowStart rfl
    obtain ⟨m₂, hm₂, at₂, -⟩ := (at₁.blanks hs hp).flowEnd rfl
    exact ⟨m₂, (hm₁.trans hm₂).mono (by simp [Source.text]), at₂.blanks hb hb'⟩
  | list items =>
    simp only [Source.text, List.cons_append, List.append_assoc, List.nil_append] at h
    obtain ⟨m₁, hm₁, at₁, -⟩ := h.flowStart rfl
    obtain ⟨m₂, hm₂, at₂⟩ := At.items items hs hp at₁
    obtain ⟨m₃, hm₃, at₃, -⟩ := at₂.flowEnd rfl
    refine ⟨m₃, ((hm₁.trans hm₂).trans hm₃).mono (by simp [Source.text]; omega), ?_⟩
    simpa [Source.kinds] using at₃.blanks hb hb'
  | emptyMap blank =>
    simp only [Source.text, List.cons_append, List.append_assoc, List.nil_append] at h
    obtain ⟨m₁, hm₁, at₁, -⟩ := h.flowStart rfl
    obtain ⟨m₂, hm₂, at₂, -⟩ := (at₁.blanks hs hp).flowEnd rfl
    exact ⟨m₂, (hm₁.trans hm₂).mono (by simp [Source.text]), at₂.blanks hb hb'⟩
  | map members =>
    simp only [Source.text, List.cons_append, List.append_assoc, List.nil_append] at h
    obtain ⟨m₁, hm₁, at₁, ha⟩ := h.flowStart rfl
    obtain ⟨m₂, hm₂, at₂⟩ := At.members members hs hp ha at₁
    obtain ⟨m₃, hm₃, at₃, -⟩ := at₂.flowEnd rfl
    refine ⟨m₃, ((hm₁.trans hm₂).trans hm₃).mono (by simp [Source.text]; omega), ?_⟩
    simpa [Source.kinds] using at₃.blanks hb hb'

theorem At.items (xs : Items) (hxs : xs.IsJson) (hp : xs.IsPlain) {l : Lexer} {d : Nat}
    {ks : List TokenKind} {t : List Char}
    (h : At l (d + 1) ks (xs.text ++ ']' :: t)) :
    ∃ m, Within xs.text.length l m ∧ At m (d + 1) (xs.kinds.reverse ++ ks) (']' :: t) := by
  cases xs with
  | last before item after =>
    simp only [Items.text, List.append_assoc] at h
    obtain ⟨m, hm, at_⟩ := At.source item hxs.2.1 hp.2.1 hxs.2.2 hp.2.2 (ends_listEnd t)
      (h.blanks hxs.1 hp.1)
    exact ⟨m, hm.mono (by simp [Items.text]; omega), at_⟩
  | more before item after rest =>
    simp only [Items.text, List.append_assoc, List.cons_append] at h
    obtain ⟨m₁, hm₁, at₁⟩ := At.source item hxs.1.2.1 hp.1.2.1 hxs.1.2.2 hp.1.2.2 (ends_entry _)
      (h.blanks hxs.1.1 hp.1.1)
    obtain ⟨m₂, hm₂, at₂, -⟩ := at₁.flowEntry
    obtain ⟨m₃, hm₃, at₃⟩ := At.items rest hxs.2 hp.2 at₂
    refine ⟨m₃, ((hm₁.trans hm₂).trans hm₃).mono (by simp [Items.text]; omega), ?_⟩
    simpa [Items.kinds] using at₃

theorem At.members (ms : Members) (hms : ms.IsJson) (hp : ms.IsPlain) {l : Lexer} {d : Nat}
    {ks : List TokenKind} {t : List Char} (ha : l.keyAllowed = true)
    (h : At l (d + 1) ks (ms.text ++ '}' :: t)) :
    ∃ m, Within ms.text.length l m ∧ At m (d + 1) (ms.kinds.reverse ++ ks) ('}' :: t) := by
  cases ms with
  | last before key gap inner value after =>
    obtain ⟨⟨hbefore, hkey, -⟩, hinner, hvalue, hafter⟩ := hms
    obtain ⟨⟨hbefore', hkey'⟩, hinner', hvalue', hafter'⟩ := hp
    simp only [Members.text, List.append_assoc, List.cons_append] at h
    obtain ⟨m₁, hm₁, at₁⟩ := h.member ha hbefore hbefore' hkey hkey' hinner hinner'
    obtain ⟨m₂, hm₂, at₂⟩ := At.source value hvalue hvalue' hafter hafter' (ends_mapEnd t) at₁
    refine ⟨m₂, (hm₁.trans hm₂).mono (by simp [Members.text, quoted]; omega), ?_⟩
    simpa [Members.kinds] using at₂
  | more before key gap inner value after rest =>
    obtain ⟨⟨⟨hbefore, hkey, -⟩, hinner, hvalue, hafter⟩, hrest⟩ := hms
    obtain ⟨⟨⟨hbefore', hkey'⟩, hinner', hvalue', hafter'⟩, hrest'⟩ := hp
    simp only [Members.text, List.append_assoc, List.cons_append] at h
    obtain ⟨m₁, hm₁, at₁⟩ := h.member ha hbefore hbefore' hkey hkey' hinner hinner'
    obtain ⟨m₂, hm₂, at₂⟩ := At.source value hvalue hvalue' hafter hafter' (ends_entry _) at₁
    obtain ⟨m₃, hm₃, at₃, ha₃⟩ := at₂.flowEntry
    obtain ⟨m₄, hm₄, at₄⟩ := At.members rest hrest hrest' ha₃ at₃
    refine ⟨m₄, (((hm₁.trans hm₂).trans hm₃).trans hm₄).mono
      (by simp [Members.text, quoted]; omega), ?_⟩
    simpa [Members.kinds] using at₄

end

end Yaml.Lexer

/-- A plain text in JSON has the tokens of its tree. -/
theorem Json.Page.IsJson.tokens {p : Page} (hp : p.IsJson) (h : p.IsPlain) : ∃ ts,
    Yaml.tokens p.text = (ts, none) ∧
      ts.map Yaml.Token.kind = .streamStart :: (p.root.kinds ++ [.streamEnd]) := by
  have start : Yaml.Lexer.At (.ofText p.text) 0 [.streamStart] p.text :=
    ⟨⟨rfl, rfl, rfl, by simp [Yaml.Lexer.ofText], rfl, rfl⟩, Yaml.gapThen_of_rest rfl⟩
  have root : Yaml.Lexer.At (.ofText p.text) 0 [.streamStart] (p.root.text ++ (p.after ++ [])) := by
    rw [List.append_nil]
    exact start.blanks hp.before h.before
  obtain ⟨m, ⟨n, hn, hrun⟩, at_⟩ := root.source p.root hp.root h.root hp.after h.after (.inl rfl)
  obtain ⟨ts, hts, hend⟩ := at_.finish
  have hlen : p.root.text.length ≤ p.text.length := by simp [Page.text]; omega
  have fuel : p.text.length + 2 = p.text.length + 1 - n + 1 + n := by omega
  exact ⟨ts, by rw [Yaml.tokens, fuel, hrun, hend], by simpa using hts⟩

end ShellCompletion.Document
