import ShellCompletion.Proofs.Document.Yaml.Standing
import ShellCompletion.Proofs.Document.Yaml.Steps

/-! Making the nodes of collections in flow. -/
namespace ShellCompletion.Document.Yaml.Make

variable {m m' m'' : Maker} {t t' : Token} {ts : List Token} {fuel k : Nat} {began : Mark}

theorem gives_peek (h : m.tokens = t :: ts) : Gives peek m t m := by
  refine (gives_get m).bind ?_
  rw [h]
  exact gives_pure t m

theorem gives_take (h : m.tokens = t :: ts) : Gives take m t { m with tokens := ts } := by
  refine (gives_peek h).bind ((gives_modify _ m).bind ?_)
  rw [h]
  exact gives_pure t _

theorem gives_at (h : m.tokens = t :: ts) (p : TokenKind → Bool) : Gives (at_ p) m (p t.kind) m :=
  (gives_peek h).bind (gives_pure _ m)

theorem gives_add (n : Node) : Gives (add n) m m.nodes.size { m with nodes := m.nodes.push n } :=
  (gives_get m).bind ((gives_set m _).bind (gives_pure _ _))

theorem gives_fill (k : Nat) (c : Content) :
    Gives (fill k c) m () { m with nodes := withContent m.nodes k c } :=
  gives_modify _ m

/-- The kinds of tokens that values in flow begin with. -/
def beginsFlow : TokenKind → Bool
  | .scalar _ _ | .flowSequenceStart | .flowMappingStart => true
  | _ => false

theorem ends_of_beginsFlow {k : TokenKind} (h : beginsFlow k = true) :
    isSequenceEnd k = false ∧ isMappingEnd k = false ∧ isFlowEntry k = false ∧ isKey k = false ∧
      isValue k = false := by
  unfold beginsFlow at h
  split at h
  · exact ⟨rfl, rfl, rfl, rfl, rfl⟩
  · decide
  · decide
  · cases h

theorem gives_properties (h : m.tokens = t :: ts) (ht : beginsFlow t.kind = true) :
    Gives properties m {} m := by
  refine (gives_peek h).bind ?_
  unfold beginsFlow at ht
  split at ht
  next hk => rw [hk]; exact gives_pure _ m
  next hk => rw [hk]; exact gives_pure _ m
  next hk => rw [hk]; exact gives_pure _ m
  · cases ht

/-! ### Nodes -/

theorem gives_node_scalar {text : String} {plain : Bool} (h : m.tokens = t :: ts)
    (hk : t.kind = .scalar text plain) (block indentless : Bool) (fuel : Nat) :
    Gives (node block indentless (fuel + 1)) m m.nodes.size
      { m with
        tokens := ts, nodes := m.nodes.push ⟨scalarTag text plain none, .scalar text, t.start⟩ } := by
  rw [node]
  refine (gives_peek h).bind ?_
  simp only [hk]
  refine (gives_properties h (by rw [hk]; rfl)).bind ((gives_pure none m).bind ((gives_peek h).bind ?_))
  simp only [hk]
  exact (gives_take h).bind (gives_add _)

/-- A collection is added before its parts, and gets its content after them. -/
theorem gives_collection {α : Type} {n : Node} {parts : Make α} {a : α} (h : m.tokens = t :: ts)
    (hparts : Gives parts { m with tokens := ts, nodes := m.nodes.push n } a m') (content : α → Content) :
    Gives (do
      let k ← add n
      let c ← take >>= fun _ => parts >>= fun a => pure (content a)
      fill k c
      return k) m m.nodes.size { m' with nodes := withContent m'.nodes m.nodes.size (content a) } := by
  have taken : Gives take { m with nodes := m.nodes.push n } t
      { m with tokens := ts, nodes := m.nodes.push n } := gives_take h
  have made : Gives (take >>= fun _ => parts >>= fun a => pure (content a))
      { m with nodes := m.nodes.push n } (content a) m' :=
    taken.bind (hparts.bind (gives_pure (content a) m'))
  exact (gives_add n).bind (made.bind ((gives_fill m.nodes.size (content a)).bind (gives_pure _ _)))

theorem gives_node_sequence (h : m.tokens = t :: ts) (hk : t.kind = .flowSequenceStart)
    {items : List Nat} (hitems : Gives (flowItems t.start true [] fuel)
      { m with tokens := ts, nodes := m.nodes.push ⟨.seq, .sequence [], t.start⟩ } items m')
    (block indentless : Bool) : Gives (node block indentless (fuel + 1)) m m.nodes.size
      { m' with nodes := withContent m'.nodes m.nodes.size (.sequence items) } := by
  rw [node]
  refine (gives_peek h).bind ?_
  simp only [hk]
  refine (gives_properties h (by rw [hk]; rfl)).bind ((gives_pure none m).bind ((gives_peek h).bind ?_))
  simp only [hk]
  exact gives_collection h hitems .sequence

theorem gives_node_mapping (h : m.tokens = t :: ts) (hk : t.kind = .flowMappingStart)
    {es : List (Nat × Nat)} (hes : Gives (flowEntries t.start true [] fuel)
      { m with tokens := ts, nodes := m.nodes.push ⟨.map, .mapping [], t.start⟩ } es m')
    (block indentless : Bool) : Gives (node block indentless (fuel + 1)) m m.nodes.size
      { m' with nodes := withContent m'.nodes m.nodes.size (.mapping es) } := by
  rw [node]
  refine (gives_peek h).bind ?_
  simp only [hk]
  refine (gives_properties h (by rw [hk]; rfl)).bind ((gives_pure none m).bind ((gives_peek h).bind ?_))
  simp only [hk]
  exact gives_collection h hes .mapping

/-! ### Items and entries -/

/-- The tokens between two items; there are none before the first. -/
def Parting (first : Bool) (ts : List Token) : Prop :=
  ts.map Token.kind = if first then [] else [.flowEntry]

theorem parting_first : Parting true [] := rfl

theorem parting_comma (h : t.kind = .flowEntry) : Parting false [t] := by simp [Parting, h]

/-- Items are parted by a comma, unless the collection ends. -/
theorem gives_parting {α : Type} {first : Bool} {parting : List Token} {isEnd : TokenKind → Bool}
    {fail : Make Unit} {rest : Make α} {a : α} (h : m.tokens = parting ++ ts)
    (hp : Parting first parting) (hts : ts ≠ []) (hend : isEnd .flowEntry = false)
    (hrest : Gives rest { m with tokens := ts } a m') :
    Gives (do
      if !(← at_ isEnd) && !first then
        if ← at_ isFlowEntry then let _ ← take
        else fail
      rest) m a m' := by
  cases first with
  | true =>
    obtain rfl : parting = [] := by simpa [Parting] using hp
    obtain ⟨t, ts, rfl⟩ := List.exists_cons_of_ne_nil hts
    have same : { m with tokens := t :: ts } = m := by rw [← List.nil_append (t :: ts), ← h]
    refine (gives_at h _).bind ?_
    simp only [Bool.not_true, Bool.and_false, Bool.false_eq_true, if_false]
    exact same ▸ hrest
  | false =>
    obtain ⟨entry, rfl, hentry⟩ : ∃ e, parting = [e] ∧ e.kind = .flowEntry := by
      simpa [Parting, List.map_eq_singleton_iff] using hp
    refine (gives_at h _).bind ?_
    simp only [hentry, hend, Bool.not_false, Bool.and_true, if_true]
    refine (gives_at h _).bind ?_
    simp only [hentry, isFlowEntry, if_true]
    exact (gives_take h).bind hrest

theorem gives_flowItems_end (h : m.tokens = t :: ts) (hk : t.kind = .flowSequenceEnd) (first : Bool)
    (done : List Nat) :
    Gives (flowItems began first done (fuel + 1)) m done.reverse { m with tokens := ts } := by
  rw [flowItems]
  refine (gives_at h _).bind ?_
  simp only [hk, isSequenceEnd, Bool.not_true, Bool.false_and, Bool.false_eq_true, if_false]
  refine (gives_peek h).bind ?_
  simp only [hk, if_true]
  exact (gives_take h).bind (gives_pure _ _)

theorem gives_flowItems_item {first : Bool} {parting : List Token} {done items : List Nat}
    (h : m.tokens = parting ++ t :: ts) (hp : Parting first parting) (ht : beginsFlow t.kind = true)
    (hitem : Gives (node false false fuel) { m with tokens := t :: ts } k m')
    (hitems : Gives (flowItems began false (k :: done) fuel) m' items m'') :
    Gives (flowItems began first done (fuel + 1)) m items m'' := by
  rw [flowItems]
  refine gives_parting h hp (List.cons_ne_nil t ts) rfl ((gives_peek rfl).bind ?_)
  simp only [ends_of_beginsFlow ht, Bool.false_eq_true, if_false]
  exact hitem.bind hitems

theorem gives_flowEntries_end (h : m.tokens = t :: ts) (hk : t.kind = .flowMappingEnd) (first : Bool)
    (done : List (Nat × Nat)) :
    Gives (flowEntries began first done (fuel + 1)) m done.reverse { m with tokens := ts } := by
  rw [flowEntries]
  refine (gives_at h _).bind ?_
  simp only [hk, isMappingEnd, Bool.not_true, Bool.false_and, Bool.false_eq_true, if_false]
  refine (gives_peek h).bind ?_
  simp only [hk, if_true]
  exact (gives_take h).bind (gives_pure _ _)

theorem gives_flowEntries_entry {first : Bool} {parting us : List Token} {u v : Token} {j : Nat}
    {done es : List (Nat × Nat)} {m₃ : Maker} (h : m.tokens = parting ++ t :: u :: ts)
    (hp : Parting first parting) (ht : t.kind = .key) (hu : beginsFlow u.kind = true)
    (hkey : Gives (node false false fuel) { m with tokens := u :: ts } k m')
    (h' : m'.tokens = t' :: v :: us) (ht' : t'.kind = .value) (hv : beginsFlow v.kind = true)
    (hvalue : Gives (node false false fuel) { m' with tokens := v :: us } j m'')
    (hes : Gives (flowEntries began false ((k, j) :: done) fuel) m'' es m₃) :
    Gives (flowEntries began first done (fuel + 1)) m es m₃ := by
  have key : isMappingEnd t.kind = false ∧ isKey t.kind = true := by simp [ht, isMappingEnd, isKey]
  have value : isValue t'.kind = true := by rw [ht']; rfl
  rw [flowEntries]
  refine gives_parting h hp (List.cons_ne_nil _ _) rfl ((gives_peek rfl).bind ?_)
  simp only [key, Bool.false_eq_true, if_false, if_true]
  refine (gives_take rfl).bind ((gives_at rfl _).bind ?_)
  rw [if_neg (by simp [ends_of_beginsFlow hu])]
  refine hkey.bind ((gives_peek h').bind ?_)
  rw [if_pos value]
  refine (gives_take h').bind ((gives_at rfl _).bind ?_)
  rw [if_neg (by simp [ends_of_beginsFlow hv])]
  exact hvalue.bind hes

/-! ### Documents -/

/-- At the end of a text no document starts. -/
theorem gives_start_end (h : m.tokens = [t]) (ht : t.kind = .streamEnd) (fuel : Nat) :
    Gives (start fuel) m none { m with tokens := [] } := by
  have skip : Gives (skipEnds fuel) m () m := by
    cases fuel with
    | zero => exact gives_pure _ m
    | succ fuel =>
      rw [skipEnds]
      refine (gives_peek h).bind ?_
      rw [ht]
      exact gives_pure _ m
  refine skip.bind ((gives_peek h).bind ?_)
  rw [ht]
  exact (gives_take h).bind (gives_pure _ _)

/-- The root of a text without directives is that of its only value. -/
theorem gives_root {u : Token} (h : m.tokens = t :: u :: ts) (hu : beginsFlow u.kind = true)
    (hnode : Gives (node true false fuel) { m with tokens := u :: ts, handles := usualHandles } k m')
    (h' : m'.tokens = [t']) (ht' : t'.kind = .streamEnd) :
    Gives (root fuel) m (some k) { m' with tokens := [] } := by
  have value : (isDirective u.kind || u.kind == .documentStart || u.kind == .streamEnd) = false := by
    unfold beginsFlow at hu
    split at hu
    next hk => rw [hk]; rfl
    next hk => rw [hk]; rfl
    next hk => rw [hk]; rfl
    · cases hu
  refine (gives_take h).bind ((gives_peek rfl).bind ?_)
  rw [if_neg (by simp [value])]
  refine (gives_modify _ _).bind (hnode.bind ((gives_pure (some k) m').bind ((gives_peek h').bind ?_)))
  rw [ht']
  exact (gives_start_end h' ht' fuel).bind (gives_pure _ _)

end ShellCompletion.Document.Yaml.Make
