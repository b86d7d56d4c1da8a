import ShellCompletion.Proofs.Document.Yaml.Endless
import ShellCompletion.Proofs.Document.Yaml.Keeping

/-! Where the defects of a document in YAML come from. Every step of building values keeps the
nodes that the building began with. The main statement says that a defect which ends the reading
of a document is that of a scalar whose text is no value of its tag, that of mappings which stand
for one another without end, or that of an escape which gives no character. -/
namespace ShellCompletion.Document.Yaml

namespace Build

variable {first : Array Node}

theorem keeps_nodeAt (k : Nat) : Keeps first (nodeAt k) fun n => (nodeIn first k).Kin n :=
  keeps_get.bind fun _ hb => keeps_pure (hb k)

theorem keeps_setContent {k : Nat} {es : List (Nat × Nat)}
    (h : (nodeIn first k).content = .mapping es) (es' : List (Nat × Nat)) :
    Keeps first (setContent k (.mapping es')) fun _ => True :=
  keeps_modify fun _ hb => hb.modify fun _ hn => ⟨.inr ⟨es, es', h, rfl⟩, hn.tag⟩

theorem keeps_setTag_str {k : Nat} (h : (nodeIn first k).tag = .value) :
    Keeps first (setTag k .str) fun _ => True :=
  keeps_modify fun _ hb => hb.modify fun _ hn => ⟨hn.content, .inr ⟨h, rfl⟩⟩

theorem keeps_setCell (k : Nat) (c : Cell) : Keeps first (setCell k c) fun _ => True :=
  keeps_modify fun _ hb => hb

/-- A text is that of the scalar itself, or that of a scalar which stands for the mapping. -/
theorem textOf_cases (fuel k : Nat) (b : Builder) :
    (∃ f, textOf fuel k b = .error (.fault f)) ∨ textOf fuel k b = .error (.defect .endless) ∨
      ∃ s j, textOf fuel k b = .ok (s, b) ∧ (nodeIn b.nodes j).content = .scalar s ∧
        (j = k ∨ ∃ es, (nodeIn b.nodes k).content = .mapping es) := by
  induction fuel generalizing k with
  | zero => exact .inr (.inl rfl)
  | succ fuel ih =>
    rw [textOf_succ]
    cases hc : (b.nodes[k]?.getD default).content with
    | scalar s => exact .inr (.inr ⟨s, k, rfl, hc, .inl rfl⟩)
    | sequence items => exact .inl ⟨_, rfl⟩
    | mapping es =>
      simp only
      cases es.find? fun e => (b.nodes[e.1]?.getD default).tag == .value with
      | none => exact .inl ⟨_, rfl⟩
      | some e =>
        obtain fault | endless | ⟨s, j, hs, hj, _⟩ := ih e.2
        · exact .inl fault
        · exact .inr (.inl endless)
        · exact .inr (.inr ⟨s, j, hs, hj, .inr ⟨es, hc⟩⟩)

theorem keeps_textOf (k : Nat) :
    Keeps first (do textOf ((← get).nodes.size + 1) k) fun s => ∃ j,
      (nodeIn first j).content = .scalar s ∧
        (j = k ∨ ∃ es, (nodeIn first k).content = .mapping es) := by
  refine ⟨fun b s b' hb hr => ?_, fun b d hb hr => ?_⟩
  · replace hr : textOf (b.nodes.size + 1) k b = .ok (s, b') := hr
    obtain ⟨f, h⟩ | h | ⟨t, j, h, hj, hjk⟩ := textOf_cases (b.nodes.size + 1) k b <;>
      rw [h] at hr <;> cases hr
    refine ⟨hb, j, (hb j).content.scalar.1 hj, hjk.imp_right fun ⟨es, hk⟩ => ?_⟩
    exact (hk ▸ (hb k).content).mapping
  · replace hr : textOf (b.nodes.size + 1) k b = .error (.defect d) := hr
    obtain ⟨f, h⟩ | h | ⟨t, j, h, _⟩ := textOf_cases (b.nodes.size + 1) k b <;>
      rw [h] at hr <;> cases hr
    exact .endless k b hb ((textOf_endless k b).1 h) rfl

/-- A defect of a scalar is one of its node, if the tag is still that of the node. -/
theorem keeps_scalar {k : Nat} {tag : Tag} (htag : (nodeIn first k).tag.Kin tag) :
    Keeps first (scalar k tag) fun _ => True := by
  refine (keeps_nodeAt k).bind fun n hn => ?_
  rw [← bind_assoc]
  refine (keeps_textOf k).bind fun s ⟨j, hj, hjk⟩ => ?_
  obtain same | ⟨_, rfl⟩ := htag
  · have refused {d : Defect} (h : tag.Refuses k s.toList d) : Refused first d := by
      rw [same] at h
      obtain rfl | ⟨es, hk⟩ := hjk
      · exact .scalar j s hj h
      · exact .standing k j s es hk hj h
    cases tag with
    | bool => exact (keeps_orDefect fun d hd => refused hd).bind fun _ _ => keeps_pure trivial
    | int => exact (keeps_orDefect fun d hd => refused hd).bind fun _ _ => keeps_pure trivial
    | float => exact (keeps_orDefect fun d hd => refused hd).bind fun _ _ => keeps_pure trivial
    | timestamp =>
      cases hc : n.content with
      | scalar t => exact keeps_orDefect fun d hd => refused hd
      | _ =>
        -- a mapping stands for the text of another node, but a moment is not read off that
        obtain rfl | ⟨es, hk⟩ := hjk
        · rw [hn.content.scalar.2 hj] at hc
          cases hc
        · exact keeps_throw (.moment k es hk same.symm rfl)
    | binary =>
      simp only
      cases binaryValue s.toList with
      | ok v => exact keeps_pure trivial
      | error p => exact keeps_fail _
    | _ => exact keeps_pure trivial
  · exact keeps_pure trivial

theorem keeps_wait (k : Nat) (c : Cell) : Keeps first (do
    setCell k c
    modify fun b => { b with waiting := b.waiting ++ [k] }) fun _ => True :=
  (keeps_setCell k c).bind fun _ _ => keeps_modify fun _ hb => hb

theorem keeps_begin (k : Nat) : Keeps first (begin_ k) fun _ => True := by
  refine keeps_get.bind fun b _ => ?_
  split
  · exact keeps_pure trivial
  refine (keeps_nodeAt k).bind fun n hn => ?_
  have htag := hn.tag
  simp only
  generalize n.tag = tag at htag ⊢
  cases tag with
  | seq => exact keeps_wait k _
  | omap => exact keeps_wait k _
  | pairs => exact keeps_wait k _
  | set => exact keeps_wait k _
  | map => exact keeps_wait k _
  | merge => exact keeps_fail _
  | value => exact keeps_fail _
  | indicator => exact keeps_fail _
  | other name => exact keeps_fail _
  | _ => exact (keeps_scalar htag).bind fun v _ => keeps_setCell k _

/-! ### Merging -/

theorem keeps_entriesAt (k : Nat) : Keeps first (entriesAt k) fun _ => True := by
  refine (keeps_nodeAt k).bind fun n _ => ?_
  cases n.content <;> exact keeps_pure trivial

theorem keeps_merged {inner : Nat → Build Unit}
    (h : ∀ k, Keeps first (inner k) fun _ => True) (began : Mark) (value : Nat) :
    Keeps first (merged inner began value) fun _ => True := by
  refine (keeps_nodeAt value).bind fun v _ => ?_
  cases v.content with
  | scalar s => exact keeps_fail _
  | mapping es => exact (h value).bind fun _ _ => keeps_entriesAt value
  | sequence items =>
    refine (keeps_mapM fun k _ => ?_).bind fun _ _ => keeps_pure trivial
    refine (keeps_nodeAt k).bind fun n _ => ?_
    cases n.content with
    | mapping es => exact (h k).bind fun _ _ => keeps_entriesAt k
    | _ => exact keeps_fail _

theorem keeps_flattenEntries {inner : Nat → Build Unit}
    (h : ∀ k, Keeps first (inner k) fun _ => True) (began : Mark) {k : Nat}
    {es : List (Nat × Nat)} (hk : (nodeIn first k).content = .mapping es)
    (found kept todo : List (Nat × Nat)) :
    Keeps first (flattenEntries inner began k found kept todo) fun _ => True := by
  -- the node was a mapping from the first on, so other entries keep it kin
  induction todo generalizing found kept with
  | nil => exact keeps_setContent hk _
  | cons e rest ih =>
    obtain ⟨key, value⟩ := e
    refine (keeps_nodeAt key).bind fun n hn => ?_
    cases ht : n.tag with
    | merge =>
      refine (keeps_setContent hk _).bind fun _ _ => ?_
      exact (keeps_merged h began value).bind fun more _ => ih (found ++ more) kept
    | value =>
      -- a tag that is still that of a value key has not been changed
      have hv : (nodeIn first key).tag = .value := by
        obtain h | ⟨h, _⟩ := hn.tag
        · exact h ▸ ht
        · exact h
      exact (keeps_setTag_str hv).bind fun _ _ => ih found (kept ++ [(key, value)])
    | _ => exact ih found (kept ++ [(key, value)])

theorem keeps_flatten (fuel k : Nat) : Keeps first (flatten fuel k) fun _ => True := by
  induction fuel generalizing k with
  | zero => exact keeps_pure trivial
  | succ fuel ih =>
    refine (keeps_nodeAt k).bind fun n hn => ?_
    cases hc : n.content with
    | mapping es =>
      obtain ⟨es', hk⟩ := (hc ▸ hn.content).mapping
      exact keeps_flattenEntries ih n.mark hk [] [] es
    | _ => exact keeps_pure trivial

/-! ### Filling -/

theorem keeps_fillEntries (began : Mark) (done : List (Value × Nat)) (es : List (Nat × Nat)) :
    Keeps first (fillEntries began done es) fun _ => True := by
  induction es generalizing done with
  | nil => exact keeps_pure trivial
  | cons e rest ih =>
    obtain ⟨key, value⟩ := e
    refine (keeps_begin key).bind fun _ _ => keeps_get.bind fun b _ => ?_
    split
    · exact (keeps_begin value).bind fun _ _ => ih _
    · exact (keeps_nodeAt key).bind fun n _ => keeps_fail _

theorem keeps_mappingEntries (k : Nat) : Keeps first (mappingEntries k) fun _ => True := by
  refine (keeps_nodeAt k).bind fun n _ => ?_
  cases n.content with
  | mapping es =>
    refine keeps_get.bind fun b _ => (keeps_flatten _ k).bind fun _ _ => ?_
    exact (keeps_entriesAt k).bind fun es _ => keeps_fillEntries n.mark [] es
  | _ => exact keeps_fail _

theorem keeps_onlyEntry (context : Context) (began : Mark) (k : Nat) :
    Keeps first (onlyEntry context began k) fun _ => True := by
  refine (keeps_nodeAt k).bind fun n _ => ?_
  split
  · next key value _ =>
    exact (keeps_begin key).bind fun _ _ => (keeps_begin value).bind fun _ _ => keeps_pure trivial
  · exact keeps_fail _
  · exact keeps_fail _

theorem keeps_fillCell (k : Nat) : Keeps first (fillCell k) fun _ => True := by
  refine (keeps_nodeAt k).bind fun n _ => ?_
  cases n.tag with
  | seq =>
    cases n.content with
    | sequence items =>
      exact (keeps_forM fun j _ => keeps_begin j).bind fun _ _ => keeps_setCell k _
    | _ => exact keeps_fail _
  | map => exact (keeps_mappingEntries k).bind fun _ _ => keeps_setCell k _
  | set => exact (keeps_mappingEntries k).bind fun _ _ => keeps_setCell k _
  | _ =>
    cases n.content with
    | sequence items =>
      exact (keeps_mapM fun j _ => keeps_onlyEntry _ n.mark j).bind fun _ _ => keeps_setCell k _
    | _ => exact keeps_fail _

theorem keeps_fillAll (fuel : Nat) : Keeps first (fillAll fuel) fun _ => True := by
  induction fuel with
  | zero => exact keeps_pure trivial
  | succ fuel ih =>
    refine keeps_get.bind fun b _ => ?_
    cases b.waiting with
    | nil => exact keeps_pure trivial
    | cons k rest =>
      have keeps_rest : Keeps first (modify fun b => { b with waiting := rest }) fun _ => True :=
        keeps_modify fun _ hb => hb
      exact keeps_rest.bind fun _ _ => (keeps_fillCell k).bind fun _ _ => ih

end Build

/-- A defect that ends the building of a value is one of a node. -/
theorem refused_of_valueOfGraph {nodes : Array Node} {root : Nat} {d : Defect}
    (h : valueOfGraph nodes root = .error (.defect d)) : Refused nodes d := by
  have keeps : Keeps nodes (do Build.begin_ root; Build.fillAll (nodes.size + 1)) fun _ => True :=
    (Build.keeps_begin root).bind fun _ _ => Build.keeps_fillAll _
  refine keeps.defect { nodes, cells := nodes.map fun _ => none } d (Kin.refl nodes) ?_
  unfold valueOfGraph at h
  simp only [StateT.run] at h
  generalize (do Build.begin_ root; Build.fillAll (nodes.size + 1) : Build Unit) = build at h ⊢
  cases hb : build { nodes, cells := nodes.map fun _ => none } with
  | error e =>
    rw [hb] at h
    cases h
    rfl
  | ok r =>
    rw [hb] at h
    cases h

/-- Where a defect of some bytes comes from: a node of their document has it, or an escape in
their text gives no character. -/
inductive Arises (bytes : List UInt8) : Defect → Prop
  | node {text : List Char} {nodes : Array Node} {root : Nat} {d : Defect}
      (decoded : Text.decode (encodingOf bytes) 0 bytes = .ok text)
      (graph : graph text = .ok (nodes, some root)) (refused : Refused nodes d) : Arises bytes d
  | escape {text : List Char} {f : Fault} {code : Nat}
      (decoded : Text.decode (encodingOf bytes) 0 bytes = .ok text)
      (graph : graph text = .error f) (problem : f.problem = .noCharacter code) :
      Arises bytes (.noCharacter code)

theorem arises_of_ofBytes {bytes : List UInt8} {d : Defect}
    (h : ofBytes bytes = .error (.defect d)) : Arises bytes d := by
  unfold ofBytes at h
  split at h
  next text ht =>
    unfold parse at h
    split at h
    · cases h
    split at h
    next f hf =>
      unfold Error.ofFault at h
      split at h
      next code hc =>
        cases h
        exact .escape ht hf hc
      next => cases h
    next => cases h
    next nodes root hg =>
      split at h
      next => cases h
      next => cases h
      next d' hd =>
        cases h
        exact .node ht hg (refused_of_valueOfGraph hd)
  next => cases h

end ShellCompletion.Document.Yaml
