import ShellCompletion.Proofs.Document.Agreement.Numbers
import ShellCompletion.Proofs.Document.Agreement.Tokens
import ShellCompletion.Proofs.Document.Yaml.Making

/-! The nodes in YAML of texts in JSON. The main statement says that a plain text in JSON has a
graph of nodes which stand for their values, the first of them for the value of the text. -/
namespace ShellCompletion.Document

open Json Yaml Make

variable {m : Maker} {ks : List TokenKind}

theorem Json.Source.exists_kind (s : Source) :
    ∃ k kinds, s.kinds = k :: kinds ∧ beginsFlow k = true := by
  cases s <;> exact ⟨_, _, rfl, rfl⟩

/-- What the making of a node for a value has done: the node stands for the value, and the tokens
after those of the value are left. -/
structure Yaml.Makes (nodes : Array Node) (m' : Maker) (f : Nat → Value) (v : Value)
    (ks : List TokenKind) : Prop where
  tokens : m'.tokens.map Token.kind = ks
  grows : Grows nodes m'.nodes f
  new : nodes.size < m'.nodes.size
  value : f nodes.size = v

/-- A scalar is made in one step. -/
theorem makes_scalar {text : String} {plain : Bool} {v : Value} {fuel : Nat} (hf : 0 < fuel)
    (hv : (scalarTag text plain none).Means text.toList v)
    (h : m.tokens.map Token.kind = .scalar text plain :: ks) (block : Bool) :
    ∃ m', Gives (node block false fuel) m m.nodes.size m' ∧ Makes m.nodes m' (fun _ => v) v ks ∧
      ∃ n, n.tag = scalarTag text plain none ∧ m'.nodes = m.nodes.push n := by
  obtain ⟨t, ts, htokens, hkind, hts⟩ := List.map_eq_cons_iff.1 h
  obtain ⟨fuel, rfl⟩ := Nat.exists_eq_add_of_lt hf
  rw [Nat.zero_add]
  exact ⟨_, gives_node_scalar htokens hkind block false fuel,
    ⟨hts, grows_push_scalar rfl hv, by simp, rfl⟩, _, rfl, rfl⟩

theorem means_string (s : String) : (scalarTag s false none).Means s.toList (.str s) := by
  rw [scalarTag, if_neg Bool.false_ne_true, Tag.Means, String.ofList_toList]

theorem means_word {w : List Char} {v : Value} (h : (plainTag w).Means w v) :
    (scalarTag (String.ofList w) true none).Means (String.ofList w).toList v := by
  rwa [scalarTag, if_pos rfl, String.toList_ofList]

/-- The items of a list are made after one another. -/
structure Yaml.MakesItems (nodes : Array Node) (m' : Maker) (f : Nat → Value) (items : List Nat) (vs : List Value)
    (ks : List TokenKind) : Prop where
  tokens : m'.tokens.map Token.kind = ks
  grows : Grows nodes m'.nodes f
  new : ∀ j ∈ items, nodes.size ≤ j ∧ j < m'.nodes.size
  values : items.map f = vs

/-- The members of a mapping are made after one another; their keys are strings. -/
structure Yaml.MakesEntries (nodes : Array Node) (m' : Maker) (f : Nat → Value) (es : List (Nat × Nat))
    (entries : Entries → Entries) (ks : List TokenKind) : Prop where
  tokens : m'.tokens.map Token.kind = ks
  grows : Grows nodes m'.nodes f
  new : ∀ e ∈ es, (nodes.size ≤ e.1 ∧ e.1 < m'.nodes.size) ∧ nodes.size ≤ e.2 ∧ e.2 < m'.nodes.size
  keys : ∀ e ∈ es, (nodeIn m'.nodes e.1).tag = .str
  values : ∀ done, entriesOf f done es = entries done

theorem makes_list {m' : Maker} {t : Token} {ts : List Token} {fuel : Nat} {f : Nat → Value}
    {items : List Nat} {vs : List Value} (h : m.tokens = t :: ts) (hk : t.kind = .flowSequenceStart)
    (hitems : Gives (flowItems t.start true [] fuel)
      { m with tokens := ts, nodes := m.nodes.push ⟨.seq, .sequence [], t.start⟩ } items m')
    (made : MakesItems (m.nodes.push ⟨.seq, .sequence [], t.start⟩) m' f items vs ks) (block : Bool) :
    ∃ m'' g, Gives (node block false (fuel + 1)) m m.nodes.size m'' ∧
      Makes m.nodes m'' g (.list vs) ks := by
  have new : ∀ j ∈ items, m.nodes.size < j ∧ j < m'.nodes.size := fun j hj => by
    have := made.new j hj
    simp only [Array.size_push] at this
    exact this
  have grows := made.grows.sequence rfl new
  refine ⟨_, _, gives_node_sequence h hk hitems block false, made.tokens, grows, ?_, ?_⟩
  · rw [size_withContent]
    exact made.grows.lt_of_push
  · rw [joined_lt (Nat.lt_succ_self _), made.values]

theorem makes_map {m' : Maker} {t : Token} {ts : List Token} {fuel : Nat} {f : Nat → Value}
    {es : List (Nat × Nat)} {entries : Entries → Entries} (h : m.tokens = t :: ts)
    (hk : t.kind = .flowMappingStart) (hes : Gives (flowEntries t.start true [] fuel)
      { m with tokens := ts, nodes := m.nodes.push ⟨.map, .mapping [], t.start⟩ } es m')
    (made : MakesEntries (m.nodes.push ⟨.map, .mapping [], t.start⟩) m' f es entries ks) (block : Bool) :
    ∃ m'' g, Gives (node block false (fuel + 1)) m m.nodes.size m'' ∧
      Makes m.nodes m'' g (.map (entries [])) ks := by
  have new : ∀ e ∈ es, (m.nodes.size < e.1 ∧ e.1 < m'.nodes.size) ∧
      m.nodes.size < e.2 ∧ e.2 < m'.nodes.size := fun e he => by
    have := made.new e he
    simp only [Array.size_push] at this
    exact this
  have grows := made.grows.mapping rfl new made.keys
  refine ⟨_, _, gives_node_mapping h hk hes block false, made.tokens, grows, ?_, ?_⟩
  · rw [size_withContent]
    exact made.grows.lt_of_push
  · rw [joined_lt (Nat.lt_succ_self _), made.values]

/-! ### Items and entries -/

theorem Yaml.Makes.item {m' : Maker} {f : Nat → Value} {v : Value} (h : Makes m.nodes m' f v ks) :
    MakesItems m.nodes m' f [m.nodes.size] [v] ks :=
  ⟨h.tokens, h.grows, List.forall_mem_singleton.2 ⟨Nat.le_refl _, h.new⟩,
    by rw [List.map_singleton, h.value]⟩

theorem Yaml.MakesItems.append {m' m'' : Maker} {f g : Nat → Value} {is js : List Nat}
    {vs ws : List Value} {ls : List TokenKind} (h : MakesItems m.nodes m' f is vs ls)
    (h' : MakesItems m'.nodes m'' g js ws ks) :
    MakesItems m.nodes m'' (joined m'.nodes.size f g) (is ++ js) (vs ++ ws) ks := by
  refine ⟨h'.tokens, h.grows.trans h'.grows, List.forall_mem_append.2 ⟨fun j hj => ?_, fun j hj => ?_⟩, ?_⟩
  · exact ⟨(h.new j hj).1, Nat.lt_of_lt_of_le (h.new j hj).2 h'.grows.size⟩
  · exact ⟨Nat.le_trans h.grows.size (h'.new j hj).1, (h'.new j hj).2⟩
  · rw [List.map_append, ← h.values, ← h'.values]
    congr 1
    · exact List.map_congr_left fun j hj => joined_lt (h.new j hj).2
    · exact List.map_congr_left fun j hj => joined_ge (h'.new j hj).1

theorem Yaml.MakesEntries.append {m' m'' : Maker} {f g : Nat → Value} {es es' : List (Nat × Nat)}
    {entries entries' : Entries → Entries} {ls : List TokenKind}
    (h : MakesEntries m.nodes m' f es entries ls) (h' : MakesEntries m'.nodes m'' g es' entries' ks) :
    MakesEntries m.nodes m'' (joined m'.nodes.size f g) (es ++ es')
      (fun done => entries' (entries done)) ks := by
  refine ⟨h'.tokens, h.grows.trans h'.grows, List.forall_mem_append.2 ⟨fun e he => ?_, fun e he => ?_⟩,
    List.forall_mem_append.2 ⟨fun e he => ?_, h'.keys⟩, fun done => ?_⟩
  · obtain ⟨⟨h₁, h₂⟩, h₃, h₄⟩ := h.new e he
    exact ⟨⟨h₁, Nat.lt_of_lt_of_le h₂ h'.grows.size⟩, h₃, Nat.lt_of_lt_of_le h₄ h'.grows.size⟩
  · obtain ⟨⟨h₁, h₂⟩, h₃, h₄⟩ := h'.new e he
    exact ⟨⟨Nat.le_trans h.grows.size h₁, h₂⟩, Nat.le_trans h.grows.size h₃, h₄⟩
  · rw [nodeIn, h'.grows.old e.1 (h.new e he).1.2]
    exact h.keys e he
  · rw [entriesOf_append,
      entriesOf_congr fun e he => ⟨joined_lt (h.new e he).1.2, joined_lt (h.new e he).2.2⟩,
      entriesOf_congr fun e he => ⟨joined_ge (h'.new e he).1.1, joined_ge (h'.new e he).2.1⟩, h.values,
      h'.values]

/-- An item is made from its value. -/
theorem makes_item {fuel : Nat} {first : Bool} {parting ts : List Token} {kinds : List TokenKind}
    {k : TokenKind} (hk : beginsFlow k = true) {v : Value} (hm : m.tokens = parting ++ ts)
    (hparting : Parting first parting) (h : ts.map Token.kind = k :: kinds)
    (hv : ∀ m : Maker, m.tokens.map Token.kind = k :: kinds →
      ∃ m' f, Gives (node false false fuel) m m.nodes.size m' ∧ Makes m.nodes m' f v ks) :
    ∃ m' f, MakesItems m.nodes m' f [m.nodes.size] [v] ks ∧
      ∀ began done items m'', Gives (flowItems began false (m.nodes.size :: done) fuel) m' items m'' →
        Gives (flowItems began first done (fuel + 1)) m items m'' := by
  obtain ⟨m', f, hm', made⟩ := hv { m with tokens := ts } h
  obtain ⟨t, ts, rfl, ht, -⟩ := List.map_eq_cons_iff.1 h
  exact ⟨m', f, made.item, fun began done items m'' => gives_flowItems_item hm hparting (ht ▸ hk) hm'⟩

/-- A member is made from its key and its value, which come after one another. -/
theorem makes_member {fuel : Nat} (hf : 0 < fuel) {first : Bool} {parting ts : List Token}
    {key : String} {kinds : List TokenKind} {k : TokenKind} (hk : beginsFlow k = true) {v : Value}
    (hm : m.tokens = parting ++ ts) (hparting : Parting first parting)
    (h : ts.map Token.kind = .key :: .scalar key false :: .value :: k :: kinds)
    (hv : ∀ m : Maker, m.tokens.map Token.kind = k :: kinds →
      ∃ m' f, Gives (node false false fuel) m m.nodes.size m' ∧ Makes m.nodes m' f v ks) :
    ∃ m' f, MakesEntries m.nodes m' f [(m.nodes.size, m.nodes.size + 1)] (·.insert (.str key) v) ks ∧
      ∀ began done es m'', Gives (flowEntries began false ((m.nodes.size, m.nodes.size + 1) :: done) fuel)
        m' es m'' → Gives (flowEntries began first done (fuel + 1)) m es m'' := by
  obtain ⟨t, ts, rfl, ht, h⟩ := List.map_eq_cons_iff.1 h
  obtain ⟨m₁, hm₁, made, n, hn, hnodes⟩ :=
    makes_scalar hf (means_string key) (m := { m with tokens := ts }) h false
  obtain ⟨u, ts, rfl, hu, -⟩ := List.map_eq_cons_iff.1 h
  obtain ⟨t', us, ht', hvalue, hus⟩ := List.map_eq_cons_iff.1 made.tokens
  obtain ⟨m₂, f, hm₂, made'⟩ := hv { m₁ with tokens := us } hus
  obtain ⟨w, us, rfl, hw, -⟩ := List.map_eq_cons_iff.1 hus
  have size : m₁.nodes.size = m.nodes.size + 1 := by simp [hnodes]
  have new := made'.new
  simp only [size] at new hm₂
  refine ⟨m₂, joined m₁.nodes.size (fun _ => .str key) f,
    ⟨made'.tokens, made.grows.trans made'.grows, ?_, ?_, fun done => ?_⟩, fun began done es m₃ hes => ?_⟩
  · exact List.forall_mem_singleton.2 ⟨⟨Nat.le_refl _, by omega⟩, by omega, new⟩
  · have old : m₂.nodes[m.nodes.size]? = m₁.nodes[m.nodes.size]? :=
      made'.grows.old m.nodes.size (by simp [size])
    refine List.forall_mem_singleton.2 ?_
    rw [nodeIn, old, hnodes, Array.getElem?_push_size, Option.getD_some, hn]
    rfl
  · have value := made'.value
    simp only [size] at value
    simp only [entriesOf, List.foldl_cons, List.foldl_nil]
    rw [joined_lt (by omega), joined_ge (by omega), value]
  · exact gives_flowEntries_entry hm hparting ht (hu ▸ rfl) hm₁ ht' hvalue (hw ▸ hk) hm₂ hes

mutual

theorem makes_source (s : Json.Source) (hs : s.IsJson) (hp : s.IsPlain) (fuel : Nat)
    (hf : s.kinds.length ≤ fuel) {m : Maker} {ks : List TokenKind}
    (h : m.tokens.map Token.kind = s.kinds ++ ks) (block : Bool) :
    ∃ m' f, Gives (node block false fuel) m m.nodes.size m' ∧ Makes m.nodes m' f s.value ks := by
  cases s with
  | name entry =>
    obtain ⟨m', hm, made, -⟩ := makes_scalar hf (means_word (means_name hs hp)) h block
    exact ⟨m', _, hm, made⟩
  | number n =>
    obtain ⟨m', hm, made, -⟩ := makes_scalar hf (means_word (Numeral.IsJson.means hs hp)) h block
    exact ⟨m', _, hm, made⟩
  | string ps =>
    obtain ⟨m', hm, made, -⟩ := makes_scalar hf (means_string _) h block
    exact ⟨m', _, hm, made⟩
  | emptyList blank =>
    obtain ⟨fuel, rfl⟩ : ∃ n, fuel = n + 1 + 1 := ⟨fuel - 2, by simp [Source.kinds] at hf; omega⟩
    obtain ⟨t, ts, htokens, hkind, hts⟩ := List.map_eq_cons_iff.1 h
    obtain ⟨e, us, rfl, hend, hus⟩ := List.map_eq_cons_iff.1 hts
    exact makes_list htokens hkind (gives_flowItems_end rfl hend true [])
      ⟨hus, .refl _ fun _ => .null, nofun, rfl⟩ block
  | list items =>
    obtain ⟨fuel, rfl⟩ : ∃ n, fuel = n + 1 := ⟨fuel - 1, by simp [Source.kinds] at hf; omega⟩
    obtain ⟨t, ts, htokens, hkind, hts⟩ := List.map_eq_cons_iff.1 h
    obtain ⟨m', f, is, hm, made⟩ := makes_items items hs hp fuel
      (by simp [Source.kinds] at hf; omega)
      (m := { m with tokens := ts, nodes := m.nodes.push ⟨.seq, .sequence [], t.start⟩ })
      (List.nil_append ts).symm parting_first (by simpa using hts) t.start []
    exact makes_list htokens hkind hm made block
  | emptyMap blank =>
    obtain ⟨fuel, rfl⟩ : ∃ n, fuel = n + 1 + 1 := ⟨fuel - 2, by simp [Source.kinds] at hf; omega⟩
    obtain ⟨t, ts, htokens, hkind, hts⟩ := List.map_eq_cons_iff.1 h
    obtain ⟨e, us, rfl, hend, hus⟩ := List.map_eq_cons_iff.1 hts
    exact makes_map htokens hkind (gives_flowEntries_end rfl hend true [])
      ⟨hus, .refl _ fun _ => .null, nofun, nofun, fun _ => rfl⟩ block
  | map members =>
    obtain ⟨fuel, rfl⟩ : ∃ n, fuel = n + 1 := ⟨fuel - 1, by simp [Source.kinds] at hf; omega⟩
    obtain ⟨t, ts, htokens, hkind, hts⟩ := List.map_eq_cons_iff.1 h
    obtain ⟨m', f, es, hm, made⟩ := makes_entries members hs hp fuel
      (by simp [Source.kinds] at hf; omega)
      (m := { m with tokens := ts, nodes := m.nodes.push ⟨.map, .mapping [], t.start⟩ })
      (List.nil_append ts).symm parting_first (by simpa using hts) t.start []
    exact makes_map htokens hkind hm made block

theorem makes_items (xs : Items) (hxs : xs.IsJson) (hp : xs.IsPlain) (fuel : Nat)
    (hf : xs.kinds.length < fuel) {m : Maker} {ks : List TokenKind} {first : Bool}
    {parting ts : List Token} (hm : m.tokens = parting ++ ts) (hparting : Parting first parting)
    (h : ts.map Token.kind = xs.kinds ++ .flowSequenceEnd :: ks) (began : Mark) (done : List Nat) :
    ∃ m' f items, Gives (flowItems began first done fuel) m (done.reverse ++ items) m' ∧
      MakesItems m.nodes m' f items xs.values ks := by
  obtain ⟨fuel, rfl⟩ : ∃ n, fuel = n + 1 := ⟨fuel - 1, by omega⟩
  cases xs with
  | last before item after =>
    obtain ⟨k, kinds, hkinds, hk⟩ := item.exists_kind
    simp only [Items.kinds] at hf
    obtain ⟨m₁, f, made, step⟩ := makes_item hk (v := item.value) hm hparting
      (h.trans (by rw [Items.kinds, hkinds]; rfl)) fun m hm => makes_source item hxs.2.1 hp.2.1 fuel
        (by omega) (hm.trans (by rw [hkinds]; rfl)) false
    obtain ⟨e, us, he, hend, hus⟩ := List.map_eq_cons_iff.1 made.tokens
    obtain ⟨fuel, rfl⟩ : ∃ n, fuel = n + 1 := ⟨fuel - 1, by simp [hkinds] at hf; omega⟩
    refine ⟨{ m₁ with tokens := us }, f, _, ?_, hus, made.grows, made.new, made.values⟩
    rw [← List.reverse_cons]
    exact step began done _ _ (gives_flowItems_end he hend false _)
  | more before item after rest =>
    obtain ⟨k, kinds, hkinds, hk⟩ := item.exists_kind
    simp only [Items.kinds, List.length_append, List.length_cons] at hf
    obtain ⟨m₁, f, made, step⟩ := makes_item hk (v := item.value) hm hparting
      (h.trans (by simp only [Items.kinds, hkinds, List.cons_append, List.append_assoc]; rfl))
      fun m hm => makes_source item hxs.1.2.1 hp.1.2.1 fuel (by omega)
        (hm.trans (by rw [hkinds]; rfl)) false
    obtain ⟨e, us, he, hentry, hus⟩ := List.map_eq_cons_iff.1 made.tokens
    obtain ⟨m₂, g, js, hm₂, made'⟩ := makes_items rest hxs.2 hp.2 fuel (by omega) he
      (parting_comma hentry) hus began (m.nodes.size :: done)
    refine ⟨m₂, joined m₁.nodes.size f g, m.nodes.size :: js, ?_, made.append made'⟩
    rw [List.reverse_cons, List.append_assoc] at hm₂
    exact step began done _ _ hm₂

theorem makes_entries (ms : Members) (hms : ms.IsJson) (hp : ms.IsPlain) (fuel : Nat)
    (hf : ms.kinds.length < fuel) {m : Maker} {ks : List TokenKind} {first : Bool}
    {parting ts : List Token} (hm : m.tokens = parting ++ ts) (hparting : Parting first parting)
    (h : ts.map Token.kind = ms.kinds ++ .flowMappingEnd :: ks) (began : Mark) (done : List (Nat × Nat)) :
    ∃ m' f es, Gives (flowEntries began first done fuel) m (done.reverse ++ es) m' ∧
      MakesEntries m.nodes m' f es ms.entries ks := by
  obtain ⟨fuel, rfl⟩ : ∃ n, fuel = n + 1 := ⟨fuel - 1, by omega⟩
  cases ms with
  | last before key gap inner value after =>
    obtain ⟨k, kinds, hkinds, hk⟩ := value.exists_kind
    simp only [Members.kinds, List.length_cons] at hf
    obtain ⟨m₁, f, made, step⟩ := makes_member (by omega) hk (v := value.value) hm hparting
      (h.trans (by rw [Members.kinds, hkinds]; rfl)) fun m hm => makes_source value hms.2.2.1 hp.2.2.1 fuel
        (by omega) (hm.trans (by rw [hkinds]; rfl)) false
    obtain ⟨e, us, he, hend, hus⟩ := List.map_eq_cons_iff.1 made.tokens
    obtain ⟨fuel, rfl⟩ : ∃ n, fuel = n + 1 := ⟨fuel - 1, by omega⟩
    refine ⟨{ m₁ with tokens := us }, f, _, ?_, hus, made.grows, made.new, made.keys, made.values⟩
    rw [← List.reverse_cons]
    exact step began done _ _ (gives_flowEntries_end he hend false _)
  | more before key gap inner value after rest =>
    obtain ⟨k, kinds, hkinds, hk⟩ := value.exists_kind
    simp only [Members.kinds, List.length_cons, List.length_append] at hf
    obtain ⟨m₁, f, made, step⟩ := makes_member (by omega) hk (v := value.value) hm hparting
      (h.trans (by simp only [Members.kinds, hkinds, List.cons_append, List.append_assoc]; rfl))
      fun m hm => makes_source value hms.1.2.2.1 hp.1.2.2.1 fuel (by omega)
        (hm.trans (by rw [hkinds]; rfl)) false
    obtain ⟨e, us, he, hentry, hus⟩ := List.map_eq_cons_iff.1 made.tokens
    obtain ⟨m₂, g, es, hm₂, made'⟩ := makes_entries rest hms.2 hp.2 fuel (by omega) he
      (parting_comma hentry) hus began ((m.nodes.size, m.nodes.size + 1) :: done)
    refine ⟨m₂, joined m₁.nodes.size f g, (m.nodes.size, m.nodes.size + 1) :: es, ?_, made.append made'⟩
    rw [List.reverse_cons, List.append_assoc] at hm₂
    exact step began done _ _ hm₂

end

/-- A plain text in JSON has nodes that stand for their values; the first is that of the text. -/
theorem Json.Page.IsJson.graph {p : Page} (hp : p.IsJson) (h : p.IsPlain) : ∃ nodes f,
    Yaml.graph p.text = .ok (nodes, some 0) ∧ 0 < nodes.size ∧ (∀ k < nodes.size, Stands nodes f k) ∧
      f 0 = p.value := by
  obtain ⟨ts, hts, hkinds⟩ := hp.tokens h
  obtain ⟨first, ts, rfl, -, hroot⟩ := List.map_eq_cons_iff.1 hkinds
  obtain ⟨k, kinds, he, hk⟩ := p.root.exists_kind
  obtain ⟨t, us, rfl, ht, -⟩ := List.map_eq_cons_iff.1 (hroot.trans (congrArg (· ++ _) he))
  have enough : p.root.kinds.length ≤ 4 * (first :: t :: us).length + 4 := by
    have := congrArg List.length hroot
    simp only [List.length_map, List.length_append] at this
    simp only [List.length_cons] at this ⊢
    omega
  obtain ⟨m, f, hm, made⟩ := makes_source p.root hp.root h.root _ enough
    (m := { tokens := t :: us, fault := none, handles := usualHandles }) hroot true
  obtain ⟨e, rest, hend, hkind, hrest⟩ := List.map_eq_cons_iff.1 made.tokens
  obtain rfl : rest = [] := List.map_eq_nil_iff.1 hrest
  have root := gives_root (t := first) (m := { tokens := first :: t :: us, fault := none }) rfl
    (ht ▸ hk) hm hend hkind
  refine ⟨m.nodes, f, ?_, made.new, fun k hk => made.grows.stands k (Nat.zero_le k) hk, made.value⟩
  rw [Yaml.graph, hts]
  exact congrArg (fun r => r >>= fun r => pure (r.2.nodes, r.1)) root

end ShellCompletion.Document
