import ShellCompletion.Document.Yaml.Read

/-! Steps of building values that keep the nodes of a document. While values are built, nodes
change in two ways only: the entries of a mapping are put in another order or replaced, and a
value key becomes a string. A step keeps the nodes if it changes them in no other way and meets
no defect but one of the nodes that the building began with. -/
namespace ShellCompletion.Document.Yaml

/-- The node of a number. -/
def nodeIn (nodes : Array Node) (k : Nat) : Node := nodes[k]?.getD default

/-! ### What stays of the nodes -/

/-- The contents are equal, or both are mappings. -/
def Content.Kin (c c' : Content) : Prop := c' = c ∨ ∃ es es', c = .mapping es ∧ c' = .mapping es'

/-- The tags are equal, or a value key has become a string. -/
def Tag.Kin (t t' : Tag) : Prop := t' = t ∨ t = .value ∧ t' = .str

structure Node.Kin (n n' : Node) : Prop where
  content : n.content.Kin n'.content
  tag : n.tag.Kin n'.tag

/-- Each node is kin to the one of its number. -/
def Kin (nodes nodes' : Array Node) : Prop := ∀ k, (nodeIn nodes k).Kin (nodeIn nodes' k)

theorem Kin.refl (nodes : Array Node) : Kin nodes nodes := fun _ => ⟨.inl rfl, .inl rfl⟩

theorem Content.Kin.scalar {c c' : Content} (h : c.Kin c') {s : String} :
    c' = .scalar s ↔ c = .scalar s := by
  obtain rfl | ⟨_, _, rfl, rfl⟩ := h <;> simp

theorem Content.Kin.mapping {c : Content} {es : List (Nat × Nat)} (h : c.Kin (.mapping es)) :
    ∃ es', c = .mapping es' := by
  obtain rfl | ⟨es', _, rfl, _⟩ := h
  · exact ⟨es, rfl⟩
  · exact ⟨es', rfl⟩

theorem Kin.modify {first nodes : Array Node} (h : Kin first nodes) {k : Nat} {f : Node → Node}
    (hf : ∀ n, (nodeIn first k).Kin n → (nodeIn first k).Kin (f n)) :
    Kin first (nodes.modify k f) := by
  intro j
  have hj := h j
  unfold nodeIn at hj hf ⊢
  rw [Array.getElem?_modify]
  split
  · next hkj =>
    subst hkj
    cases hn : nodes[k]? with
    | none => simpa [hn] using hj
    | some n => exact hf n (by simpa [hn] using hj)
  · exact hj

/-! ### Defects of nodes -/

/-- A text is no value of a tag. The tags of truth values, numbers and moments refuse texts. -/
def Tag.Refuses (tag : Tag) (k : Nat) (s : List Char) (d : Defect) : Prop :=
  match tag with
  | bool => boolValue s = .error d
  | int => intValue s = .error d
  | float => floatValue k s = .error d
  | timestamp => timestampValue s = .error d
  | _ => False

/-- A node has the defect: the tag of a scalar refuses its text, the tag of a mapping the text of
a scalar that the mapping stands for, or the tag of a mapping is that of a moment. Or the text of a
node is not found in however many steps, as mappings stand for one another. -/
inductive Refused (nodes : Array Node) (d : Defect) : Prop
  | scalar (k : Nat) (s : String) (content : (nodeIn nodes k).content = .scalar s)
      (refuses : (nodeIn nodes k).tag.Refuses k s.toList d)
  | standing (k j : Nat) (s : String) (es : List (Nat × Nat))
      (mapping : (nodeIn nodes k).content = .mapping es)
      (content : (nodeIn nodes j).content = .scalar s)
      (refuses : (nodeIn nodes k).tag.Refuses k s.toList d)
  | moment (k : Nat) (es : List (Nat × Nat)) (mapping : (nodeIn nodes k).content = .mapping es)
      (tag : (nodeIn nodes k).tag = .timestamp) (defect : d = .momentOfMapping)
  | endless (k : Nat) (b : Builder) (kin : Kin nodes b.nodes)
      (forever : ∀ fuel, Build.textOf fuel k b = .error (.defect .endless)) (defect : d = .endless)

/-! ### Steps of building -/

/-- A step keeps the nodes kin to the first ones, ends in something with a property, and meets
only defects of the first nodes. -/
structure Keeps {α : Type} (first : Array Node) (m : Build α) (Q : α → Prop) : Prop where
  ok : ∀ b a b', Kin first b.nodes → m b = .ok (a, b') → Kin first b'.nodes ∧ Q a
  defect : ∀ b d, Kin first b.nodes → m b = .error (.defect d) → Refused first d

section

variable {α β : Type} {first : Array Node} {m : Build α} {Q : α → Prop}

theorem keeps_pure {a : α} (h : Q a) : Keeps first (pure a) Q := by
  refine ⟨fun b a' b' hb hr => ?_, fun b d _ hr => ?_⟩
  · cases hr
    exact ⟨hb, h⟩
  · cases hr

theorem Keeps.bind {f : α → Build β} {R : β → Prop} (hm : Keeps first m Q)
    (hf : ∀ a, Q a → Keeps first (f a) R) : Keeps first (m >>= f) R := by
  refine ⟨fun b c b' hb hr => ?_, fun b d hb hr => ?_⟩
  · cases h : m b with
    | error e => simp [Bind.bind, StateT.bind, Except.bind, h] at hr
    | ok r =>
      obtain ⟨a, b₁⟩ := r
      obtain ⟨hb₁, ha⟩ := hm.ok b a b₁ hb h
      refine (hf a ha).ok b₁ c b' hb₁ ?_
      simpa [Bind.bind, StateT.bind, Except.bind, h] using hr
  · cases h : m b with
    | error e =>
      refine hm.defect b d hb ?_
      simpa [Bind.bind, StateT.bind, Except.bind, h] using hr
    | ok r =>
      obtain ⟨a, b₁⟩ := r
      obtain ⟨hb₁, ha⟩ := hm.ok b a b₁ hb h
      refine (hf a ha).defect b₁ d hb₁ ?_
      simpa [Bind.bind, StateT.bind, Except.bind, h] using hr

theorem Keeps.mono {R : α → Prop} (hm : Keeps first m Q) (h : ∀ a, Q a → R a) : Keeps first m R :=
  ⟨fun b a b' hb hr => (hm.ok b a b' hb hr).imp_right (h a), hm.defect⟩

theorem keeps_fail (f : Fault) : Keeps first (Build.fail f : Build α) Q :=
  ⟨fun _ _ _ _ hr => (nomatch hr), fun _ _ _ hr => (nomatch hr)⟩

theorem keeps_get : Keeps first (get : Build Builder) fun b => Kin first b.nodes := by
  refine ⟨fun b a b' hb hr => ?_, fun b d _ hr => ?_⟩
  · cases hr
    exact ⟨hb, hb⟩
  · cases hr

theorem keeps_modify {g : Builder → Builder} (h : ∀ b, Kin first b.nodes → Kin first (g b).nodes) :
    Keeps first (modify g : Build Unit) fun _ => True := by
  refine ⟨fun b a b' hb hr => ?_, fun b d _ hr => ?_⟩
  · cases hr
    exact ⟨h b hb, trivial⟩
  · cases hr

theorem keeps_throw {d : Defect} (h : Refused first d) :
    Keeps first (throw (.defect d) : Build α) Q := by
  refine ⟨fun _ _ _ _ hr => (nomatch hr), fun _ d _ hr => ?_⟩
  cases hr
  exact h

theorem keeps_orDefect {x : Except Defect α} (h : ∀ d, x = .error d → Refused first d) :
    Keeps first (Build.orDefect x) fun _ => True := by
  cases x with
  | ok a => exact keeps_pure trivial
  | error d => exact keeps_throw (h d rfl)

theorem keeps_forM {f : α → Build PUnit} {xs : List α}
    (h : ∀ x ∈ xs, Keeps first (f x) fun _ => True) : Keeps first (xs.forM f) fun _ => True := by
  induction xs with
  | nil => exact keeps_pure trivial
  | cons x xs ih =>
    exact (h x List.mem_cons_self).bind fun _ _ => ih fun y hy => h y (List.mem_cons_of_mem x hy)

theorem keeps_mapM {f : α → Build β} {xs : List α}
    (h : ∀ x ∈ xs, Keeps first (f x) fun _ => True) : Keeps first (xs.mapM f) fun _ => True := by
  induction xs with
  | nil => exact keeps_pure trivial
  | cons x xs ih =>
    rw [List.mapM_cons]
    refine (h x List.mem_cons_self).bind fun _ _ => ?_
    refine (ih fun y hy => h y (List.mem_cons_of_mem x hy)).bind fun _ _ => ?_
    exact keeps_pure trivial

end

end ShellCompletion.Document.Yaml
