import ShellCompletion.Proofs.Document.Yaml.Keeping

/-! What the nodes of a document stand for. Each node is given a value, and it stands for its value
if that is put together from the values of its parts, which come after it. Nodes of this kind form
no cycles. -/
namespace ShellCompletion.Document.Yaml

/-- The texts of a tag that have a value, whichever node holds them. -/
def Tag.Means (tag : Tag) (s : List Char) (v : Value) : Prop :=
  match tag with
  | null => v = .null
  | bool => ∃ b, boolValue s = .ok b ∧ v = .bool b
  | int => ∃ n, intValue s = .ok n ∧ v = .int n
  | float => ∃ x, (∀ k, floatValue k s = .ok x) ∧ v = .float x
  | str => v = .str (String.ofList s)
  | _ => False

/-- The entries that a mapping gets after those that it has. -/
def entriesOf (f : Nat → Value) (done : Entries) (es : List (Nat × Nat)) : Entries :=
  es.foldl (fun done e => done.insert (f e.1) (f e.2)) done

inductive Stands (nodes : Array Node) (f : Nat → Value) (k : Nat) : Prop
  | scalar (n : Node) (s : String) (node : nodes[k]? = some n) (content : n.content = .scalar s)
      (means : n.tag.Means s.toList (f k))
  | sequence (n : Node) (items : List Nat) (node : nodes[k]? = some n)
      (content : n.content = .sequence items) (tag : n.tag = .seq)
      (later : ∀ j ∈ items, k < j ∧ j < nodes.size) (value : f k = .list (items.map f))
  | mapping (n : Node) (es : List (Nat × Nat)) (node : nodes[k]? = some n)
      (content : n.content = .mapping es) (tag : n.tag = .map)
      (later : ∀ e ∈ es, (k < e.1 ∧ e.1 < nodes.size) ∧ k < e.2 ∧ e.2 < nodes.size)
      (keys : ∀ e ∈ es, (nodeIn nodes e.1).tag = .str) (value : f k = .map (entriesOf f [] es))

variable {nodes nodes' nodes'' : Array Node} {f g : Nat → Value} {k : Nat}

theorem nodeIn_of_getElem? {n : Node} (h : nodes[k]? = some n) : nodeIn nodes k = n := by
  rw [nodeIn, h]
  rfl

theorem entriesOf_congr {es : List (Nat × Nat)} (h : ∀ e ∈ es, g e.1 = f e.1 ∧ g e.2 = f e.2)
    (done : Entries) : entriesOf g done es = entriesOf f done es := by
  induction es generalizing done with
  | nil => rfl
  | cons e es ih =>
    simp only [List.mem_cons, forall_eq_or_imp] at h
    simp only [entriesOf, List.foldl_cons, h.1] at ih ⊢
    exact ih h.2 _

theorem entriesOf_append (es es' : List (Nat × Nat)) (done : Entries) :
    entriesOf f done (es ++ es') = entriesOf f (entriesOf f done es) es' := List.foldl_append

theorem Stands.lt (h : Stands nodes f k) : k < nodes.size := by
  obtain ⟨n, _, node, _⟩ | ⟨n, _, node, _⟩ | ⟨n, _, node, _⟩ := h <;>
    exact (Array.getElem?_eq_some_iff.1 node).1

/-- Only the nodes from a node on count for what it stands for. -/
theorem Stands.congr (h : Stands nodes f k) (hsize : nodes.size ≤ nodes'.size)
    (hnodes : ∀ j, k ≤ j → j < nodes.size → nodes'[j]? = nodes[j]?)
    (hg : ∀ j, k ≤ j → j < nodes.size → g j = f j) : Stands nodes' g k := by
  have here := hnodes k (Nat.le_refl k) h.lt
  have value := hg k (Nat.le_refl k) h.lt
  cases h with
  | scalar n s node content means => exact .scalar n s (here.trans node) content (value ▸ means)
  | sequence n items node content tag later hv =>
    refine .sequence n items (here.trans node) content tag
      (fun j hj => ⟨(later j hj).1, Nat.lt_of_lt_of_le (later j hj).2 hsize⟩) ?_
    rw [value, hv]
    congr 1
    exact List.map_congr_left fun j hj => (hg j (Nat.le_of_lt (later j hj).1) (later j hj).2).symm
  | mapping n es node content tag later keys hv =>
    refine .mapping n es (here.trans node) content tag (fun e he => ?_) (fun e he => ?_) ?_
    · obtain ⟨⟨h₁, h₂⟩, h₃, h₄⟩ := later e he
      exact ⟨⟨h₁, Nat.lt_of_lt_of_le h₂ hsize⟩, h₃, Nat.lt_of_lt_of_le h₄ hsize⟩
    · obtain ⟨⟨h₁, h₂⟩, -⟩ := later e he
      rw [nodeIn, hnodes e.1 (Nat.le_of_lt h₁) h₂]
      exact keys e he
    · rw [value, hv]
      congr 1
      refine (entriesOf_congr (fun e he => ?_) []).symm
      obtain ⟨⟨h₁, h₂⟩, h₃, h₄⟩ := later e he
      exact ⟨hg e.1 (Nat.le_of_lt h₁) h₂, hg e.2 (Nat.le_of_lt h₃) h₄⟩

/-! ### More nodes -/

/-- One function for the numbers below a bound, and another one from there on. -/
def joined (bound : Nat) (f g : Nat → Value) (j : Nat) : Value := if j < bound then f j else g j

theorem joined_lt {bound j : Nat} (h : j < bound) : joined bound f g j = f j := if_pos h

theorem joined_ge {bound j : Nat} (h : bound ≤ j) : joined bound f g j = g j :=
  if_neg (Nat.not_lt.2 h)

/-- Nodes are added that stand for their values. -/
structure Grows (nodes nodes' : Array Node) (f : Nat → Value) : Prop where
  size : nodes.size ≤ nodes'.size
  old : ∀ j < nodes.size, nodes'[j]? = nodes[j]?
  stands : ∀ j, nodes.size ≤ j → j < nodes'.size → Stands nodes' f j

theorem Grows.refl (nodes : Array Node) (f : Nat → Value) : Grows nodes nodes f :=
  ⟨Nat.le_refl _, fun _ _ => rfl, fun _ h h' => absurd h' (Nat.not_lt.2 h)⟩

theorem Grows.trans (h : Grows nodes nodes' f) (h' : Grows nodes' nodes'' g) :
    Grows nodes nodes'' (joined nodes'.size f g) := by
  refine ⟨Nat.le_trans h.size h'.size, fun j hj => ?_, fun j hj hj' => ?_⟩
  · rw [h'.old j (Nat.lt_of_lt_of_le hj h.size), h.old j hj]
  · by_cases hlt : j < nodes'.size
    · exact (h.stands j hj hlt).congr h'.size (fun i _ hi => h'.old i hi) fun i _ hi => joined_lt hi
    · exact (h'.stands j (Nat.not_lt.1 hlt) hj').congr (Nat.le_refl _) (fun _ _ _ => rfl)
        fun i hi _ => joined_ge (Nat.le_trans (Nat.not_lt.1 hlt) hi)

theorem Grows.lt_of_push {n : Node} (h : Grows (nodes.push n) nodes' f) : nodes.size < nodes'.size := by
  have := h.size
  rwa [Array.size_push] at this

theorem grows_push_scalar {n : Node} {s : String} {v : Value} (hc : n.content = .scalar s)
    (hv : n.tag.Means s.toList v) : Grows nodes (nodes.push n) fun _ => v := by
  refine ⟨by simp, fun j hj => by simp [Array.getElem?_push, Nat.ne_of_lt hj], fun j hj hj' => ?_⟩
  obtain rfl : j = nodes.size := by simp at hj'; omega
  exact .scalar n s (by simp) hc hv

/-- A node whose parts are added after it gets its content at last. -/
def withContent (nodes : Array Node) (k : Nat) (c : Content) : Array Node :=
  nodes.modify k fun n => { n with content := c }

theorem size_withContent (c : Content) : (withContent nodes k c).size = nodes.size := by
  simp [withContent]

theorem withContent_ne {c : Content} {j : Nat} (h : j ≠ k) : (withContent nodes k c)[j]? = nodes[j]? := by
  simp [withContent, Array.getElem?_modify, h.symm]

theorem withContent_self {c : Content} (h : (nodeIn nodes k).content = c) :
    withContent nodes k c = nodes := by
  refine Array.ext_getElem? fun j => ?_
  by_cases hj : j = k
  · subst hj
    rw [withContent, Array.getElem?_modify, if_pos rfl]
    cases hn : nodes[j]? with
    | none => rfl
    | some n => rw [← h, nodeIn_of_getElem? hn]; rfl
  · exact withContent_ne hj

theorem Grows.withContent_self {n : Node} (h : Grows (nodes.push n) nodes' f) (c : Content) :
    (withContent nodes' nodes.size c)[nodes.size]? = some { n with content := c } := by
  have here := h.old nodes.size (by simp)
  rw [Array.getElem?_push_size] at here
  simp [withContent, Array.getElem?_modify, here]

/-- The parts of a node come after it, so that its content does not change what they stand for. -/
theorem Grows.filled {n : Node} {c : Content} {v : Value} (h : Grows (nodes.push n) nodes' f)
    (hs : Stands (withContent nodes' nodes.size c) (joined (nodes.size + 1) (fun _ => v) f) nodes.size) :
    Grows nodes (withContent nodes' nodes.size c) (joined (nodes.size + 1) (fun _ => v) f) := by
  have size := h.lt_of_push
  refine ⟨by rw [size_withContent]; omega, fun j hj => ?_, fun j hj hj' => ?_⟩
  · rw [withContent_ne (Nat.ne_of_lt hj), h.old j (by simp; omega), Array.getElem?_push,
      if_neg (Nat.ne_of_lt hj)]
  · obtain rfl | hlt := Nat.eq_or_lt_of_le hj
    · exact hs
    · refine (h.stands j (by simp; omega) (size_withContent c ▸ hj')).congr
        (Nat.le_of_eq (size_withContent c).symm) (fun i hi _ => withContent_ne (by omega)) fun i hi _ => ?_
      exact joined_ge (by omega)

theorem Grows.sequence {n : Node} (h : Grows (nodes.push n) nodes' f) (tag : n.tag = .seq)
    {items : List Nat} (hitems : ∀ j ∈ items, nodes.size < j ∧ j < nodes'.size) :
    Grows nodes (withContent nodes' nodes.size (.sequence items))
      (joined (nodes.size + 1) (fun _ => .list (items.map f)) f) := by
  refine h.filled (.sequence _ items (h.withContent_self _) rfl tag
    (fun j hj => by rw [size_withContent]; exact hitems j hj) ?_)
  rw [joined_lt (Nat.lt_succ_self _)]
  congr 1
  exact List.map_congr_left fun j hj => (joined_ge (hitems j hj).1).symm

theorem Grows.mapping {n : Node} (h : Grows (nodes.push n) nodes' f) (tag : n.tag = .map)
    {es : List (Nat × Nat)}
    (hes : ∀ e ∈ es, (nodes.size < e.1 ∧ e.1 < nodes'.size) ∧ nodes.size < e.2 ∧ e.2 < nodes'.size)
    (keys : ∀ e ∈ es, (nodeIn nodes' e.1).tag = .str) :
    Grows nodes (withContent nodes' nodes.size (.mapping es))
      (joined (nodes.size + 1) (fun _ => .map (entriesOf f [] es)) f) := by
  refine h.filled (.mapping _ es (h.withContent_self _) rfl tag
    (fun e he => by rw [size_withContent]; exact hes e he) (fun e he => ?_) ?_)
  · rw [nodeIn, withContent_ne (Nat.ne_of_gt (hes e he).1.1)]
    exact keys e he
  · rw [joined_lt (Nat.lt_succ_self _)]
    congr 1
    exact (entriesOf_congr (fun e he => ⟨joined_ge (hes e he).1.1, joined_ge (hes e he).2.1⟩) []).symm

end ShellCompletion.Document.Yaml
