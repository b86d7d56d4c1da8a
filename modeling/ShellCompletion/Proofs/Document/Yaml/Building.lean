import ShellCompletion.Proofs.Document.Yaml.Standing
import ShellCompletion.Proofs.Document.Yaml.Steps

/-! Building the cells of nodes that stand for their values. Every cell is that of its node, unless
its node waits to be filled; what a filled cell refers to is begun. The main statement says that
the building goes through and leaves no node waiting. -/
namespace ShellCompletion.Document.Yaml

variable {nodes : Array Node} {f : Nat → Value} {b : Builder} {k : Nat} {busy : List Nat}

/-! ### Cells -/

namespace Builder

def cellAt (b : Builder) (k : Nat) : Option Cell := b.cells[k]?.join

def withCell (b : Builder) (k : Nat) (c : Cell) : Builder :=
  { b with cells := b.cells.modify k fun _ => some c }

theorem cellAt_withCell_self (c : Cell) (hk : k < b.cells.size) : (b.withCell k c).cellAt k = some c := by
  rw [cellAt, withCell, Array.getElem?_modify, if_pos rfl, Array.getElem?_eq_getElem hk]
  rfl

theorem cellAt_withCell_ne (c : Cell) {j : Nat} (h : j ≠ k) : (b.withCell k c).cellAt j = b.cellAt j := by
  simp [cellAt, withCell, Array.getElem?_modify, h.symm]

theorem lt_of_cellAt (h : (b.cellAt k).isSome) : k < b.cells.size := by
  refine Nat.lt_of_not_le fun hle => ?_
  rw [cellAt, Array.getElem?_eq_none hle] at h
  cases h

theorem isSome_withCell (c : Cell) {j : Nat} (h : (b.cellAt j).isSome) :
    ((b.withCell k c).cellAt j).isSome := by
  by_cases hj : j = k
  · subst hj
    rw [cellAt_withCell_self c (lt_of_cellAt h)]
    rfl
  · rwa [cellAt_withCell_ne c hj]

/-- How much is left to do: nodes that are not begun, and those that wait. -/
def left (b : Builder) : Nat := b.cells.toList.countP (·.isNone) + b.waiting.length

end Builder

theorem countP_modify_le (cells : List (Option Cell)) (k : Nat) (c : Cell) :
    (cells.modify k fun _ => some c).countP (·.isNone) ≤ cells.countP (·.isNone) := by
  induction cells generalizing k with
  | nil => simp
  | cons cell cells ih =>
    cases k with
    | zero => cases cell <;> simp
    | succ k =>
      simp only [List.modify_succ_cons, List.countP_cons]
      exact Nat.add_le_add_right (ih k) _

theorem countP_modify_lt {cells : List (Option Cell)} {k : Nat} (h : cells[k]? = some none) (c : Cell) :
    (cells.modify k fun _ => some c).countP (·.isNone) < cells.countP (·.isNone) := by
  induction cells generalizing k with
  | nil => simp at h
  | cons cell cells ih =>
    cases k with
    | zero =>
      obtain rfl : cell = none := by simpa using h
      simp
    | succ k =>
      simp only [List.modify_succ_cons, List.countP_cons]
      exact Nat.add_lt_add_right (ih (by simpa using h)) _

theorem Builder.left_withCell_le (c : Cell) : (b.withCell k c).left ≤ b.left := by
  simpa [left, withCell, Array.toList_modify] using countP_modify_le b.cells.toList k c

theorem Builder.left_withCell_lt (c : Cell) (hk : k < b.cells.size) (h : b.cellAt k = none) :
    (b.withCell k c).left < b.left := by
  have here : b.cells.toList[k]? = some none := by
    simp only [cellAt, Array.getElem?_eq_getElem hk, Option.join_some] at h
    simp [hk, h]
  simpa [left, withCell, Array.toList_modify] using countP_modify_lt here c

/-! ### What is built -/

/-- The entries that a mapping gets, each with the node of its value. -/
def cellEntries (f : Nat → Value) (done : List (Value × Nat)) (es : List (Nat × Nat)) :
    List (Value × Nat) :=
  es.foldl (fun done e => insertKey done (f e.1) e.2) done

/-- The cell of a node that is filled. -/
def filledCell (nodes : Array Node) (f : Nat → Value) (k : Nat) : Cell :=
  match (nodeIn nodes k).content with
  | .scalar _ => .value (f k)
  | .sequence items => .list items
  | .mapping es => .map (cellEntries f [] es)

theorem filledCell_scalar {s : String} (h : (nodeIn nodes k).content = .scalar s) :
    filledCell nodes f k = .value (f k) := by
  rw [filledCell, h]

theorem filledCell_sequence {items : List Nat} (h : (nodeIn nodes k).content = .sequence items) :
    filledCell nodes f k = .list items := by
  rw [filledCell, h]

theorem filledCell_mapping {es : List (Nat × Nat)} (h : (nodeIn nodes k).content = .mapping es) :
    filledCell nodes f k = .map (cellEntries f [] es) := by
  rw [filledCell, h]

/-- Some nodes are busy: they are collections that are not filled. The cells of all others are
filled, and what they refer to is begun. -/
structure Building (nodes : Array Node) (f : Nat → Value) (busy : List Nat) (b : Builder) : Prop where
  kept : b.nodes = nodes
  size : b.cells.size = nodes.size
  collections : ∀ k ∈ busy, k < nodes.size ∧ ∀ s, (nodeIn nodes k).content ≠ .scalar s
  filled : ∀ k c, b.cellAt k = some c → k ∉ busy →
    c = filledCell nodes f k ∧ ∀ j ∈ c.parts, (b.cellAt j).isSome

/-- Filling a node ends its being busy. -/
theorem Building.withCell {busy' : List Nat} (h : Building nodes f busy b)
    (hsub : ∀ j ∈ busy, j = k ∨ j ∈ busy') (hsub' : ∀ j ∈ busy', j ∈ busy)
    (hparts : ∀ j ∈ (filledCell nodes f k).parts, (b.cellAt j).isSome) :
    Building nodes f busy' (b.withCell k (filledCell nodes f k)) := by
  refine ⟨h.kept, by simp [Builder.withCell, h.size], fun j hj => h.collections j (hsub' j hj),
    fun j c hc hj => ?_⟩
  by_cases hjk : j = k
  · subst hjk
    have size : (b.withCell j (filledCell nodes f j)).cells.size = b.cells.size := Array.size_modify
    have hlt := Builder.lt_of_cellAt (Option.isSome_of_eq_some hc)
    rw [Builder.cellAt_withCell_self _ (size ▸ hlt)] at hc
    obtain rfl := Option.some.inj hc
    exact ⟨rfl, fun i hi => Builder.isSome_withCell _ (hparts i hi)⟩
  · rw [Builder.cellAt_withCell_ne _ hjk] at hc
    have old := h.filled j c hc fun hb => (hsub j hb).elim hjk hj
    exact ⟨old.1, fun i hi => Builder.isSome_withCell _ (old.2 i hi)⟩

/-- A collection that is begun is busy. -/
theorem Building.wait (h : Building nodes f (busy ++ b.waiting) b) (hk : k < nodes.size)
    (hc : ∀ s, (nodeIn nodes k).content ≠ .scalar s) (c : Cell) :
    Building nodes f (busy ++ (b.waiting ++ [k]))
      { b.withCell k c with waiting := b.waiting ++ [k] } := by
  refine ⟨h.kept, by simp [Builder.withCell, h.size], fun j hj => ?_, fun j c' hc' hj => ?_⟩
  · rw [← List.append_assoc, List.mem_append, List.mem_singleton] at hj
    obtain hj | rfl := hj
    · exact h.collections j hj
    · exact ⟨hk, hc⟩
  · have hne : j ≠ k := by
      rintro rfl
      simp at hj
    have here : b.cellAt j = some c' := (Builder.cellAt_withCell_ne c hne).symm.trans hc'
    have old := h.filled j c' here fun hb =>
      hj (by rw [← List.append_assoc]; exact List.mem_append_left _ hb)
    exact ⟨old.1, fun i hi => Builder.isSome_withCell c (old.2 i hi)⟩

namespace Build

theorem gives_nodeAt (h : Building nodes f busy b) (k : Nat) : Gives (nodeAt k) b (nodeIn nodes k) b :=
  (gives_get b).bind (by rw [h.kept]; exact gives_pure _ b)

theorem gives_setCell (k : Nat) (c : Cell) : Gives (setCell k c) b () (b.withCell k c) :=
  gives_modify _ b

theorem gives_orDefect {α : Type} {x : Except Defect α} {a : α} (h : x = .ok a) :
    Gives (orDefect x) b a b := by
  rw [h]
  exact gives_pure a b

/-- The value of a scalar is what its text means. -/
theorem gives_scalar (h : Building nodes f busy b) {s : String} {v : Value}
    (hc : (nodeIn nodes k).content = .scalar s) (hv : (nodeIn nodes k).tag.Means s.toList v) :
    Gives (scalar k (nodeIn nodes k).tag) b v b := by
  have text (fuel : Nat) : Gives (textOf (fuel + 1) k) b s b := by
    rw [textOf]
    refine (gives_nodeAt h k).bind ?_
    rw [hc]
    exact gives_pure s b
  refine (gives_nodeAt h k).bind ((gives_get b).bind ((text _).bind ?_))
  generalize (nodeIn nodes k).tag = tag at hv
  cases tag
  case null =>
    obtain rfl : v = .null := hv
    exact gives_pure _ b
  case bool =>
    obtain ⟨x, hx, rfl⟩ := hv
    exact (gives_orDefect hx).bind (gives_pure _ b)
  case int =>
    obtain ⟨x, hx, rfl⟩ := hv
    exact (gives_orDefect hx).bind (gives_pure _ b)
  case float =>
    obtain ⟨x, hx, rfl⟩ := hv
    exact (gives_orDefect (hx k)).bind (gives_pure _ b)
  case str =>
    obtain rfl : v = .str (String.ofList s.toList) := hv
    exact gives_pure _ b
  all_goals exact hv.elim

/-- What a step may do: cells stay begun, and no more is left to do. -/
structure Goes (b b' : Builder) : Prop where
  begun : ∀ j, (b.cellAt j).isSome → (b'.cellAt j).isSome
  left : b'.left ≤ b.left

theorem Goes.refl (b : Builder) : Goes b b := ⟨fun _ => id, Nat.le_refl _⟩

theorem Goes.trans {b' b'' : Builder} (h : Goes b b') (h' : Goes b' b'') : Goes b b'' :=
  ⟨fun j hj => h'.begun j (h.begun j hj), Nat.le_trans h'.left h.left⟩

theorem goes_withCell (k : Nat) (c : Cell) : Goes b (b.withCell k c) :=
  ⟨fun _ => Builder.isSome_withCell c, Builder.left_withCell_le c⟩

theorem gives_begin_again (hcell : (b.cellAt k).isSome) : Gives (begin_ k) b () b := by
  refine (gives_get b).bind ?_
  rw [if_pos (by exact hcell)]
  exact gives_pure _ b

/-- A scalar is begun with its value. -/
theorem gives_begin_scalar (h : Building nodes f busy b) (hcell : b.cellAt k = none) {s : String}
    {v : Value} (hc : (nodeIn nodes k).content = .scalar s)
    (hv : (nodeIn nodes k).tag.Means s.toList v) :
    Gives (begin_ k) b () (b.withCell k (.value v)) := by
  have value : Gives (do setCell k (.value (← scalar k (nodeIn nodes k).tag))) b ()
      (b.withCell k (.value v)) := (gives_scalar h hc hv).bind (gives_setCell k (.value v))
  refine (gives_get b).bind ?_
  rw [if_neg (by rw [← Builder.cellAt, hcell]; exact Bool.false_ne_true)]
  refine (gives_nodeAt h k).bind ?_
  generalize (nodeIn nodes k).tag = tag at hv value
  cases tag
  case null | bool | int | float | str => exact value
  all_goals exact hv.elim

/-- A collection is begun by waiting. -/
theorem gives_begin_collection (h : Building nodes f busy b) (hcell : b.cellAt k = none)
    (htag : (nodeIn nodes k).tag = .seq ∨ (nodeIn nodes k).tag = .map) :
    ∃ c, Gives (begin_ k) b () { b.withCell k c with waiting := b.waiting ++ [k] } := by
  have start : ¬(b.cells[k]?.join.isSome = true) := by
    rw [← Builder.cellAt, hcell]
    exact Bool.false_ne_true
  obtain htag | htag := htag
  · refine ⟨.list [], (gives_get b).bind ?_⟩
    rw [if_neg start]
    refine (gives_nodeAt h k).bind ?_
    rw [htag]
    exact (gives_setCell k _).bind (gives_modify _ _)
  · refine ⟨.map [], (gives_get b).bind ?_⟩
    rw [if_neg start]
    refine (gives_nodeAt h k).bind ?_
    rw [htag]
    exact (gives_setCell k _).bind (gives_modify _ _)

/-- A node is begun: a scalar gets its value, and a collection waits. -/
theorem gives_begin (hall : ∀ k < nodes.size, Stands nodes f k)
    (h : Building nodes f (busy ++ b.waiting) b) (hk : k < nodes.size) :
    ∃ b', Gives (begin_ k) b () b' ∧ Building nodes f (busy ++ b'.waiting) b' ∧ Goes b b' ∧
      (b'.cellAt k).isSome := by
  have hsize : k < b.cells.size := h.size.symm ▸ hk
  cases hcell : b.cellAt k with
  | some c =>
    have begun := Option.isSome_of_eq_some hcell
    exact ⟨b, gives_begin_again begun, h, .refl b, begun⟩
  | none =>
    have collection (htag : (nodeIn nodes k).tag = .seq ∨ (nodeIn nodes k).tag = .map)
        (hc : ∀ s, (nodeIn nodes k).content ≠ .scalar s) :
        ∃ b', Gives (begin_ k) b () b' ∧ Building nodes f (busy ++ b'.waiting) b' ∧ Goes b b' ∧
          (b'.cellAt k).isSome := by
      obtain ⟨c, hb⟩ := gives_begin_collection h hcell htag
      refine ⟨_, hb, h.wait hk hc c, ⟨fun j hj => Builder.isSome_withCell c hj, ?_⟩,
        Option.isSome_of_eq_some (Builder.cellAt_withCell_self c hsize)⟩
      have := Builder.left_withCell_lt c hsize hcell
      simp only [Builder.left, Builder.withCell, List.length_append, List.length_singleton] at this ⊢
      omega
    cases hall k hk with
    | scalar n s node content means =>
      obtain rfl := nodeIn_of_getElem? node
      have cell : filledCell nodes f k = .value (f k) := filledCell_scalar content
      have filled : Building nodes f (busy ++ b.waiting) (b.withCell k (filledCell nodes f k)) :=
        h.withCell (fun j hj => .inr hj) (fun j hj => hj) (by rw [cell]; exact nofun)
      rw [cell] at filled
      exact ⟨_, gives_begin_scalar h hcell content means, filled, goes_withCell k _,
        Option.isSome_of_eq_some (Builder.cellAt_withCell_self _ hsize)⟩
    | sequence n items node content tag later value =>
      obtain rfl := nodeIn_of_getElem? node
      exact collection (.inl tag) (by simp [content])
    | mapping n es node content tag later keys value =>
      obtain rfl := nodeIn_of_getElem? node
      exact collection (.inr tag) (by simp [content])

/-! ### Filling -/

section

variable (hall : ∀ k < nodes.size, Stands nodes f k)
include hall

theorem gives_forM_begin (h : Building nodes f (busy ++ b.waiting) b) {items : List Nat}
    (hitems : ∀ j ∈ items, j < nodes.size) :
    ∃ b', Gives (items.forM begin_) b () b' ∧ Building nodes f (busy ++ b'.waiting) b' ∧ Goes b b' ∧
      ∀ j ∈ items, (b'.cellAt j).isSome := by
  obtain ⟨b', hb, ⟨building, goes⟩, begun, -⟩ :=
    gives_forM (P := fun b' => Building nodes f (busy ++ b'.waiting) b' ∧ Goes b b')
      (Q := fun j b' => (b'.cellAt j).isSome) ⟨h, .refl b⟩ fun j hj b₁ ⟨building, goes⟩ => by
        obtain ⟨b₂, hb, building', goes', begun⟩ := gives_begin hall building (hitems j hj)
        exact ⟨b₂, hb, ⟨building', goes.trans goes'⟩, begun, goes'.begun⟩
  exact ⟨b', hb, building, goes, begun⟩

/-- A key that is begun has its value, as strings never wait. -/
theorem cellAt_key (h : Building nodes f busy b) (htag : (nodeIn nodes k).tag = .str)
    (hk : k < nodes.size) (begun : (b.cellAt k).isSome) : b.cellAt k = some (.value (f k)) := by
  obtain ⟨c, hc⟩ := Option.isSome_iff_exists.1 begun
  cases hall k hk with
  | scalar n s node content means =>
    obtain rfl := nodeIn_of_getElem? node
    obtain ⟨rfl, -⟩ := h.filled k c hc fun hb => (h.collections k hb).2 s content
    rw [hc, filledCell_scalar content]
  | sequence n items node content tag later value =>
    obtain rfl := nodeIn_of_getElem? node
    rw [htag] at tag
    cases tag
  | mapping n es node content tag later keys value =>
    obtain rfl := nodeIn_of_getElem? node
    rw [htag] at tag
    cases tag

/-- The entries of a mapping get their keys, and their values are begun. -/
theorem gives_fillEntries (began : Mark) {es : List (Nat × Nat)} (done : List (Value × Nat))
    (h : Building nodes f (busy ++ b.waiting) b)
    (hes : ∀ e ∈ es, e.1 < nodes.size ∧ e.2 < nodes.size ∧ (nodeIn nodes e.1).tag = .str) :
    ∃ b', Gives (fillEntries began done es) b (cellEntries f done es) b' ∧
      Building nodes f (busy ++ b'.waiting) b' ∧ Goes b b' ∧ ∀ e ∈ es, (b'.cellAt e.2).isSome := by
  induction es generalizing b done with
  | nil => exact ⟨b, gives_pure _ b, h, .refl b, nofun⟩
  | cons e es ih =>
    simp only [List.mem_cons, forall_eq_or_imp] at hes
    obtain ⟨⟨hkey, hvalue, htag⟩, hes⟩ := hes
    obtain ⟨b₁, hb₁, building₁, goes₁, begun₁⟩ := gives_begin hall h hkey
    obtain ⟨b₂, hb₂, building₂, goes₂, begun₂⟩ := gives_begin hall building₁ hvalue
    obtain ⟨b₃, hb₃, building₃, goes₃, begun₃⟩ := ih (insertKey done (f e.1) e.2) building₂ hes
    refine ⟨b₃, ?_, building₃, (goes₁.trans goes₂).trans goes₃,
      List.forall_mem_cons.2 ⟨goes₃.begun _ begun₂, begun₃⟩⟩
    rw [fillEntries]
    refine hb₁.bind ((gives_get b₁).bind ?_)
    have key : b₁.cells[e.1]?.join = some (.value (f e.1)) := cellAt_key hall building₁ htag hkey begun₁
    rw [key]
    exact hb₂.bind hb₃

end

/-- Where every key is a string there is nothing to merge. -/
theorem gives_flattenEntries (h : Building nodes f busy b) (inner : Nat → Build Unit) (began : Mark)
    {rest : List (Nat × Nat)} (kept : List (Nat × Nat))
    (hrest : ∀ e ∈ rest, (nodeIn nodes e.1).tag = .str) :
    Gives (flattenEntries inner began k [] kept rest) b ()
      { b with nodes := withContent b.nodes k (.mapping (kept ++ rest)) } := by
  induction rest generalizing kept with
  | nil =>
    rw [List.append_nil]
    exact gives_modify _ b
  | cons e rest ih =>
    simp only [List.mem_cons, forall_eq_or_imp] at hrest
    rw [flattenEntries]
    refine (gives_nodeAt h e.1).bind ?_
    rw [hrest.1]
    have := ih (kept ++ [e]) hrest.2
    rwa [List.append_assoc] at this

theorem gives_flatten (h : Building nodes f busy b) {es : List (Nat × Nat)}
    (hc : (nodeIn nodes k).content = .mapping es) (hes : ∀ e ∈ es, (nodeIn nodes e.1).tag = .str)
    (fuel : Nat) : Gives (flatten (fuel + 1) k) b () b := by
  rw [flatten]
  refine (gives_nodeAt h k).bind ?_
  rw [hc]
  have same : ({ b with nodes := nodes } : Builder) = b := by rw [← h.kept]
  have flat := gives_flattenEntries (k := k) h (flatten fuel) (nodeIn nodes k).mark [] hes
  rw [List.nil_append, h.kept, withContent_self hc, same] at flat
  exact flat

/-- The entries of a mapping are filled from those that its node has. -/
theorem gives_mappingEntries (h : Building nodes f busy b) {es : List (Nat × Nat)}
    (hc : (nodeIn nodes k).content = .mapping es) (hes : ∀ e ∈ es, (nodeIn nodes e.1).tag = .str)
    {done : List (Value × Nat)} {b' : Builder}
    (hfill : Gives (fillEntries (nodeIn nodes k).mark [] es) b done b') :
    Gives (mappingEntries k) b done b' := by
  have entries : Gives (entriesAt k) b es b := by
    refine (gives_nodeAt h k).bind ?_
    rw [hc]
    exact gives_pure es b
  refine (gives_nodeAt h k).bind ?_
  rw [hc]
  exact (gives_get b).bind ((gives_flatten h hc hes _).bind (entries.bind hfill))

theorem exists_of_mem_insertKey {es : List (Value × Nat)} {key : Value} {v : Nat} {p : Value × Nat}
    (h : p ∈ insertKey es key v) : p.2 = v ∨ ∃ q ∈ es, q.2 = p.2 := by
  induction es with
  | nil =>
    rw [insertKey, List.mem_singleton] at h
    exact .inl (by rw [h])
  | cons e es ih =>
    rw [insertKey] at h
    split at h
    · obtain rfl | h := List.mem_cons.1 h
      · exact .inl rfl
      · exact .inr ⟨p, List.mem_cons_of_mem e h, rfl⟩
    · obtain rfl | h := List.mem_cons.1 h
      · exact .inr ⟨p, List.mem_cons_self, rfl⟩
      · obtain hv | ⟨q, hq, he⟩ := ih h
        · exact .inl hv
        · exact .inr ⟨q, List.mem_cons_of_mem e hq, he⟩

/-- A filled mapping refers to the values of its entries only. -/
theorem exists_of_mem_cellEntries {es : List (Nat × Nat)} {done : List (Value × Nat)} {p : Value × Nat}
    (h : p ∈ cellEntries f done es) : (∃ q ∈ done, q.2 = p.2) ∨ ∃ e ∈ es, e.2 = p.2 := by
  induction es generalizing done with
  | nil => exact .inl ⟨p, h, rfl⟩
  | cons e es ih =>
    obtain ⟨q, hq, hqp⟩ | ⟨e', he', h⟩ := ih h
    · obtain hv | ⟨r, hr, hrq⟩ := exists_of_mem_insertKey hq
      · exact .inr ⟨e, List.mem_cons_self, by rw [← hqp, hv]⟩
      · exact .inl ⟨r, hr, hrq.trans hqp⟩
    · exact .inr ⟨e', List.mem_cons_of_mem e he', h⟩

theorem exists_of_mem_parts {es : List (Nat × Nat)} {j : Nat}
    (h : j ∈ (Cell.map (cellEntries f [] es)).parts) : ∃ e ∈ es, e.2 = j := by
  obtain ⟨p, hp, rfl⟩ := List.mem_map.1 h
  obtain ⟨q, hq, -⟩ | h := exists_of_mem_cellEntries hp
  · cases hq
  · exact h

/-- What a filled cell refers to comes after its node. -/
theorem lt_of_mem_parts (h : Stands nodes f k) {j : Nat} (hj : j ∈ (filledCell nodes f k).parts) :
    k < j ∧ j < nodes.size := by
  cases h with
  | scalar n s node content means =>
    obtain rfl := nodeIn_of_getElem? node
    rw [filledCell_scalar content] at hj
    cases hj
  | sequence n items node content tag later value =>
    obtain rfl := nodeIn_of_getElem? node
    rw [filledCell_sequence content] at hj
    exact later j hj
  | mapping n es node content tag later keys value =>
    obtain rfl := nodeIn_of_getElem? node
    rw [filledCell_mapping content] at hj
    obtain ⟨e, he, rfl⟩ := exists_of_mem_parts hj
    exact (later e he).2

/-- A collection that does not wait any more is filled. -/
theorem gives_fillCell (hall : ∀ k < nodes.size, Stands nodes f k)
    (h : Building nodes f (k :: b.waiting) b) :
    ∃ b', Gives (fillCell k) b () b' ∧ Building nodes f b'.waiting b' ∧ Goes b b' := by
  obtain ⟨hk, hc⟩ := h.collections k List.mem_cons_self
  have busy : Building nodes f ([k] ++ b.waiting) b := h
  -- filling the cell is the last step
  have last {b' : Builder} (building : Building nodes f ([k] ++ b'.waiting) b') (goes : Goes b b')
      (hparts : ∀ j ∈ (filledCell nodes f k).parts, (b'.cellAt j).isSome) :
      Building nodes f b'.waiting (b'.withCell k (filledCell nodes f k)) ∧
        Goes b (b'.withCell k (filledCell nodes f k)) :=
    ⟨building.withCell (fun j hj => List.mem_cons.1 hj) (fun j hj => List.mem_cons_of_mem k hj) hparts,
      goes.trans (goes_withCell k _)⟩
  cases hall k hk with
  | scalar n s node content means =>
    obtain rfl := nodeIn_of_getElem? node
    exact absurd content (hc s)
  | sequence n items node content tag later value =>
    obtain rfl := nodeIn_of_getElem? node
    have cell : filledCell nodes f k = .list items := filledCell_sequence content
    obtain ⟨b', hb, building, goes, begun⟩ := gives_forM_begin hall busy fun j hj => (later j hj).2
    obtain ⟨building', goes'⟩ := last building goes (by rw [cell]; exact begun)
    refine ⟨_, ?_, building', goes'⟩
    rw [cell, fillCell]
    refine (gives_nodeAt h k).bind ?_
    rw [tag, content]
    exact hb.bind (gives_setCell k _)
  | mapping n es node content tag later keys value =>
    obtain rfl := nodeIn_of_getElem? node
    have cell : filledCell nodes f k = .map (cellEntries f [] es) := filledCell_mapping content
    obtain ⟨b', hb, building, goes, begun⟩ := gives_fillEntries hall (nodeIn nodes k).mark [] busy
      fun e he => ⟨(later e he).1.2, (later e he).2.2, keys e he⟩
    have parts : ∀ j ∈ (filledCell nodes f k).parts, (b'.cellAt j).isSome := by
      rw [cell]
      intro j hj
      obtain ⟨e, he, rfl⟩ := exists_of_mem_parts hj
      exact begun e he
    obtain ⟨building', goes'⟩ := last building goes parts
    refine ⟨_, ?_, building', goes'⟩
    rw [cell, fillCell]
    refine (gives_nodeAt h k).bind ?_
    rw [tag]
    exact (gives_mappingEntries h content keys hb).bind (gives_setCell k _)

/-- Filling goes on until no node waits. -/
theorem gives_fillAll (hall : ∀ k < nodes.size, Stands nodes f k) {fuel : Nat} (hf : b.left < fuel)
    (h : Building nodes f b.waiting b) :
    ∃ b', Gives (fillAll fuel) b () b' ∧ Building nodes f [] b' ∧ Goes b b' := by
  induction fuel generalizing b with
  | zero => exact absurd hf (Nat.not_lt_zero _)
  | succ fuel ih =>
    cases hw : b.waiting with
    | nil =>
      refine ⟨b, (gives_get b).bind ?_, hw ▸ h, .refl b⟩
      rw [hw]
      exact gives_pure _ b
    | cons k rest =>
      have here : Building nodes f (k :: rest) { b with waiting := rest } :=
        ⟨h.kept, h.size, hw ▸ h.collections, hw ▸ h.filled⟩
      obtain ⟨b₁, hb₁, building, goes⟩ := gives_fillCell (b := { b with waiting := rest }) hall here
      have less : ({ b with waiting := rest } : Builder).left < b.left := by
        simp [Builder.left, hw]
      obtain ⟨b₂, hb₂, building', goes'⟩ :=
        ih (Nat.lt_of_le_of_lt goes.left (Nat.lt_of_lt_of_le less (Nat.le_of_lt_succ hf))) building
      have popped : Goes b { b with waiting := rest } := ⟨fun _ => id, Nat.le_of_lt less⟩
      refine ⟨b₂, (gives_get b).bind ?_, building', (popped.trans goes).trans goes'⟩
      rw [hw]
      exact (gives_modify _ b).bind (hb₁.bind hb₂)

/-- Nodes that stand for their values are built from a root on: the cells that come from it are
filled, and what they refer to is begun. -/
theorem gives_build (hall : ∀ k < nodes.size, Stands nodes f k) {root : Nat} (hroot : root < nodes.size) :
    ∃ b, Gives (do
        begin_ root
        fillAll (nodes.size + 1)) { nodes, cells := nodes.map fun _ => none } () b ∧
      Building nodes f [] b ∧ (b.cellAt root).isSome := by
  have unbegun (k : Nat) : Builder.cellAt { nodes, cells := nodes.map fun _ => none } k = none := by
    rw [Builder.cellAt, Array.getElem?_map]
    cases nodes[k]? <;> rfl
  have start : Building nodes f ([] ++ []) { nodes, cells := nodes.map fun _ => none } :=
    ⟨rfl, by simp, nofun, fun k c hc => by rw [unbegun] at hc; cases hc⟩
  have left : Builder.left { nodes, cells := nodes.map fun _ => none } ≤ nodes.size := by
    simp only [Builder.left, List.length_nil, Nat.add_zero]
    exact Nat.le_trans List.countP_le_length (by simp)
  obtain ⟨b, hb, building, goes, begun⟩ :=
    gives_begin (b := { nodes, cells := nodes.map fun _ => none }) hall start hroot
  obtain ⟨b', hb', building', goes'⟩ :=
    gives_fillAll hall (Nat.lt_succ_of_le (Nat.le_trans goes.left left)) building
  exact ⟨b', hb.bind hb', building', goes'.begun root begun⟩

end Build

end ShellCompletion.Document.Yaml
