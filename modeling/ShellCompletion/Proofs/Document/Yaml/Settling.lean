import ShellCompletion.Proofs.Document.Yaml.Building

/-! The values of cells that are filled. What a cell refers to comes after its node, so that its
parts are settled when its value is asked for. The main statement says that the value of such nodes
is what their root stands for. -/
namespace ShellCompletion.Document.Yaml

variable {nodes : Array Node} {f : Nat → Value} {b : Builder} {k : Nat} {s s' : Settled}

/-! ### The value of a cell -/

theorem mapM_eq_some_map {α β : Type} {g : α → Option β} {h : α → β} {xs : List α}
    (hg : ∀ x ∈ xs, g x = some (h x)) : xs.mapM g = some (xs.map h) := by
  induction xs with
  | nil => rfl
  | cons x xs ih =>
    simp only [List.mem_cons, forall_eq_or_imp] at hg
    rw [List.mapM_cons, hg.1, ih hg.2]
    rfl

theorem map_insertKey (es : List (Value × Nat)) (key : Value) (j : Nat) :
    (insertKey es key j).map (fun e => (e.1, f e.2)) =
      insertKey (es.map fun e => (e.1, f e.2)) key (f j) := by
  induction es with
  | nil => rfl
  | cons e es ih =>
    simp only [insertKey, List.map_cons]
    split
    · rfl
    · rw [List.map_cons, ih]

theorem map_cellEntries (done : List (Value × Nat)) (es : List (Nat × Nat)) :
    (cellEntries f done es).map (fun e => (e.1, f e.2)) =
      entriesOf f (done.map fun e => (e.1, f e.2)) es := by
  induction es generalizing done with
  | nil => rfl
  | cons e es ih =>
    have := ih (insertKey done (f e.1) e.2)
    rwa [map_insertKey] at this

/-- A filled cell whose parts have their values has its own. -/
theorem value?_filledCell (h : Stands nodes f k) {valueAt : Nat → Option Value}
    (hparts : ∀ j ∈ (filledCell nodes f k).parts, valueAt j = some (f j)) :
    (filledCell nodes f k).value? valueAt = some (f k) := by
  cases h with
  | scalar n s node content means =>
    obtain rfl := nodeIn_of_getElem? node
    rw [filledCell_scalar content]
    rfl
  | sequence n items node content tag later value =>
    obtain rfl := nodeIn_of_getElem? node
    rw [filledCell_sequence content] at hparts ⊢
    have hparts : ∀ j ∈ items, valueAt j = some (f j) := hparts
    rw [Cell.value?, mapM_eq_some_map hparts, value]
    rfl
  | mapping n es node content tag later keys value =>
    obtain rfl := nodeIn_of_getElem? node
    rw [filledCell_mapping content] at hparts ⊢
    have hparts : ∀ e ∈ cellEntries f [] es, ((e.1, ·) <$> valueAt e.2) = some (e.1, f e.2) :=
      fun e he => by rw [hparts e.2 (List.mem_map_of_mem he)]; rfl
    have entries : (cellEntries f [] es).map (fun e => (e.1, f e.2)) = entriesOf f [] es :=
      map_cellEntries [] es
    rw [value, ← entries, Cell.value?]
    exact congrArg (Value.map <$> ·) (mapM_eq_some_map hparts)

/-! ### Settling -/

/-- From a node on, the nodes that are settled have their values. -/
def Right (f : Nat → Value) (s : Settled) (k : Nat) : Prop :=
  ∀ j, k ≤ j → ∀ v, s[j]?.join = some v → v = some (f j)

theorem Right.mono {j : Nat} (h : Right f s k) (hj : k ≤ j) : Right f s j :=
  fun i hi => h i (Nat.le_trans hj hi)

/-- A node is settled, and those after it may be. -/
structure Settles (f : Nat → Value) (k : Nat) (s s' : Settled) : Prop where
  size : s'.size = s.size
  before : ∀ j < k, s'[j]? = s[j]?
  right : Right f s' k
  here : s'.valueAt k = some (f k)
  kept : ∀ j, s.valueAt j = some (f j) → s'.valueAt j = some (f j)

theorem valueAt_congr {j : Nat} (h : s'[j]? = s[j]?) : s'.valueAt j = s.valueAt j := by
  rw [Settled.valueAt, h, Settled.valueAt]

/-- While the parts of a node are settled, nothing before them changes. -/
structure Inside (f : Nat → Value) (k : Nat) (s s' : Settled) : Prop where
  size : s'.size = s.size
  before : ∀ j ≤ k, s'[j]? = s[j]?
  right : Right f s' (k + 1)

theorem Inside.settles {s'' : Settled} {j : Nat} (h : Inside f k s s') (hj : k < j)
    (hs : Settles f j s' s'') : Inside f k s s'' := by
  refine ⟨hs.size.trans h.size, fun i hi => ?_, fun i hi v hv => ?_⟩
  · rw [hs.before i (Nat.lt_of_le_of_lt hi hj), h.before i hi]
  · by_cases hlt : i < j
    · exact h.right i hi v (hs.before i hlt ▸ hv)
    · exact hs.right i (Nat.not_lt.1 hlt) v hv

/-- A node gets its value after its parts. -/
theorem Inside.finish (h : Inside f k (s.modify k fun _ => some none) s') (hk : k < s.size)
    (kept : ∀ j ≠ k, s.valueAt j = some (f j) → s'.valueAt j = some (f j)) :
    Settles f k s (s'.modify k fun _ => some (some (f k))) := by
  have other {t : Settled} (v : Option (Option Value)) {j : Nat} (hj : j ≠ k) :
      (t.modify k fun _ => v)[j]? = t[j]? := by
    simp [Array.getElem?_modify, hj.symm]
  have hk' : k < s'.size := by rwa [h.size, Array.size_modify]
  have here : (s'.modify k fun _ => some (some (f k)))[k]? = some (some (some (f k))) := by
    rw [Array.getElem?_modify, if_pos rfl, Array.getElem?_eq_getElem hk']
    rfl
  have here' : Settled.valueAt (s'.modify k fun _ => some (some (f k))) k = some (f k) := by
    rw [Settled.valueAt, here]
    rfl
  refine ⟨?_, fun j hj => ?_, fun j hj v hv => ?_, here', fun j hv => ?_⟩
  · rw [Array.size_modify, h.size, Array.size_modify]
  · rw [other _ (Nat.ne_of_lt hj), h.before j (Nat.le_of_lt hj), other _ (Nat.ne_of_lt hj)]
  · obtain rfl | hlt := Nat.eq_or_lt_of_le hj
    · rw [here] at hv
      exact (Option.some.inj hv).symm
    · rw [other _ (Nat.ne_of_gt hlt)] at hv
      exact h.right j hlt v hv
  · by_cases hj : j = k
    · exact hj ▸ here'
    · rw [valueAt_congr (other _ hj)]
      exact kept j hj hv

/-- A node that stands for its value is settled with it, once its cell and those of its parts are
filled. -/
theorem gives_settle (hall : ∀ k < nodes.size, Stands nodes f k) (hb : Building nodes f [] b)
    {fuel : Nat} (hf : nodes.size < k + fuel) (hk : k < nodes.size) (begun : (b.cellAt k).isSome)
    (hs : s.size = nodes.size) (right : Right f s k) :
    ∃ s', Gives (settle b.cells fuel k) s () s' ∧ Settles f k s s' := by
  induction fuel generalizing k s with
  | zero => omega
  | succ fuel ih =>
    cases hv : s[k]?.join with
    | some v =>
      refine ⟨s, (gives_get s).bind ?_, rfl, fun _ _ => rfl, right, ?_, fun _ => id⟩
      · rw [hv]
        exact gives_pure _ s
      · rw [Settled.valueAt, hv, right k (Nat.le_refl k) v hv]
        rfl
    | none =>
      obtain ⟨c, hc⟩ := Option.isSome_iff_exists.1 begun
      obtain ⟨rfl, hparts⟩ := hb.filled k c hc List.not_mem_nil
      have later := fun j (hj : j ∈ (filledCell nodes f k).parts) => Build.lt_of_mem_parts (hall k hk) hj
      have other {j : Nat} (hj : j ≠ k) : (s.modify k fun _ => some none)[j]? = s[j]? := by
        simp [Array.getElem?_modify, hj.symm]
      have start : Inside f k (s.modify k fun _ => some none) (s.modify k fun _ => some none) :=
        ⟨rfl, fun _ _ => rfl, fun j hj v hv => by
          rw [other (Nat.ne_of_gt hj)] at hv
          exact right j (Nat.le_of_lt hj) v hv⟩
      obtain ⟨s', gives, inside, values, kept⟩ :=
        gives_forM (Q := fun j s' => Settled.valueAt s' j = some (f j)) start fun j hj s₁ inside => by
          obtain ⟨s₂, gives, settles⟩ := ih (k := j) (s := s₁) (by have := (later j hj).1; omega)
            (later j hj).2 (hparts j hj) (by rw [inside.size, Array.size_modify, hs])
            (inside.right.mono (later j hj).1)
          exact ⟨s₂, gives, inside.settles (later j hj).1 settles, settles.here, settles.kept⟩
      have value := value?_filledCell (hall k hk) values
      refine ⟨_, (gives_get s).bind ?_, inside.finish (hs ▸ hk) fun j hj h => kept j ?_⟩
      · rw [hv]
        refine (gives_modify _ s).bind ?_
        rw [← Builder.cellAt, hc]
        refine gives.bind ((gives_get s').bind ?_)
        rw [value]
        exact gives_modify _ s'
      · rwa [valueAt_congr (other hj)]

/-- The value of nodes that stand for their values is what the root stands for. -/
theorem valueOfGraph_eq (hall : ∀ k < nodes.size, Stands nodes f k) {root : Nat}
    (hroot : root < nodes.size) : valueOfGraph nodes root = .ok (f root) := by
  obtain ⟨b, hbuild, building, begun⟩ := Build.gives_build hall hroot
  have right : Right f (nodes.map fun _ => none) root := fun j _ v hv => by
    rw [Array.getElem?_map] at hv
    cases hn : nodes[j]? <;> rw [hn] at hv <;> cases hv
  have enough : nodes.size < root + (nodes.size + 1) := by omega
  obtain ⟨s, hsettle, settles⟩ := gives_settle hall building enough hroot
    begun (by rw [Array.size_map]) right
  have value : valueOf b.cells s (nodes.size + 1) [] root = f root := by
    rw [valueOf, settles.here]
  have settled : (settle b.cells (nodes.size + 1) root).run (nodes.map fun _ => none) = ((), s) := hsettle
  refine (congrArg (· >>= _) hbuild).trans ?_
  rw [pure_bind]
  simp only [settled, value]
  rfl

end ShellCompletion.Document.Yaml
