import Mathlib.Data.Fintype.Pigeonhole
import ShellCompletion.Document.Yaml.Read

/-! Mappings that stand for other nodes. The value key of a mapping leads to the node whose text is
that of the mapping, and this may be a mapping again. The main statement says that the reading of a
text which takes more steps than there are nodes goes on for ever, however many steps are allowed:
the bound cuts no other reading short. -/
namespace ShellCompletion.Document.Yaml

/-- The node that stands for a mapping: the value of its value key. -/
def standIn? (nodes : Array Node) (k : Nat) : Option Nat :=
  match (nodes[k]?.getD default).content with
  | .mapping es => (es.find? fun e => (nodes[e.1]?.getD default).tag == .value).map (·.2)
  | _ => none

/-- The node that so many steps from stand-in to stand-in lead to. -/
def wayFrom (nodes : Array Node) (k : Nat) : Nat → Option Nat
  | 0 => some k
  | n + 1 => (standIn? nodes k).bind fun j => wayFrom nodes j n

variable {nodes : Array Node} {k j : Nat}

/-- Only nodes that there are have a stand-in. -/
theorem lt_of_standIn? (h : standIn? nodes k = some j) : k < nodes.size := by
  by_contra out
  have missing : nodes[k]? = none := Array.getElem?_eq_none (Nat.le_of_not_lt out)
  rw [standIn?, missing] at h
  cases h

theorem wayFrom_add (nodes : Array Node) (k m n : Nat) :
    wayFrom nodes k (m + n) = (wayFrom nodes k m).bind fun j => wayFrom nodes j n := by
  induction m generalizing k with
  | zero => rw [Nat.zero_add]; rfl
  | succ m ih =>
    rw [Nat.add_right_comm, wayFrom, wayFrom, Option.bind_assoc]
    simp only [ih]

theorem isSome_wayFrom_of_le {m n : Nat} (hmn : m ≤ n) (h : (wayFrom nodes k n).isSome) :
    (wayFrom nodes k m).isSome := by
  obtain ⟨d, rfl⟩ := Nat.exists_eq_add_of_le hmn
  rw [wayFrom_add] at h
  cases hm : wayFrom nodes k m with
  | none => rw [hm] at h; cases h
  | some j => rfl

/-- A way that comes back to a node goes on for ever. -/
theorem isSome_wayFrom_of_repeat {m d : Nat} (hd : 0 < d) (hj : wayFrom nodes k m = some j)
    (again : wayFrom nodes k (m + d) = some j) (n : Nat) : (wayFrom nodes k n).isSome := by
  induction n using Nat.strong_induction_on with
  | _ n ih =>
    by_cases hn : n ≤ m + d
    · exact isSome_wayFrom_of_le hn (again ▸ rfl)
    · -- a round less leads to the same node
      obtain ⟨r, rfl⟩ := Nat.exists_eq_add_of_lt (Nat.lt_of_not_le hn)
      have shorter := ih (m + (r + 1)) (by omega)
      rw [wayFrom_add, hj] at shorter
      rw [Nat.add_assoc _ r 1, wayFrom_add, again]
      exact shorter

/-- A way with more steps than there are nodes goes on for ever. -/
theorem isSome_wayFrom_of_long (h : (wayFrom nodes k (nodes.size + 1)).isSome) (n : Nat) :
    (wayFrom nodes k n).isSome := by
  have there (i : Fin (nodes.size + 1)) : ∃ j : Fin nodes.size, wayFrom nodes k i = some j.1 := by
    have step : (wayFrom nodes k (i + 1)).isSome := isSome_wayFrom_of_le (by omega) h
    rw [wayFrom_add] at step
    cases hi : wayFrom nodes k i with
    | none => rw [hi] at step; cases step
    | some j =>
      rw [hi, Option.bind_some, wayFrom] at step
      cases hj : standIn? nodes j with
      | none => rw [hj] at step; cases step
      | some j' => exact ⟨⟨j, lt_of_standIn? hj⟩, rfl⟩
  choose at_ hat using there
  obtain ⟨a, b, hne, hab⟩ := Fintype.exists_ne_map_eq_of_card_lt at_ (by simp)
  wlog hlt : a < b generalizing a b
  · exact this b a hne.symm hab.symm (lt_of_le_of_ne (not_lt.1 hlt) hne.symm)
  obtain ⟨d, hd⟩ := Nat.exists_eq_add_of_lt hlt
  refine isSome_wayFrom_of_repeat (d := d + 1) (Nat.succ_pos d) (hat a) ?_ n
  rw [← Nat.add_assoc, ← hd, hat b, hab]

namespace Build

theorem nodeAt_apply (k : Nat) (b : Builder) : nodeAt k b = .ok (b.nodes[k]?.getD default, b) := rfl

/-- The reading of a text looks at a node first. -/
theorem textOf_succ (fuel k : Nat) (b : Builder) : textOf (fuel + 1) k b =
    (match (b.nodes[k]?.getD default).content with
      | .scalar s => pure s
      | .sequence _ =>
        fail (.plain (.expectedNode "a scalar node" "sequence") (b.nodes[k]?.getD default).mark)
      | .mapping es =>
        match es.find? fun e => (b.nodes[e.1]?.getD default).tag == .value with
        | some (_, v) => textOf fuel v
        | none =>
          fail (.plain (.expectedNode "a scalar node" "mapping") (b.nodes[k]?.getD default).mark) :
      Build String) b := by
  rw [textOf]
  simp only [bind, StateT.bind, Except.bind, nodeAt_apply]
  cases (b.nodes[k]?.getD default).content <;> rfl

theorem textOf_succ_of_standIn? {b : Builder} (h : standIn? b.nodes k = some j) (fuel : Nat) :
    textOf (fuel + 1) k b = textOf fuel j b := by
  rw [textOf_succ]
  unfold standIn? at h
  split at h
  · next hc =>
    obtain ⟨e, he, rfl⟩ := Option.map_eq_some_iff.1 h
    simp only [hc, he]
  · cases h

theorem textOf_succ_ne_endless {b : Builder} (h : standIn? b.nodes k = none) (fuel : Nat) :
    textOf (fuel + 1) k b ≠ .error (.defect .endless) := by
  rw [textOf_succ]
  unfold standIn? at h
  cases hc : (b.nodes[k]?.getD default).content with
  | mapping es =>
    simp only [hc, Option.map_eq_none_iff] at h
    simp only [h]
    exact nofun
  | scalar s => exact nofun
  | sequence items => exact nofun

/-- The reading of a text ends too late just when the way is longer than the steps allowed. -/
theorem textOf_eq_endless_iff (fuel k : Nat) (b : Builder) :
    textOf fuel k b = .error (.defect .endless) ↔ (wayFrom b.nodes k fuel).isSome := by
  induction fuel generalizing k with
  | zero => exact iff_of_true rfl rfl
  | succ fuel ih =>
    rw [wayFrom]
    cases hj : standIn? b.nodes k with
    | none => simpa using textOf_succ_ne_endless hj fuel
    | some j => rw [textOf_succ_of_standIn? hj, ih, Option.bind_some]

/-- If the way from a node takes more steps than there are nodes, its text is not found in however
many steps. -/
theorem textOf_endless (k : Nat) (b : Builder) :
    textOf (b.nodes.size + 1) k b = .error (.defect .endless) ↔
      ∀ fuel, textOf fuel k b = .error (.defect .endless) := by
  simp only [textOf_eq_endless_iff]
  exact ⟨isSome_wayFrom_of_long, fun h => h _⟩

end Build

end ShellCompletion.Document.Yaml
