import ShellCompletion.Schema.Rule

/-! When a value keeps a rule. A list of flags keeps its rule when no element is the empty
text, and a list of slots when no two of them declare one index. -/
namespace ShellCompletion.Schema

open Document

theorem emptyElements_eq_nil_iff (i : Nat) (xs : List Value) :
    emptyElements i xs = [] ↔ ∀ x ∈ xs, x ≠ .str "" := by
  induction xs generalizing i with
  | nil => simp [emptyElements]
  | cons x xs ih =>
    rw [emptyElements]
    split
    · cases x <;> simp_all [Value.isKey]
    · cases x <;> simp_all [Value.isKey]

/-- A source breaks no rule when one of its two keys has a value and the other has none. -/
theorem sourceComplaints_eq_nil_iff (es : Entries) :
    sourceComplaints es = [] ↔ (es.get "builtin").isNull ≠ (es.get "cmd").isNull := by
  unfold sourceComplaints
  cases (es.get "builtin").isNull <;> cases (es.get "cmd").isNull <;> simp

theorem indexComplaints_eq_nil_iff (v : Value) :
    indexComplaints v = [] ↔ v = .str catchAll ∨ (∃ n, v = .int n ∧ 1 ≤ n) ∨ v = .bool true := by
  cases v <;> simp [indexComplaints]

theorem SlotKey.value_injective : Function.Injective value := by
  intro j k h
  cases j <;> cases k <;> simp_all [value]

/-- The indices that the elements of a list declare, as far as they can clash. -/
def slotKeys (xs : List Value) : List SlotKey := xs.filterMap SlotKey.ofElement?

theorem slotKeys_cons (x : Value) (xs : List Value) :
    slotKeys (x :: xs) = (SlotKey.ofElement? x).toList ++ slotKeys xs := by
  cases h : SlotKey.ofElement? x <;> simp [slotKeys, h]

/-- No index is repeated when the indices differ from each other and from those already
seen. -/
theorem repeatedIndices_eq_nil_iff (seen : List (SlotKey × Nat)) (i : Nat) (xs : List Value) :
    repeatedIndices seen i xs = [] ↔
      (slotKeys xs).Nodup ∧ ∀ k ∈ slotKeys xs, seen.lookup k = none := by
  induction xs generalizing seen i with
  | nil => simp [repeatedIndices, slotKeys]
  | cons x xs ih =>
    rw [repeatedIndices, slotKeys_cons]
    cases hk : SlotKey.ofElement? x with
    | none => simp [ih]
    | some k =>
      cases hs : seen.lookup k with
      | some j =>
        refine ⟨fun h => by simp [hs] at h, fun ⟨_, h⟩ => ?_⟩
        rw [h k (by simp)] at hs
        simp at hs
      | none =>
        have hl (m : SlotKey) : List.lookup m ((k, i) :: seen) = none ↔
            m ≠ k ∧ seen.lookup m = none := by
          rw [List.lookup_cons]
          by_cases hm : m = k
          · simp [hm]
          · simp only [beq_eq_false_iff_ne.2 hm, ne_eq, hm, not_false_eq_true, true_and]
        simp only [ih, hl, Option.toList_some, List.singleton_append, List.nodup_cons,
          List.mem_cons, forall_eq_or_imp, hs, true_and]
        grind

end ShellCompletion.Schema
