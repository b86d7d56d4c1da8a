import Mathlib.Data.List.Basic
import ShellCompletion.Proofs.Schema.Order

/-! What rules complain of, and when a check passes it on. A list of flags is blamed for each
empty element, and a list of slots for each element whose index an earlier element declares,
together with the first such element. The main statement says that a check reports what a rule
complains of just when the value is of the type of its field down to any depth: whatever is wrong
inside the value hides what its rule says, and nothing else does. -/
namespace ShellCompletion.Schema

open Document

/-! ### Complaints of rules -/

theorem mem_emptyElements_iff {n : Nat} {xs : List Value} {c : Complaint} :
    c ∈ emptyElements n xs ↔ ∃ k, xs[k]? = some (.str "") ∧ c = .emptyElement (n + k) := by
  induction xs generalizing n with
  | nil => simp [emptyElements]
  | cons x xs ih =>
    have hs : (∃ k, (x :: xs)[k]? = some (.str "") ∧ c = .emptyElement (n + k)) ↔
        x = .str "" ∧ c = .emptyElement n ∨
          ∃ k, xs[k]? = some (.str "") ∧ c = .emptyElement (n + 1 + k) := by
      constructor
      · rintro ⟨_ | k, hk, rfl⟩
        · exact .inl ⟨Option.some.inj hk, rfl⟩
        · exact .inr ⟨k, hk, by rw [Nat.add_right_comm, Nat.add_assoc]⟩
      · rintro (⟨rfl, rfl⟩ | ⟨k, hk, rfl⟩)
        · exact ⟨0, rfl, rfl⟩
        · exact ⟨k + 1, hk, by rw [Nat.add_right_comm, Nat.add_assoc]⟩
    rw [emptyElements, hs]
    split
    · next hx => rw [List.mem_cons, ih, Value.isKey_iff.1 hx]; simp
    · next hx =>
      have hx : x ≠ .str "" := fun h => hx (Value.isKey_iff.2 h)
      rw [ih]
      simp [hx]

/-- The first element of a list that declares an index. -/
def firstPlace? (xs : List Value) (k : SlotKey) : Option Nat :=
  xs.findIdx? fun x => SlotKey.ofElement? x == some k

/-- The index that the element at a place declares. -/
def indexAt? (xs : List Value) (j : Nat) : Option SlotKey := xs[j]?.bind SlotKey.ofElement?

/-- The complaint about an element, if an element before it declares its index. -/
def repeatAt? (xs : List Value) (j : Nat) : Option Complaint :=
  (indexAt? xs j).bind fun k =>
    (firstPlace? (xs.take j) k).map fun i => .repeatedIndex j k.literal i

theorem exists_of_repeatAt?_eq_some {xs : List Value} {j : Nat} {c : Complaint}
    (h : repeatAt? xs j = some c) : ∃ (k : SlotKey) (i : Nat), c = .repeatedIndex j k.literal i := by
  obtain ⟨k, _, h⟩ := Option.bind_eq_some_iff.1 h
  obtain ⟨i, _, rfl⟩ := Option.map_eq_some_iff.1 h
  exact ⟨k, i, rfl⟩

theorem firstPlace?_concat (xs : List Value) (x : Value) (k : SlotKey) :
    firstPlace? (xs ++ [x]) k = (firstPlace? xs k).or
      (if SlotKey.ofElement? x = some k then some xs.length else none) := by
  rw [firstPlace?, List.findIdx?_append, ← firstPlace?]
  congr 1
  by_cases h : SlotKey.ofElement? x = some k <;> simp [h]

/-- The places that are kept of the elements before are the first ones of each index. -/
theorem repeatedIndices_eq_filterMap {seen : List (SlotKey × Nat)} {before : List Value}
    (h : ∀ k, seen.lookup k = firstPlace? before k) (xs : List Value) :
    repeatedIndices seen before.length xs =
      (List.range' before.length xs.length).filterMap (repeatAt? (before ++ xs)) := by
  induction xs generalizing seen before with
  | nil => rfl
  | cons x xs ih =>
    have hr : repeatAt? (before ++ x :: xs) before.length =
        (SlotKey.ofElement? x).bind fun k =>
          (seen.lookup k).map fun i => .repeatedIndex before.length k.literal i := by
      simp [repeatAt?, indexAt?, h]
    have hc : before ++ x :: xs = before ++ [x] ++ xs := by simp
    have hn : before.length + 1 = (before ++ [x]).length := by simp
    rw [repeatedIndices, List.length_cons, List.range'_succ, List.filterMap_cons, hr, hc, hn]
    cases hx : SlotKey.ofElement? x with
    | none =>
      refine ih fun k => ?_
      rw [firstPlace?_concat, h, hx]
      simp
    | some k =>
      simp only [Option.bind_some]
      cases hs : seen.lookup k with
      | some i =>
        refine congrArg (List.cons _) (ih fun l => ?_)
        rw [firstPlace?_concat, h, hx]
        by_cases hl : k = l
        · rw [← hl, ← h, hs]
          rfl
        · simp [hl]
      | none =>
        refine ih fun l => ?_
        rw [firstPlace?_concat, List.lookup_cons, hx, ← h]
        by_cases hl : k = l
        · rw [← hl, hs]
          simp
        · simp [hl, beq_eq_false_iff_ne.2 (Ne.symm hl)]

/-- Each element whose index an element before it declares is blamed once, in order. -/
theorem repeatedIndices_nil (xs : List Value) :
    repeatedIndices [] 0 xs = (List.range xs.length).filterMap (repeatAt? xs) := by
  have h := @repeatedIndices_eq_filterMap [] [] (fun _ => rfl) xs
  simpa [List.range_eq_range'] using h

theorem repeatedIndex_mem_iff {xs : List Value} {i j : Nat} {literal : String} :
    .repeatedIndex j literal i ∈ repeatedIndices [] 0 xs ↔
      ∃ k, indexAt? xs j = some k ∧ firstPlace? (xs.take j) k = some i ∧ literal = k.literal := by
  have hj {k : SlotKey} (h : indexAt? xs j = some k) : j < xs.length := by
    obtain ⟨x, hx, _⟩ := Option.bind_eq_some_iff.1 h
    exact (List.getElem?_eq_some_iff.1 hx).1
  simp only [repeatedIndices_nil, List.mem_filterMap, List.mem_range, repeatAt?,
    Option.bind_eq_some_iff, Option.map_eq_some_iff, Complaint.repeatedIndex.injEq]
  constructor
  · rintro ⟨_, _, k, hk, _, hi, rfl, rfl, rfl⟩
    exact ⟨k, hk, hi, rfl⟩
  · rintro ⟨k, hk, hi, rfl⟩
    exact ⟨j, hj hk, k, hk, i, hi, rfl, rfl, rfl⟩

/-- The first element with an index is the first before every later one. -/
theorem firstPlace?_take {xs : List Value} {i j : Nat} {k : SlotKey} (hij : i < j)
    (hi : indexAt? xs i = some k) (first : ∀ l < i, indexAt? xs l ≠ some k) :
    firstPlace? (xs.take j) k = some i := by
  obtain ⟨x, hx, hk⟩ := Option.bind_eq_some_iff.1 hi
  obtain ⟨hl, rfl⟩ := List.getElem?_eq_some_iff.1 hx
  have ht : i < (xs.take j).length := by
    rw [List.length_take]
    omega
  rw [firstPlace?, List.findIdx?_eq_some_iff_getElem]
  refine ⟨ht, by simp [hk], fun l hli he => ?_⟩
  have hlx : l < xs.length := by omega
  refine first l hli ?_
  rw [indexAt?, List.getElem?_eq_getElem hlx, Option.bind_some]
  simpa using he

/-! ### Complaints that are reported -/

theorem broken_not_mem_misfits (f : Field) (path p : Path) (v : Value) (c : Complaint) :
    ⟨p, .broken c⟩ ∉ f.misfits path v := by
  obtain ⟨name, type, required, choices, rule⟩ := f
  have hm : (⟨p, .broken c⟩ : Violation) ∉
      (Field.mismatch ⟨name, type, required, choices, rule⟩ path v).violations := by
    simp [Field.mismatch, Findings.problem]
  have hs (k : Kind) (xs : List Value) : (⟨p, .broken c⟩ : Violation) ∉ strangers k path xs := by
    rw [strangers_eq_flatMap]
    intro h
    obtain ⟨z, _, h⟩ := List.mem_flatMap.1 h
    split at h <;> simp at h
  cases type <;> simp only [Field.misfits] <;> split <;> simp_all

theorem broken_mem_breaches_iff {f : Field} {path p : Path} {v : Value} {c : Complaint} :
    ⟨p, .broken c⟩ ∈ f.breaches path v ↔
      p = path ∧ ∃ r, f.rule = some r ∧ c ∈ r.complaints v := by
  obtain ⟨name, type, required, choices, rule⟩ := f
  have hr (r : Rule) : (⟨p, .broken c⟩ : Violation) ∈
      ((r.complaints v).map fun c => ⟨path, .broken c⟩) ↔ p = path ∧ c ∈ r.complaints v := by
    rw [List.mem_map]
    constructor
    · rintro ⟨d, hd, he⟩
      cases he
      exact ⟨rfl, hd⟩
    · rintro ⟨rfl, hd⟩
      exact ⟨c, hd, rfl⟩
  cases choices <;> cases rule <;> simp [Field.breaches, hr]

theorem broken_mem_ownViolations_iff {f : Field} {inside p : Path} {v : Value} {c : Complaint} :
    ⟨p, .broken c⟩ ∈ f.ownViolations inside v ↔ p = inside.key f.name ∧ v.isNull = false ∧
      f.Types v ∧ ∃ r, f.rule = some r ∧ c ∈ r.complaints v := by
  rw [Field.ownViolations, ← checkType_violations_eq_nil_iff f (inside.key f.name) v]
  cases hv : v.isNull with
  | true => cases f.required <;> simp
  | false =>
    simp only [Bool.false_eq_true, ↓reduceIte, List.mem_append, broken_not_mem_misfits, false_or]
    split <;> simp_all [broken_mem_breaches_iff]

theorem Path.key_injective {p q : Path} {m n : String} (h : p.key m = q.key n) : p = q ∧ m = n := by
  obtain ⟨hp, hn⟩ := List.append_inj' h rfl
  cases hn
  exact ⟨hp, rfl⟩

/-- A check reports a complaint about a field of a mapping that it comes to just when the value
of the field is of its type. -/
theorem broken_mem_iff {fields : List Field} {path : Path} {es : Entries}
    (hl : lookByName fields = true) {m : Visit} (hm : m ∈ visits fields path es) {f : Field}
    (hf : f ∈ m.fields) (hv : (m.entries.get f.name).isNull = false) {c : Complaint} :
    ⟨m.place.key f.name, .broken c⟩ ∈ (checkMap fields path es).violations ↔
      f.Types (m.entries.get f.name) ∧
        ∃ r, f.rule = some r ∧ c ∈ r.complaints (m.entries.get f.name) := by
  rw [(checkMap_violations_perm fields path es).mem_iff, List.mem_flatMap]
  constructor
  · rintro ⟨n, hn, hc⟩
    obtain ⟨g, hg, hc⟩ := List.mem_flatMap.1 hc
    obtain ⟨hp, _, hc⟩ := broken_mem_ownViolations_iff.1 hc
    obtain ⟨hp, hfg⟩ := Path.key_injective hp
    cases eq_of_place_eq hl hm hn hp
    cases eq_of_name_eq (looksByName_of_mem_visits hm hl) hf hg hfg
    exact hc
  · intro hc
    exact ⟨m, hm, List.mem_flatMap.2 ⟨f, hf, broken_mem_ownViolations_iff.2 ⟨rfl, hv, hc⟩⟩⟩

end ShellCompletion.Schema
