import ShellCompletion.Document.Mapping
import ShellCompletion.Proofs.Schema.Alike

/-! How deep fields look. A document in which nothing refers to a container around it is cut off
at a depth when it is unrolled, and is otherwise as it was. The main statement says that fields
which look no deeper can not tell such a document from the unrolled one. -/
namespace ShellCompletion.Document

namespace Value

mutual

/-- Does nothing in a value refer to a container around it? -/
def isWhole : Value → Bool
  | .list xs | .tuple xs => areWhole xs
  | .map es => haveWhole es
  | .enclosing _ => false
  | _ => true

def areWhole : List Value → Bool
  | [] => true
  | x :: xs => x.isWhole && areWhole xs

def haveWhole : Entries → Bool
  | [] => true
  | (_, x) :: es => x.isWhole && haveWhole es

end

theorem areWhole_iff {xs : List Value} : areWhole xs = true ↔ ∀ x ∈ xs, x.isWhole = true := by
  induction xs with
  | nil => simp [areWhole]
  | cons x xs ih => simp [areWhole, ih]

theorem haveWhole_iff {es : Entries} :
    haveWhole es = true ↔ ∀ e ∈ es, e.2.isWhole = true := by
  induction es with
  | nil => simp [haveWhole]
  | cons e es ih => simp [haveWhole, ih]

end Value

/-- The values of a mapping unrolled, each among the same containers. -/
def Entries.unroll (depth : Nat) (around : List Value) (es : Entries) : Entries :=
  es.map fun (k, x) => (k, x.unroll depth around)

theorem Entries.find?_unroll (depth : Nat) (around : List Value) (es : Entries) (name : String) :
    (es.unroll depth around).find? name = (es.find? name).map (·.unroll depth around) := by
  simp only [find?, unroll, List.find?_map, Option.map_map]
  rfl

end ShellCompletion.Document

namespace ShellCompletion.Schema

open Document

/-! ### How deep fields look -/

/-- A kind whose values hold no others. -/
def Kind.isScalar : Kind → Bool
  | list | map => false
  | str | int | float | bool => true

/-- A type with parameters has no values of its own. -/
def TypeExpr.isScalar : TypeExpr → Bool
  | basic k => k.isScalar
  | generic _ _ => true

mutual

/-- Does a field look at no more than so many levels of its value? -/
def Field.looksTo (depth : Nat) : Field → Bool
  | ⟨_, type, _, _, _⟩ =>
    match type with
    | .one t => 1 ≤ depth && t.isScalar
    | .oneOf ts => 1 ≤ depth && ts.all (·.isScalar)
    | .listOf k => 2 ≤ depth && k.isScalar
    | .listOfMaps fields => 2 ≤ depth && lookTo (depth - 2) fields
    | .mapOf fields => 1 ≤ depth && lookTo (depth - 1) fields

/-- Do the fields look at no more than so many levels of their values? -/
def lookTo (depth : Nat) : List Field → Bool
  | [] => true
  | f :: fields => f.looksTo depth && lookTo depth fields

end

theorem SameOutside.kind_admits {v w : Value} (h : SameOutside v w) {k : Kind}
    (hk : k.isScalar = true) : k.admits v = false := by
  cases k with
  | list => cases hk
  | map => cases hk
  | _ => cases h <;> rfl

theorem SameOutside.admits {v w : Value} (h : SameOutside v w) {t : TypeExpr}
    (ht : t.isScalar = true) : t.admits v = false := by
  cases t with
  | basic k => exact h.kind_admits ht
  | generic k ts => rfl

/-! ### Unrolled values -/

section

variable {v : Value} {depth : Nat} {around : List Value}

/-- At any depth at all, the unrolled value is the value itself or a container like it. -/
theorem unroll_cases (hv : v.isWhole = true) :
    v = v.unroll (depth + 1) around ∨ SameOutside v (v.unroll (depth + 1) around) := by
  cases v with
  | list xs => exact .inr (.list ..)
  | tuple xs => exact .inr (.tuple ..)
  | map es => exact .inr (.map ..)
  | enclosing n => cases hv
  | _ => exact .inl rfl

theorem sameFor_unroll {admits : Value → Bool} (hv : v.isWhole = true)
    (h : ∀ w, SameOutside v w → admits v = false) :
    SameFor admits v (v.unroll (depth + 1) around) :=
  (unroll_cases hv).imp_right fun outside => ⟨outside, h _ outside⟩

theorem sameFor_unroll_scalar {k : Kind} (hk : k.isScalar = true) (hv : v.isWhole = true) :
    SameFor k.admits v (v.unroll (depth + 1) around) :=
  sameFor_unroll hv fun _ outside => outside.kind_admits hk

theorem eq_list_or_not (v : Value) : (∃ xs, v = .list xs) ∨ Kind.list.admits v = false := by
  cases v with
  | list xs => exact .inl ⟨xs, rfl⟩
  | _ => exact .inr rfl

theorem eq_map_or_not (v : Value) : (∃ es, v = .map es) ∨ Kind.map.admits v = false := by
  cases v with
  | map es => exact .inl ⟨es, rfl⟩
  | _ => exact .inr rfl

/-- The elements of an unrolled list are unrolled among one container more. -/
theorem forall₂_unroll {R : Value → Value → Prop} {xs : List Value}
    (hv : (Value.list xs).isWhole = true)
    (h : ∀ x, x.isWhole = true → R x (x.unroll depth (.list xs :: around))) :
    ∃ ys, (Value.list xs).unroll (depth + 1) around = .list ys ∧ List.Forall₂ R xs ys := by
  refine ⟨_, rfl, List.forall₂_map_right_iff.2 (List.forall₂_same.2 fun x hx => h x ?_)⟩
  exact Value.areWhole_iff.1 hv x hx

theorem alikeItems_unroll {fields : List Field}
    (h : ∀ around es, Value.haveWhole es = true →
      AlikeIn fields es (Entries.unroll depth around es))
    (hv : v.isWhole = true) (around : List Value) :
    AlikeItems fields v (v.unroll (depth + 1) around) := by
  obtain ⟨es, rfl⟩ | noMap := eq_map_or_not v
  · exact .inr ⟨es, _, rfl, rfl, h (.map es :: around) es hv⟩
  · exact .inl (sameFor_unroll hv fun _ _ => noMap)

end

mutual

/-- A field that looks no deeper can not tell a value from the unrolled one. -/
theorem alike_unroll {f : Field} {depth : Nat} (hf : f.looksTo depth = true) {v : Value}
    (hv : v.isWhole = true) (around : List Value) : f.Alike v (v.unroll depth around) := by
  match f with
  | ⟨name, .one t, required, choices, rule⟩ =>
    simp only [Field.looksTo, Bool.and_eq_true, decide_eq_true_eq] at hf
    obtain ⟨depth, rfl⟩ := Nat.exists_eq_add_of_le' hf.1
    exact alike_one_iff.2 (sameFor_unroll hv fun _ outside => outside.admits hf.2)
  | ⟨name, .oneOf ts, required, choices, rule⟩ =>
    simp only [Field.looksTo, Bool.and_eq_true, decide_eq_true_eq, List.all_eq_true] at hf
    obtain ⟨depth, rfl⟩ := Nat.exists_eq_add_of_le' hf.1
    refine alike_oneOf_iff.2 (sameFor_unroll hv fun _ outside => ?_)
    rw [List.any_eq_false]
    intro t ht
    simp [outside.admits (hf.2 t ht)]
  | ⟨name, .listOf k, required, choices, rule⟩ =>
    simp only [Field.looksTo, Bool.and_eq_true, decide_eq_true_eq] at hf
    obtain ⟨depth, rfl⟩ := Nat.exists_eq_add_of_le' hf.1
    refine alike_listOf_iff.2 ?_
    obtain ⟨xs, rfl⟩ | noList := eq_list_or_not v
    · -- one level is the list, and the other one its elements
      obtain ⟨ys, hys, hA⟩ := forall₂_unroll hv fun x hx => sameFor_unroll_scalar hf.2 hx
      exact .inr ⟨xs, ys, rfl, hys, hA⟩
    · exact .inl (sameFor_unroll hv fun _ _ => noList)
  | ⟨name, .listOfMaps fields, required, choices, rule⟩ =>
    simp only [Field.looksTo, Bool.and_eq_true, decide_eq_true_eq] at hf
    obtain ⟨depth, rfl⟩ := Nat.exists_eq_add_of_le' hf.1
    refine alike_listOfMaps_iff.2 ?_
    obtain ⟨xs, rfl⟩ | noList := eq_list_or_not v
    · obtain ⟨ys, hys, hA⟩ := forall₂_unroll hv fun x hx =>
        alikeItems_unroll (fun around es hes => alikeIn_unroll hf.2 hes around) hx _
      exact .inr ⟨xs, ys, rfl, hys, hA⟩
    · exact .inl (sameFor_unroll hv fun _ _ => noList)
  | ⟨name, .mapOf fields, required, choices, rule⟩ =>
    simp only [Field.looksTo, Bool.and_eq_true, decide_eq_true_eq] at hf
    obtain ⟨depth, rfl⟩ := Nat.exists_eq_add_of_le' hf.1
    exact alike_mapOf_iff.2
      (alikeItems_unroll (fun around es hes => alikeIn_unroll hf.2 hes around) hv around)

/-- Fields that look no deeper can not tell a mapping from the one with unrolled values. -/
theorem alikeIn_unroll {fields : List Field} {depth : Nat} (hl : lookTo depth fields = true)
    {es : Entries} (hes : Value.haveWhole es = true) (around : List Value) :
    AlikeIn fields es (es.unroll depth around) := by
  match fields with
  | [] => trivial
  | f :: fields =>
    simp only [lookTo, Bool.and_eq_true] at hl
    refine ⟨?_, alikeIn_unroll hl.2 hes around⟩
    rw [Entries.get, Entries.get, Entries.find?_unroll]
    cases hf : es.find? f.name with
    | none => exact f.alike_refl _
    | some x =>
      obtain ⟨e, he, rfl⟩ := Option.map_eq_some_iff.1 hf
      exact alike_unroll hl.1
        (Value.haveWhole_iff.1 hes e (List.mem_of_find?_eq_some he)) around

end

end ShellCompletion.Schema
