import ShellCompletion.Proofs.Document.Lookup
import ShellCompletion.Proofs.Schema.Alike

/-! Changes of a mapping that its fields do not show: the entries change places, an entry of
an unknown key comes in, or an entry of null under a key that is absent, in the mapping itself
or in one that its fields descend into. The main statement says that fields that look by name
can not tell the mapping before such a change from the one after it. -/
namespace ShellCompletion.Schema

open Document

/-- The second mapping is the first one after one change that the fields do not show. -/
inductive Edit : List Field → Entries → Entries → Prop
  /-- Entries of distinct keys change places. -/
  | reorder {fields : List Field} {es fs : Entries} (distinct : es.Distinct) (perm : es.Perm fs) :
      Edit fields es fs
  /-- A key that is the name of no field comes in, with any value. -/
  | unknown {fields : List Field} (front back : Entries) (k v : Value)
      (unknown : ∀ f ∈ fields, k.isKey f.name = false) :
      Edit fields (front ++ back) (front ++ (k, v) :: back)
  /-- A text key that the mapping does not have comes in, with null. -/
  | null {fields : List Field} (front back : Entries) (name : String)
      (absent : Entries.find? (front ++ back) name = none) :
      Edit fields (front ++ back) (front ++ (.str name, .null) :: back)
  /-- A change of the mapping that is the value of a field. -/
  | inMap {fields inner : List Field} {f : Field} {es fs : Entries} (front back : Entries)
      (mem : f ∈ fields) (type : f.type = .mapOf inner) (edit : Edit inner es fs) :
      Edit fields (front ++ (.str f.name, .map es) :: back) (front ++ (.str f.name, .map fs) :: back)
  /-- A change of one mapping in the list that is the value of a field. -/
  | inItem {fields inner : List Field} {f : Field} {es fs : Entries} (front back : Entries)
      (before after : List Value) (mem : f ∈ fields) (type : f.type = .listOfMaps inner)
      (edit : Edit inner es fs) :
      Edit fields (front ++ (.str f.name, .list (before ++ .map es :: after)) :: back)
        (front ++ (.str f.name, .list (before ++ .map fs :: after)) :: back)

theorem lookByName_inner {f : Field} {inner : List Field} (h : f.looksByName = true)
    (ht : f.type = .mapOf inner ∨ f.type = .listOfMaps inner) : lookByName inner = true := by
  obtain ⟨name, type, required, choices, rule⟩ := f
  rcases ht with rfl | rfl <;> simp only [Field.looksByName, Bool.and_eq_true] at h <;> exact h.2

theorem alikeIn_of_get_eq {fields : List Field} {es fs : Entries}
    (h : ∀ f ∈ fields, es.get f.name = fs.get f.name) : AlikeIn fields es fs :=
  (alikeIn_iff ..).2 fun f hf => h f hf ▸ f.alike_refl _

theorem alikeItems_self (fields : List Field) (xs : List Value) :
    List.Forall₂ (AlikeItems fields) xs xs :=
  List.forall₂_same.2 fun x _ => alikeItems_refl fields x

/-- A value that a field can not tell from another may stand in its place. -/
theorem alikeIn_replace {fields : List Field} (hl : lookByName fields = true) {f : Field}
    (hf : f ∈ fields) {v w : Value} (h : f.Alike v w) (front back : Entries) :
    AlikeIn fields (front ++ (.str f.name, v) :: back) (front ++ (.str f.name, w) :: back) := by
  refine (alikeIn_iff ..).2 fun g hg => ?_
  by_cases hn : f.name = g.name
  · rw [← eq_of_name_eq hl hf hg hn, Entries.get, Entries.get, Entries.find?_append_cons_self,
      Entries.find?_append_cons_self]
    cases front.find? f.name with
    | none => exact h
    | some u => exact f.alike_refl u
  · have hk : (Value.str f.name).isKey g.name = false := by simpa [Value.isKey] using hn
    rw [Entries.get, Entries.get, Entries.find?_append_cons_of_ne hk,
      Entries.find?_append_cons_of_ne hk]
    exact g.alike_refl _

/-- Fields that look by name can not tell a mapping from the changed one. -/
theorem Edit.alikeIn {fields : List Field} {es fs : Entries} (h : Edit fields es fs)
    (hl : lookByName fields = true) : AlikeIn fields es fs := by
  induction h with
  | reorder distinct perm =>
    exact alikeIn_of_get_eq fun f _ =>
      Entries.get_eq_of_find?_eq (Entries.find?_eq_of_perm distinct perm f.name)
  | unknown front back k v unknown =>
    exact alikeIn_of_get_eq fun f hf =>
      Entries.get_eq_of_find?_eq (Entries.find?_append_cons_of_ne (unknown f hf) v front back).symm
  | null front back name absent =>
    exact alikeIn_of_get_eq fun f _ => (Entries.get_append_null absent f.name).symm
  | @inMap fields inner f es fs front back mem type edit ih =>
    have hin := ih (lookByName_inner (mem_looksByName hl mem) (.inl type))
    refine alikeIn_replace hl mem ?_ front back
    obtain ⟨name, _, required, choices, rule⟩ := f
    subst type
    exact alike_mapOf_iff.2 (.inr ⟨es, fs, rfl, rfl, hin⟩)
  | @inItem fields inner f es fs front back before after mem type edit ih =>
    have hin := ih (lookByName_inner (mem_looksByName hl mem) (.inr type))
    refine alikeIn_replace hl mem ?_ front back
    obtain ⟨name, _, required, choices, rule⟩ := f
    subst type
    have hitem : AlikeItems inner (.map es) (.map fs) := .inr ⟨es, fs, rfl, rfl, hin⟩
    refine alike_listOfMaps_iff.2 (.inr ⟨_, _, rfl, rfl, ?_⟩)
    exact List.rel_append (alikeItems_self inner before) (.cons hitem (alikeItems_self inner after))

end ShellCompletion.Schema
