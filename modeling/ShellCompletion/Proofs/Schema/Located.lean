import ShellCompletion.Proofs.Schema.Places
import ShellCompletion.Proofs.Schema.Reports

/-! Where violations are, for fields whose names are words. The main statements say that the place
of a violation is plain, so that its written form can be read back, and that it leads to a value
that is not null or to an element of a list, unless a required field has no value. -/
namespace ShellCompletion.Schema

open Document

/-- Are the names of the fields and of all fields inside them words? -/
def areWords (fields : List Field) : Bool := allMeet (fun f => Path.isWord f.name) fields

variable {fields last : List Field} {es gs : Entries} {p : Path}

theorem Leads.starts (h : Leads fields es p last gs) : p = [] ∨ ∃ name q, p = .key name :: q := by
  cases h with
  | here => exact .inl rfl
  | map => exact .inr ⟨_, _, rfl⟩
  | item => exact .inr ⟨_, _, rfl⟩

/-- The keys of steps to a mapping are names of fields. -/
theorem Leads.words (h : Leads fields es p last gs) (hw : areWords fields = true) :
    ∀ name, .key name ∈ p → Path.isWord name = true := by
  induction h with
  | here => simp
  | @map fields inner last f name es fs gs p mem named type value rest ih =>
    have hf := Field.meets_iff.1 (allMeet_iff.1 hw f mem)
    rw [Field.inner_eq (.inl type), named] at hf
    intro key hk
    rcases List.mem_cons.1 hk with hk | hk
    · exact Step.key.inj hk ▸ hf.1
    · exact ih hf.2 key hk
  | @item fields inner last f name es fs gs p xs i mem named type value element rest ih =>
    have hf := Field.meets_iff.1 (allMeet_iff.1 hw f mem)
    rw [Field.inner_eq (.inr type), named] at hf
    intro key hk
    rcases List.mem_cons.1 hk with hk | hk
    · exact Step.key.inj hk ▸ hf.1
    · exact ih hf.2 key (List.mem_of_ne_of_mem (by simp) hk)

/-- The place of a violation is plain. -/
theorem isPlain_of_reports {m : Visit} (hw : areWords fields = true) (hm : m ∈ visits fields [] es)
    {f : Field} (hf : f ∈ m.fields) {x : Value} {v : Violation} (h : f.Reports m.place x v) :
    v.path.IsPlain := by
  have hl := leads_of_mem_visits hm
  have hn : Path.isWord f.name = true := test_of_mem_of_allMeet (hl.allMeet hw) hf
  have hk : (m.place.key f.name).IsPlain := Path.isPlain_key hl.starts (hl.words hw) hn
  rcases h.path_eq with h | ⟨i, h⟩ <;> rw [h]
  · exact hk
  · exact hk.item i

/-- What is reported of a field that has a value is at that value or at an element of it. -/
theorem follow?_of_reports {m : Visit} (hm : m ∈ visits fields [] es) {f : Field} {v : Violation}
    (h : f.Reports m.place (m.entries.get f.name) v) :
    ((m.entries.get f.name).isNull = true ∧ f.required = true ∧
      v = ⟨m.place.key f.name, .missing f.name f.type.leading? m.place⟩) ∨
    ∃ x, follow? (.map es) v.path = some x ∧ (x.isNull = false ∨ ∃ q i, v.path = Path.item q i) := by
  have hl := leads_of_mem_visits hm
  have hv (hn : (m.entries.get f.name).isNull = false) :
      follow? (.map es) (m.place.key f.name) = some (m.entries.get f.name) := by
    rw [follow?_key hl.follow?_eq]
    exact Entries.find?_eq_some_of_get rfl (by rintro h; rw [h] at hn; cases hn)
  generalize hx : m.entries.get f.name = x at h hv ⊢
  cases h with
  | missing null required => exact .inl ⟨null, required, rfl⟩
  | stranger list element k =>
    subst list
    exact .inr ⟨_, (follow?_item (hv rfl) _).trans element, .inr ⟨_, _, rfl⟩⟩
  | misfit value hint => exact .inr ⟨x, hv value, .inl value⟩
  | noChoice value choices => exact .inr ⟨x, hv value, .inl value⟩
  | broken value rule complaint => exact .inr ⟨x, hv value, .inl value⟩

end ShellCompletion.Schema
