import ShellCompletion.Proofs.Interface.Acceptance

/-! Well-formed interfaces: names and flags are not empty, commands have a first word,
positions are counted from one, and no two slots claim the same arguments. What is read off
a mapping in the grammar is well formed; nothing is asked of descriptions, of the names of
values and slots, or of the words of a command. -/
namespace ShellCompletion

/-- A command has a first word. -/
def Source.WellFormed : Source → Prop
  | .builtin _ => True
  | .command argv => argv ≠ []

structure OptionSpec.WellFormed (o : OptionSpec) : Prop where
  flags : ∀ f ∈ o.flags, f ≠ ""
  source : ∀ v ∈ o.value, ∀ s ∈ v.source, s.WellFormed

structure SlotSpec.WellFormed (s : SlotSpec) : Prop where
  position : ∀ n, s.index = .number n → 1 ≤ n
  source : ∀ c ∈ s.source, c.WellFormed
  skipIf : ∀ fs ∈ s.skipIf, ∀ f ∈ fs, f ≠ ""

structure Interface.WellFormed (i : Interface) : Prop where
  name : i.name ≠ ""
  flagMark : i.flagMark ≠ ""
  options : ∀ o ∈ i.options, o.WellFormed
  slots : ∀ s ∈ i.slots, s.WellFormed
  /-- Positions differ from each other, and at most one slot takes all that remain. -/
  distinct : (i.slots.map (·.index)).Nodup

/-- The value that declares an index. -/
def SlotIndex.value : SlotIndex → Document.Value
  | .number n => .int n
  | .all => .str "all"

theorem SlotIndex.value_injective : Function.Injective SlotIndex.value := by
  intro j k h
  cases j <;> cases k <;> simp_all [SlotIndex.value]

namespace Reading

open Document Schema Grammar

theorem forall_mem_optional {α : Type} {P : Entries → Prop} {Q : α → Prop} {read : Entries → α}
    {v : Value} (hv : Optional (MapOf P) v) (h : ∀ es, P es → Q (read es)) :
    ∀ x ∈ optional read v, Q x := by
  rcases hv with rfl | ⟨es, rfl, hes⟩
  · simp [optional, Value.isNull]
  · simpa [optional, Value.isNull, entries] using h es hes

theorem ne_empty_of_mem_texts {v : Value} (h : Optional IsFlags v) : ∀ f ∈ texts v, f ≠ "" := by
  rcases h with rfl | ⟨xs, rfl, hx⟩
  · simp [texts, elements]
  · simp only [texts, elements, List.mem_map, forall_exists_index, and_imp]
    rintro _ x hm rfl
    obtain ⟨s, rfl, hs⟩ := hx x hm
    exact hs

theorem source_wellFormed {es : Entries} (h : SourceEntries es) : (source es).WellFormed := by
  rcases h with ⟨hb | hb, _⟩ | ⟨hb, xs, hc, hne, _⟩
  · simp [source, hb, text, Builtin.ofWord?, Source.WellFormed]
  · simp [source, hb, text, Builtin.ofWord?, Source.WellFormed]
  · simpa [source, hb, text, Builtin.ofWord?, Source.WellFormed, hc, texts, elements] using hne

theorem optionSpec_wellFormed {v : Value} (h : MapOf OptionEntries v) :
    (optionSpec v).WellFormed := by
  obtain ⟨es, rfl, ho⟩ := h
  exact ⟨ne_empty_of_mem_texts ho.flags, forall_mem_optional ho.value fun _ hv =>
    forall_mem_optional hv.source fun _ => source_wellFormed⟩

theorem slotSpec_wellFormed {v : Value} (h : MapOf SlotEntries v) : (slotSpec v).WellFormed := by
  obtain ⟨es, rfl, hs⟩ := h
  refine ⟨fun n hn => ?_, forall_mem_optional hs.source fun _ => source_wellFormed,
    forall_mem_optional (Q := fun fs => ∀ f ∈ fs, f ≠ "") hs.skipIf fun _ h =>
      ne_empty_of_mem_texts h⟩
  simp only [slotSpec, entries] at hn
  rcases hs.index with hv | hv | ⟨m, hv, hm⟩ <;> simp only [hv, slotIndex, SlotIndex.number.injEq,
    reduceCtorEq] at hn
  exact hn ▸ hm

/-- The index that an argument declares is the one that is read off it. -/
theorem declaredIndex_eq {v : Value} (h : MapOf SlotEntries v) :
    declaredIndex v = (slotSpec v).index.value := by
  obtain ⟨es, rfl, hs⟩ := h
  rcases hs.index with hv | hv | ⟨m, hv, _⟩ <;>
    simp [declaredIndex, slotSpec, entries, hv, slotIndex, SlotIndex.value]

/-- What is read off a mapping in the grammar is well formed. -/
theorem interface_wellFormed {es : Entries} (h : InterfaceEntries es) :
    (interface es).WellFormed := by
  obtain ⟨s, hn, hs⟩ := h.name
  refine ⟨by simpa [interface, hn, text] using hs, ?_, ?_, ?_, ?_⟩
  · rcases h.flagMark with hv | ⟨m, hv, hm⟩
    · simp [interface, hv, flagMark, Value.isNull]
    · simpa [interface, hv, flagMark, Value.isNull, text] using hm
  · rcases h.options with hv | ⟨xs, hv, hx⟩
    · simp [interface, hv, elements]
    · simpa [interface, hv, elements] using fun x hm => optionSpec_wellFormed (hx x hm)
  · rcases h.slots with hv | ⟨xs, hv, hx, _⟩
    · simp [interface, hv, elements]
    · simpa [interface, hv, elements] using fun x hm => slotSpec_wellFormed (hx x hm)
  · rcases h.slots with hv | ⟨xs, hv, hx, hd⟩
    · simp [interface, hv, elements]
    · rw [List.map_congr_left fun x hm => declaredIndex_eq (hx x hm)] at hd
      have hd : ((xs.map fun x => (slotSpec x).index).map SlotIndex.value).Nodup := by
        simpa [Function.comp_def] using hd
      simpa [interface, hv, elements, Function.comp_def] using hd.of_map

end Reading

end ShellCompletion
