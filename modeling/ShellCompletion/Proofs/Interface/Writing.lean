import ShellCompletion.Proofs.Interface.WellFormed
import ShellCompletion.Proofs.Schema.Known

/-! Writing an interface as a document. Every key of every mapping is written, null standing
for what the interface does not have. The document of a well-formed interface is in the
grammar, has no unknown keys and is read back as the interface, so that the interfaces that
documents are accepted as are exactly the well-formed ones. -/
namespace ShellCompletion.Writing

open Document Schema Interface Grammar

def texts (ss : List String) : Value := .list (ss.map .str)

/-- What is not there is null. -/
def optional {α : Type} (write : α → Entries) (o : Option α) : Value :=
  (o.map fun a => .map (write a)).getD .null

def source : Source → Entries
  | .builtin k => [(.str "builtin", .str k.word)]
  | .command argv => [(.str "cmd", texts argv)]

def valueSpec (v : ValueSpec) : Entries :=
  [(.str "name", .str v.name), (.str "comp", optional source v.source)]

def optionSpec (o : OptionSpec) : Entries :=
  [(.str "short", texts o.flags), (.str "description", .str o.description),
    (.str "value", optional valueSpec o.value)]

def lift (fs : List String) : Entries := [(.str "has_opt_any", texts fs)]

def slotSpec (s : SlotSpec) : Entries :=
  [(.str "index", s.index.value), (.str "name", .str s.name),
    (.str "comp", optional source s.source), (.str "skip_if", optional lift s.skipIf)]

def interface (i : Interface) : Entries :=
  [(.str "name", .str i.name), (.str "use_doubledash", .bool i.doubleDash),
    (.str "short_opt_prefix", .str i.flagMark),
    (.str "opts", .list (i.options.map fun o => .map (optionSpec o))),
    (.str "args", .list (i.slots.map fun s => .map (slotSpec s)))]

theorem get_nil (name : String) : Entries.get [] name = .null := rfl

theorem get_cons (key name : String) (v : Value) (es : Entries) :
    Entries.get ((.str key, v) :: es) name = if key = name then v else Entries.get es name := by
  by_cases h : key = name <;> simp [Entries.get, Entries.find?, Value.isKey, h]

/-! ### Reading back -/

theorem read_texts (ss : List String) : Reading.texts (texts ss) = ss := by
  simp [Reading.texts, Reading.elements, texts, Reading.text, Function.comp_def]

theorem read_optional {α : Type} {write : α → Entries} {read : Entries → α}
    (h : ∀ a, read (write a) = a) (o : Option α) : Reading.optional read (optional write o) = o := by
  cases o <;> simp [Reading.optional, optional, Value.isNull, Reading.entries, h]

theorem read_source (s : Source) : Reading.source (source s) = s := by
  cases s with
  | builtin k => simp [Reading.source, source, get_cons, Reading.text, Builtin.ofWord?_word]
  | command argv =>
    simp [Reading.source, source, get_cons, get_nil, Reading.text, Builtin.ofWord?, read_texts]

theorem read_valueSpec (v : ValueSpec) : Reading.valueSpec (valueSpec v) = v := by
  simp [Reading.valueSpec, valueSpec, get_cons, Reading.text, read_optional read_source]

theorem read_optionSpec (o : OptionSpec) : Reading.optionSpec (.map (optionSpec o)) = o := by
  simp [Reading.optionSpec, optionSpec, get_cons, Reading.text, Reading.entries, read_texts,
    read_optional read_valueSpec]

theorem read_index (j : SlotIndex) : Reading.slotIndex j.value = j := by cases j <;> rfl

theorem read_lift (fs : List String) : Reading.texts (Entries.get (lift fs) "has_opt_any") = fs := by
  simp [lift, get_cons, read_texts]

theorem read_slotSpec (s : SlotSpec) : Reading.slotSpec (.map (slotSpec s)) = s := by
  have hl : Reading.optional (fun es => Reading.texts (es.get "has_opt_any"))
      (optional lift s.skipIf) = s.skipIf := read_optional read_lift s.skipIf
  simp [Reading.slotSpec, slotSpec, get_cons, Reading.text, Reading.entries, read_index,
    read_optional read_source, hl]

/-- A written interface is read back, well formed or not. -/
theorem read_interface (i : Interface) : Reading.interface (interface i) = i := by
  simp [Reading.interface, interface, get_cons, Reading.text, Reading.truth, Reading.flagMark,
    Value.isNull, Reading.elements, Function.comp_def, read_optionSpec, read_slotSpec]

/-! ### The grammar -/

theorem isFlags_texts {ss : List String} (h : ∀ s ∈ ss, s ≠ "") : Optional IsFlags (texts ss) := by
  refine .inr ⟨_, rfl, fun x hx => ?_⟩
  obtain ⟨s, hs, rfl⟩ := List.mem_map.1 hx
  exact ⟨s, rfl, h s hs⟩

theorem isText_str (s : String) : Optional IsText (.str s) := .inr ⟨s, rfl⟩

theorem grammar_optional {α : Type} {P : Entries → Prop} {write : α → Entries} {o : Option α}
    (h : ∀ a ∈ o, P (write a)) : Optional (MapOf P) (optional write o) := by
  cases o with
  | none => exact .inl rfl
  | some a => exact .inr ⟨_, rfl, h a rfl⟩

theorem sourceEntries_source {s : Source} (h : s.WellFormed) : SourceEntries (source s) := by
  cases s with
  | builtin k => cases k <;> simp [SourceEntries, source, get_cons, get_nil, IsBuiltin, Builtin.word]
  | command argv =>
    have hb : Entries.get (source (.command argv)) "builtin" = .null := by
      simp [source, get_cons, get_nil]
    have hc : Entries.get (source (.command argv)) "cmd" = texts argv := by
      simp [source, get_cons]
    refine .inr ⟨hb, argv.map .str, hc, ?_, ?_⟩
    · simpa [Source.WellFormed] using h
    · simp [IsText]

theorem optionEntries_optionSpec {o : OptionSpec} (h : o.WellFormed) :
    OptionEntries (optionSpec o) where
  flags := by simpa [optionSpec, get_cons] using isFlags_texts h.flags
  description := by simpa [optionSpec, get_cons] using isText_str o.description
  value := by
    refine grammar_optional fun v hv => ⟨?_, ?_⟩
    · simpa [valueSpec, get_cons] using isText_str v.name
    · exact grammar_optional fun s hs => sourceEntries_source (h.source v hv s hs)

theorem slotEntries_slotSpec {s : SlotSpec} (h : s.WellFormed) : SlotEntries (slotSpec s) where
  index := by
    have hp := h.position
    cases hj : s.index <;> simp [slotSpec, get_cons, Optional, IsIndex, SlotIndex.value, hj]
    exact hp _ hj
  name := by simpa [slotSpec, get_cons] using isText_str s.name
  source := grammar_optional fun c hc => sourceEntries_source (h.source c hc)
  skipIf := grammar_optional fun fs hf => isFlags_texts (h.skipIf fs hf)

theorem interfaceEntries_interface {i : Interface} (h : i.WellFormed) :
    InterfaceEntries (interface i) where
  name := ⟨i.name, rfl, h.name⟩
  doubleDash := .inr (.inl ⟨i.doubleDash, rfl⟩)
  flagMark := .inr ⟨i.flagMark, rfl, h.flagMark⟩
  options := by
    refine .inr ⟨_, rfl, fun x hx => ?_⟩
    obtain ⟨o, ho, rfl⟩ := List.mem_map.1 hx
    exact ⟨_, rfl, optionEntries_optionSpec (h.options o ho)⟩
  slots := by
    have hm : ∀ x ∈ i.slots.map fun s => Value.map (slotSpec s), MapOf SlotEntries x := by
      intro x hx
      obtain ⟨s, hs, rfl⟩ := List.mem_map.1 hx
      exact ⟨_, rfl, slotEntries_slotSpec (h.slots s hs)⟩
    refine .inr ⟨_, rfl, hm, ?_⟩
    rw [List.map_congr_left fun x hx => Reading.declaredIndex_eq (hm x hx)]
    simpa [Function.comp_def, read_slotSpec] using h.distinct.map SlotIndex.value_injective

/-! ### Known keys -/

section

variable {α : Type} {write : α → Entries} {fields : List Field} (name : String) (rule : Option Rule)

theorem knows_optional (h : ∀ a, Known fields (write a)) (o : Option α) :
    Field.Knows { name, type := .mapOf fields, rule } (optional write o) := by
  cases o with
  | none => exact knows_null _
  | some a => exact (knows_mapOf_iff ..).2 (h a)

theorem knows_list (h : ∀ a, Known fields (write a)) (xs : List α) :
    Field.Knows { name, type := .listOfMaps fields, rule }
      (.list (xs.map fun a => .map (write a))) := by
  refine (knows_listOfMaps_iff ..).2 fun es he => ?_
  obtain ⟨a, _, ha⟩ := List.mem_map.1 he
  cases ha
  exact h a

end

theorem known_source (s : Source) : Known
    [{ name := "builtin", choices := some [.str "files", .str "directories"] },
      { name := "cmd", type := .listOf .str, rule := some .notEmptyList }] (source s) := by
  cases s <;> simp [Known, HasOnly, KnowAll, source, Value.isKey]

theorem knows_sourceField (s : Option Source) : sourceField.Knows (optional source s) :=
  knows_optional "comp" (some .oneSource) known_source s

theorem known_valueSpec (v : ValueSpec) : Known [{ name := "name" }, sourceField] (valueSpec v) := by
  have hs := knows_sourceField v.source
  simpa [Known, HasOnly, KnowAll, valueSpec, Value.isKey, get_cons, sourceField] using hs

theorem known_optionSpec (o : OptionSpec) : Known optionFields (optionSpec o) := by
  have hv := knows_optional "value" none known_valueSpec o.value
  simpa [Known, HasOnly, KnowAll, optionFields, optionSpec, Value.isKey, get_cons] using hv

theorem known_lift (fs : List String) :
    Known [{ name := "has_opt_any", type := .listOf .str, rule := some .noEmptyElements }]
      (lift fs) := by
  simp [Known, HasOnly, KnowAll, lift, Value.isKey]

theorem known_slotSpec (s : SlotSpec) : Known slotFields (slotSpec s) := by
  have hc := knows_sourceField s.source
  have hl := knows_optional "skip_if" none known_lift s.skipIf
  rw [sourceField] at hc
  simpa [Known, HasOnly, KnowAll, slotFields, slotSpec, Value.isKey, get_cons, sourceField]
    using ⟨hc, hl⟩

theorem known_interface (i : Interface) : Known documentFields (interface i) := by
  have ho := knows_list "opts" none known_optionSpec i.options
  have hs := knows_list "args" (some .distinctSlots) known_slotSpec i.slots
  simpa [Known, HasOnly, KnowAll, documentFields, interface, Value.isKey, get_cons] using ⟨ho, hs⟩

/-- The document of a well-formed interface is accepted as that interface, and nothing is
logged but the flags that lift slots without being declared. -/
theorem validate_interface {i : Interface} (h : i.WellFormed) :
    (validate (.map (interface i))) = (.accepted i, undeclaredRecords i) := by
  have hw := (checkMap_warnings_eq_nil_iff _ [] _).2 (known_interface i)
  rw [validate_map_of_grammar (interfaceEntries_interface h), unknownRecords, hw, read_interface]
  rfl

end ShellCompletion.Writing

namespace ShellCompletion.Interface

open Document Schema

/-- A truth value or a word that says yes. -/
def SaysYes (v : Value) : Prop :=
  v = .bool true ∨ ∃ s, v = .str s ∧ String.ofList (Text.lower s.toList) ∈ trueWords

theorem truth_eq_true_iff (v : Value) : Reading.truth v = true ↔ SaysYes v := by
  cases v <;> simp [Reading.truth, SaysYes]

/-- What documents are accepted as: well-formed interfaces with the options and slots of the
document in order, and every well-formed interface, for a document without unknown keys. -/
theorem wellFormed_interfaces :
    (∀ v i, (validate v).1 = .accepted i → i.WellFormed ∧ ∃ es : Entries, v = .map es ∧
      i.options = (Reading.elements (es.get "opts")).map Reading.optionSpec ∧
      i.slots = (Reading.elements (es.get "args")).map Reading.slotSpec ∧
      (i.doubleDash = true ↔ SaysYes (es.get "use_doubledash"))) ∧
    ∀ i : Interface, i.WellFormed → ∃ es : Entries,
      validate (.map es) = (.accepted i, undeclaredRecords i) ∧
        (checkMap documentFields [] es).warnings = [] := by
  constructor
  · intro v i h
    obtain ⟨es, rfl, hg, rfl⟩ := (accepted_iff v i).1 h
    exact ⟨Reading.interface_wellFormed hg, es, rfl, rfl, rfl, truth_eq_true_iff _⟩
  · intro i h
    exact ⟨Writing.interface i, Writing.validate_interface h,
      (checkMap_warnings_eq_nil_iff ..).2 (Writing.known_interface i)⟩

/-- A document with one flag and one position. -/
theorem wellFormed_interfaces_one_slot :
    let i : Interface :=
      { name := "demo", options := [{ flags := ["-a"] }], slots := [{ index := .number 1 }] }
    (validate (.map [(.str "name", .str "demo"),
      (.str "opts", .list [.map [(.str "short", .list [.str "-a"])]]),
      (.str "args", .list [.map [(.str "index", .int 1)]])])).1 = .accepted i ∧
      i.WellFormed ∧ ∃ es : Entries, validate (.map es) = (.accepted i, []) := by
  intro i
  have hv : (validate (.map [(.str "name", .str "demo"),
      (.str "opts", .list [.map [(.str "short", .list [.str "-a"])]]),
      (.str "args", .list [.map [(.str "index", .int 1)]])])).1 = .accepted i := by decide
  have hw := (wellFormed_interfaces.1 _ i hv).1
  obtain ⟨es, he, _⟩ := wellFormed_interfaces.2 i hw
  exact ⟨hv, hw, es, he⟩

end ShellCompletion.Interface
