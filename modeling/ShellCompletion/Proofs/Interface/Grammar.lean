import Mathlib.Data.List.Nodup
import ShellCompletion.Document.Mapping
import ShellCompletion.Interface.Schema
import ShellCompletion.Proofs.Schema.Fits
import ShellCompletion.Proofs.Schema.Rules

/-! The grammar of the documents that describe an interface, stated key by key and without
the schema. The main statement says that a mapping fits the schema of interfaces exactly
when it is in the grammar. -/
namespace ShellCompletion.Grammar

open Document Schema Interface

/-- A part that may be left out: null, which is also what an absent key counts as. -/
def Optional (P : Value → Prop) (v : Value) : Prop := v = .null ∨ P v

def ListOf (P : Value → Prop) (v : Value) : Prop := ∃ xs, v = .list xs ∧ ∀ x ∈ xs, P x

def MapOf (P : Entries → Prop) (v : Value) : Prop := ∃ es, v = .map es ∧ P es

def IsText (v : Value) : Prop := ∃ s, v = .str s

def IsFilledText (v : Value) : Prop := ∃ s, v = .str s ∧ s ≠ ""

/-- A truth value, or a word for yes or no in any case. -/
def IsTruth (v : Value) : Prop :=
  (∃ b, v = .bool b) ∨
    ∃ s, v = .str s ∧ String.ofList (Text.lower s.toList) ∈ trueWords ++ falseWords

def IsFlags : Value → Prop := ListOf IsFilledText

def IsBuiltin (v : Value) : Prop := v = .str "files" ∨ v = .str "directories"

/-- A command has at least one word; its words may be empty. -/
def IsCommand (v : Value) : Prop := ∃ xs, v = .list xs ∧ xs ≠ [] ∧ ∀ x ∈ xs, IsText x

/-- A source of candidates is built in or a command, and not both. -/
def SourceEntries (es : Entries) : Prop :=
  IsBuiltin (es.get "builtin") ∧ es.get "cmd" = .null ∨
    es.get "builtin" = .null ∧ IsCommand (es.get "cmd")

structure ValueEntries (es : Entries) : Prop where
  name : Optional IsText (es.get "name")
  source : Optional (MapOf SourceEntries) (es.get "comp")

structure OptionEntries (es : Entries) : Prop where
  flags : Optional IsFlags (es.get "short")
  description : Optional IsText (es.get "description")
  value : Optional (MapOf ValueEntries) (es.get "value")

def LiftEntries (es : Entries) : Prop := Optional IsFlags (es.get "has_opt_any")

/-- The word for all remaining arguments, or a position counted from one. -/
def IsIndex (v : Value) : Prop := v = .str "all" ∨ ∃ n, v = .int n ∧ 1 ≤ n

structure SlotEntries (es : Entries) : Prop where
  index : Optional IsIndex (es.get "index")
  name : Optional IsText (es.get "name")
  source : Optional (MapOf SourceEntries) (es.get "comp")
  skipIf : Optional (MapOf LiftEntries) (es.get "skip_if")

/-- The index that an argument declares; to declare none is to take all that remain. -/
def declaredIndex : Value → Value
  | .map es =>
    match Entries.get es "index" with
    | .null => .str "all"
    | v => v
  | _ => .null

def IsSlots (v : Value) : Prop :=
  ∃ xs, v = .list xs ∧ (∀ x ∈ xs, MapOf SlotEntries x) ∧ (xs.map declaredIndex).Nodup

structure InterfaceEntries (es : Entries) : Prop where
  name : IsFilledText (es.get "name")
  doubleDash : Optional IsTruth (es.get "use_doubledash")
  flagMark : Optional IsFilledText (es.get "short_opt_prefix")
  options : Optional (ListOf (MapOf OptionEntries)) (es.get "opts")
  slots : Optional IsSlots (es.get "args")

/-- A document in the grammar. -/
def IsDocument : Value → Prop := MapOf InterfaceEntries

/-! ### The schema asks for the grammar -/

/-- A field that is not required asks that its part is in the grammar or left out. -/
theorem fits_cons {f : Field} {P : Value → Prop} (hr : f.required = false)
    (hf : ∀ v, f.Types v ∧ f.Permits v ↔ P v) (fs : List Field) (es : Entries) :
    Fits (f :: fs) es ↔ Optional P (es.get f.name) ∧ Fits fs es := by
  rw [Fits, Optional, ← hf]
  cases es.get f.name <;> simp [Value.isNull, hr]

theorem admits_str_iff (v : Value) : Kind.str.admits v = true ↔ IsText v := by
  cases v <;> simp [Kind.admits, IsText]

theorem admits_bool_iff (v : Value) : Kind.bool.admits v = true ↔ IsTruth v := by
  cases v <;> simp [Kind.admits, IsTruth, isBoolWord]

theorem isFilledText_iff (v : Value) : IsFilledText v ↔ IsText v ∧ v ≠ .str "" := by
  cases v <;> simp [IsFilledText, IsText]

theorem textField_iff (name : String) (v : Value) :
    Field.Types { name } v ∧ Field.Permits { name } v ↔ IsText v := by
  simp [Field.Types, Field.Permits, TypeExpr.admits, admits_str_iff]

theorem filledTextField_iff (name : String) (required : Bool) (v : Value) :
    Field.Types { name, required, rule := some .notEmpty } v ∧
      Field.Permits { name, required, rule := some .notEmpty } v ↔ IsFilledText v := by
  cases v <;> simp [Field.Types, Field.Permits, TypeExpr.admits, Kind.admits, IsFilledText,
    Rule.complaints, Value.isFalsy]

theorem truthField_iff (name : String) (v : Value) :
    Field.Types { name, type := .one (.basic .bool) } v ∧
      Field.Permits { name, type := .one (.basic .bool) } v ↔ IsTruth v := by
  simp [Field.Types, Field.Permits, TypeExpr.admits, admits_bool_iff]

theorem flagsField_iff (name : String) (v : Value) :
    Field.Types { name, type := .listOf .str, rule := some .noEmptyElements } v ∧
      Field.Permits { name, type := .listOf .str, rule := some .noEmptyElements } v ↔
        IsFlags v := by
  cases v <;> simp [Field.Types, Field.Permits, IsFlags, ListOf, isFilledText_iff,
    admits_str_iff, Rule.complaints, emptyElements_eq_nil_iff, forall_and]

theorem types_mapOf (name : String) (fields : List Field) (required : Bool)
    (choices : Option (List Value)) (rule : Option Rule) (v : Value) :
    Field.Types ⟨name, .mapOf fields, required, choices, rule⟩ v ↔ MapOf (Fits fields) v := by
  simp only [Field.Types, MapOf]

theorem types_listOfMaps (name : String) (fields : List Field) (required : Bool)
    (choices : Option (List Value)) (rule : Option Rule) (v : Value) :
    Field.Types ⟨name, .listOfMaps fields, required, choices, rule⟩ v ↔
      ListOf (MapOf (Fits fields)) v := by
  simp only [Field.Types, ListOf, MapOf]

theorem mapField_iff (name : String) {fields : List Field} {P : Entries → Prop}
    (h : ∀ es, Fits fields es ↔ P es) (v : Value) :
    Field.Types { name, type := .mapOf fields } v ∧
      Field.Permits { name, type := .mapOf fields } v ↔ MapOf P v := by
  simp [types_mapOf, Field.Permits, MapOf, h]

theorem mapsField_iff (name : String) {fields : List Field} {P : Entries → Prop}
    (h : ∀ es, Fits fields es ↔ P es) (v : Value) :
    Field.Types { name, type := .listOfMaps fields } v ∧
      Field.Permits { name, type := .listOfMaps fields } v ↔ ListOf (MapOf P) v := by
  simp [types_listOfMaps, Field.Permits, ListOf, MapOf, h]

theorem indexField_iff (v : Value) :
    let f : Field :=
      { name := "index", type := .oneOf [.basic .int, .basic .str], rule := some .slotIndex }
    f.Types v ∧ f.Permits v ↔ IsIndex v := by
  cases v <;> simp [Field.Types, Field.Permits, Rule.complaints, indexComplaints_eq_nil_iff,
    IsIndex, TypeExpr.admits, Kind.admits, catchAll]

theorem builtinField_iff (v : Value) :
    let f : Field := { name := "builtin", choices := some [.str "files", .str "directories"] }
    f.Types v ∧ f.Permits v ↔ IsBuiltin v := by
  cases v <;> simp [Field.Types, Field.Permits, TypeExpr.admits, Kind.admits, IsBuiltin,
    Value.same_str, Value.isKey]

theorem commandField_iff (v : Value) :
    let f : Field := { name := "cmd", type := .listOf .str, rule := some .notEmptyList }
    f.Types v ∧ f.Permits v ↔ IsCommand v := by
  cases v <;> simp [Field.Types, Field.Permits, Rule.complaints, Value.isFalsy, IsCommand,
    admits_str_iff, and_comm]

theorem fits_sourceFields_iff (es : Entries) :
    Fits [{ name := "builtin", choices := some [.str "files", .str "directories"] },
        { name := "cmd", type := .listOf .str, rule := some .notEmptyList }] es ∧
      sourceComplaints es = [] ↔ SourceEntries es := by
  have hb (v : Value) (h : IsBuiltin v) : v ≠ .null ∧ v.isNull = false := by
    rcases h with rfl | rfl <;> simp [Value.isNull]
  have hc (v : Value) (h : IsCommand v) : v ≠ .null ∧ v.isNull = false := by
    obtain ⟨xs, rfl, _⟩ := h
    simp [Value.isNull]
  rw [fits_cons rfl builtinField_iff, fits_cons rfl commandField_iff, Fits,
    sourceComplaints_eq_nil_iff]
  constructor
  · rintro ⟨⟨hn | h, hn' | h', _⟩, hne⟩
    · simp [hn, hn'] at hne
    · exact .inr ⟨hn, h'⟩
    · exact .inl ⟨h, hn'⟩
    · simp [hb _ h, hc _ h'] at hne
  · rintro (⟨h, hn⟩ | ⟨hn, h⟩)
    · simp [Optional, h, hn, hb _ h, Value.isNull]
    · simp [Optional, h, hn, hc _ h, Value.isNull]

theorem sourceField_iff (v : Value) :
    sourceField.Types v ∧ sourceField.Permits v ↔ MapOf SourceEntries v := by
  rw [sourceField, types_mapOf]
  cases v <;> simp [Field.Permits, MapOf, Rule.complaints, ← fits_sourceFields_iff]

theorem fits_valueFields_iff (es : Entries) :
    Fits [{ name := "name" }, sourceField] es ↔ ValueEntries es := by
  rw [fits_cons rfl (textField_iff "name"), fits_cons rfl sourceField_iff, Fits]
  exact ⟨fun ⟨hn, hs, _⟩ => ⟨hn, hs⟩, fun h => ⟨h.name, h.source, trivial⟩⟩

theorem fits_optionFields_iff (es : Entries) : Fits optionFields es ↔ OptionEntries es := by
  rw [optionFields, fits_cons rfl (flagsField_iff "short"),
    fits_cons rfl (textField_iff "description"),
    fits_cons rfl (mapField_iff "value" fits_valueFields_iff), Fits]
  exact ⟨fun ⟨hf, hd, hv, _⟩ => ⟨hf, hd, hv⟩, fun h => ⟨h.flags, h.description, h.value, trivial⟩⟩

theorem fits_liftFields_iff (es : Entries) :
    Fits [{ name := "has_opt_any", type := .listOf .str, rule := some .noEmptyElements }] es ↔
      LiftEntries es := by
  rw [fits_cons rfl (flagsField_iff "has_opt_any"), Fits]
  exact and_iff_left trivial

theorem fits_slotFields_iff (es : Entries) : Fits slotFields es ↔ SlotEntries es := by
  rw [slotFields, fits_cons rfl indexField_iff, fits_cons rfl (textField_iff "name"),
    fits_cons rfl sourceField_iff, fits_cons rfl (mapField_iff "skip_if" fits_liftFields_iff), Fits]
  exact ⟨fun ⟨hi, hn, hs, hl, _⟩ => ⟨hi, hn, hs, hl⟩,
    fun h => ⟨h.index, h.name, h.source, h.skipIf, trivial⟩⟩

theorem ofElement?_eq_some {x : Value} (h : MapOf SlotEntries x) :
    ∃ k, SlotKey.ofElement? x = some k ∧ k.value = declaredIndex x := by
  obtain ⟨es, rfl, hs⟩ := h
  rcases hs.index with hn | hs | ⟨n, hn, _⟩
  · exact ⟨.word catchAll, by simp [SlotKey.ofElement?, hn], by simp [declaredIndex, hn]; rfl⟩
  · exact ⟨.word "all", by simp [SlotKey.ofElement?, hs], by simp [declaredIndex, hs]; rfl⟩
  · exact ⟨.number n, by simp [SlotKey.ofElement?, hn], by simp [declaredIndex, hn]; rfl⟩

/-- Of arguments in the grammar, the indices that can clash are those declared. -/
theorem map_declaredIndex {xs : List Value} (h : ∀ x ∈ xs, MapOf SlotEntries x) :
    xs.map declaredIndex = (slotKeys xs).map SlotKey.value := by
  induction xs with
  | nil => rfl
  | cons x xs ih =>
    obtain ⟨k, hk, hv⟩ := ofElement?_eq_some (h x (by simp))
    simp [slotKeys_cons, hk, hv, ih fun y hy => h y (by simp [hy])]

theorem slotsField_iff (v : Value) :
    let f : Field := { name := "args", type := .listOfMaps slotFields, rule := some .distinctSlots }
    f.Types v ∧ f.Permits v ↔ IsSlots v := by
  intro f
  rw [types_listOfMaps]
  cases v with
  | list xs =>
    have hp : f.Permits (.list xs) ↔ (slotKeys xs).Nodup := by
      simp [f, Field.Permits, Rule.complaints, repeatedIndices_eq_nil_iff]
    rw [hp]
    simp only [ListOf, MapOf, fits_slotFields_iff, IsSlots, Value.list.injEq, exists_eq_left']
    refine and_congr_right fun h => ?_
    rw [map_declaredIndex h, List.nodup_map_iff SlotKey.value_injective]
  | _ => simp [ListOf, IsSlots]

/-- The schema of interfaces asks of a mapping that it is in the grammar. -/
theorem fits_documentFields_iff (es : Entries) :
    Fits documentFields es ↔ InterfaceEntries es := by
  have hn : Fits documentFields es ↔ IsFilledText (es.get "name") ∧ Fits documentFields.tail es := by
    rw [← filledTextField_iff "name" true]
    cases h : es.get "name" <;>
      simp [documentFields, Fits, h, Value.isNull, Field.Types, TypeExpr.admits, Kind.admits]
  rw [hn, documentFields, List.tail_cons, fits_cons rfl (truthField_iff "use_doubledash"),
    fits_cons rfl (filledTextField_iff "short_opt_prefix" false),
    fits_cons rfl (mapsField_iff "opts" fits_optionFields_iff), fits_cons rfl slotsField_iff, Fits]
  exact ⟨fun ⟨hn, hd, hm, ho, hs, _⟩ => ⟨hn, hd, hm, ho, hs⟩,
    fun h => ⟨h.name, h.doubleDash, h.flagMark, h.options, h.slots, trivial⟩⟩

end ShellCompletion.Grammar
