import Mathlib.Logic.Relation
import ShellCompletion.Proofs.Interface.Acceptance
import ShellCompletion.Proofs.Schema.Edits

/-! What a check of a document does not read. The fields of the schema look by name, and so
does the reading of an interface. The main statement says that the verdict on a document, be
it the interface or the violations in their order, is the same after any series of changes
that the fields do not show; the records of the check are not spoken of. -/
namespace ShellCompletion

open Document Schema Interface

namespace Reading

/-! ### Containers of one type -/

section

variable {v w : Value}

/-- What is read of a value, if it does not depend on what a container holds. -/
theorem read_eq {α : Type} {read : Value → α} (hr : ∀ v w, SameOutside v w → read v = read w)
    (h : v = w ∨ SameOutside v w) : read v = read w := by
  obtain rfl | h := h
  · rfl
  · exact hr v w h

theorem text_eq (h : v = w ∨ SameOutside v w) : text v = text w :=
  read_eq (fun _ _ h => by cases h <;> rfl) h

theorem truth_eq (h : v = w ∨ SameOutside v w) : truth v = truth w :=
  read_eq (fun _ _ h => by cases h <;> rfl) h

theorem slotIndex_eq (h : v = w ∨ SameOutside v w) : slotIndex v = slotIndex w :=
  read_eq (fun _ _ h => by cases h <;> rfl) h

theorem flagMark_eq (h : v = w ∨ SameOutside v w) : flagMark v = flagMark w :=
  read_eq (fun _ _ h => by cases h <;> rfl) h

theorem elements_eq (h : SameFor Kind.list.admits v w) : elements v = elements w := by
  obtain rfl | ⟨outside, noList⟩ := h
  · rfl
  · cases outside with
    | list xs ys => simp [Kind.admits] at noList
    | _ => rfl

theorem entries_eq (h : SameFor Kind.map.admits v w) : entries v = entries w := by
  obtain rfl | ⟨outside, noMap⟩ := h
  · rfl
  · cases outside with
    | map es fs => simp [Kind.admits] at noMap
    | _ => rfl

theorem texts_eq {name : String} {k : Kind} {required : Bool} {choices : Option (List Value)}
    {rule : Option Rule} (h : Field.Alike ⟨name, .listOf k, required, choices, rule⟩ v w) :
    texts v = texts w := by
  obtain h | ⟨xs, ys, rfl, rfl, hA⟩ := alike_listOf_iff.1 h
  · rw [texts, elements_eq h, texts]
  · exact map_eq_of_forall₂ hA fun _ _ hxy => text_eq hxy.outside

/-- What is read of the mapping that a field holds, if what is read of the mappings that its
fields can not tell apart is the same. -/
theorem optional_eq {α : Type} {read : Entries → α} {fields : List Field}
    (h : AlikeItems fields v w) (hr : ∀ es fs, AlikeIn fields es fs → read es = read fs) :
    optional read v = optional read w := by
  obtain h | ⟨es, fs, rfl, rfl, hA⟩ := h
  · have hn : v.isNull = w.isNull := read_eq (fun _ _ h => h.isNull_eq) h.outside
    simp only [optional, entries_eq h, hn]
  · simp only [optional, entries, hr es fs hA]
    rfl

end

/-! ### The parts of an interface -/

theorem source_eq {fields : List Field} (h : sourceField.type = .mapOf fields) {es fs : Entries}
    (hA : AlikeIn fields es fs) : source es = source fs := by
  cases h
  obtain ⟨hb, hc, _⟩ := hA
  have hb : text (es.get "builtin") = text (fs.get "builtin") := text_eq hb.outside
  have hc : texts (es.get "cmd") = texts (fs.get "cmd") := texts_eq hc
  simp only [source, hb, hc]

theorem optional_source_eq {v w : Value} (h : sourceField.Alike v w) :
    optional source v = optional source w :=
  optional_eq (alike_mapOf_iff.1 h) fun _ _ => source_eq rfl

theorem valueSpec_eq {es fs : Entries} (h : AlikeIn [{ name := "name" }, sourceField] es fs) :
    valueSpec es = valueSpec fs := by
  obtain ⟨hn, hs, _⟩ := h
  have hn : text (es.get "name") = text (fs.get "name") := text_eq hn.outside
  have hs : optional source (es.get "comp") = optional source (fs.get "comp") :=
    optional_source_eq hs
  simp only [valueSpec, hn, hs]

theorem optionSpec_eq {x y : Value} (h : AlikeItems optionFields x y) :
    optionSpec x = optionSpec y := by
  obtain h | ⟨es, fs, rfl, rfl, hA⟩ := h
  · simp only [optionSpec, entries_eq h]
  obtain ⟨hf, hd, hv, _⟩ := hA
  have hf : texts (es.get "short") = texts (fs.get "short") := texts_eq hf
  have hd : text (es.get "description") = text (fs.get "description") := text_eq hd.outside
  have hv := optional_eq (alike_mapOf_iff.1 hv) fun _ _ => valueSpec_eq
  simp only [optionSpec, entries, hf, hd, hv]

theorem lift_eq {rule : Option Rule} {v w : Value}
    (h : AlikeItems [{ name := "has_opt_any", type := .listOf .str, rule }] v w) :
    optional (fun es => texts (es.get "has_opt_any")) v =
      optional (fun es => texts (es.get "has_opt_any")) w :=
  optional_eq h fun _ _ hA => texts_eq hA.1

theorem slotSpec_eq {x y : Value} (h : AlikeItems slotFields x y) : slotSpec x = slotSpec y := by
  obtain h | ⟨es, fs, rfl, rfl, hA⟩ := h
  · simp only [slotSpec, entries_eq h]
  obtain ⟨hi, hn, hs, hl, _⟩ := hA
  have hi : slotIndex (es.get "index") = slotIndex (fs.get "index") := slotIndex_eq hi.outside
  have hn : text (es.get "name") = text (fs.get "name") := text_eq hn.outside
  have hs : optional source (es.get "comp") = optional source (fs.get "comp") :=
    optional_source_eq hs
  have hl := lift_eq (alike_mapOf_iff.1 hl)
  simp only [slotSpec, entries, hi, hn, hs, hl]

theorem map_elements_eq {α : Type} {read : Value → α} {name : String} {required : Bool}
    {choices : Option (List Value)} {rule : Option Rule} {fields : List Field} {v w : Value}
    (h : Field.Alike ⟨name, .listOfMaps fields, required, choices, rule⟩ v w)
    (hr : ∀ x y, AlikeItems fields x y → read x = read y) :
    (elements v).map read = (elements w).map read := by
  obtain h | ⟨xs, ys, rfl, rfl, hA⟩ := alike_listOfMaps_iff.1 h
  · rw [elements_eq h]
  · exact map_eq_of_forall₂ hA hr

/-- One interface is read off mappings that the fields of a document can not tell apart. -/
theorem interface_eq {es fs : Entries} (h : AlikeIn documentFields es fs) :
    interface es = interface fs := by
  obtain ⟨hn, hd, hm, ho, ha, _⟩ := h
  have hn : text (es.get "name") = text (fs.get "name") := text_eq hn.outside
  have hd : truth (es.get "use_doubledash") = truth (fs.get "use_doubledash") :=
    truth_eq hd.outside
  have hm : flagMark (es.get "short_opt_prefix") = flagMark (fs.get "short_opt_prefix") :=
    flagMark_eq hm.outside
  have ho := map_elements_eq ho fun _ _ => optionSpec_eq
  have ha := map_elements_eq ha fun _ _ => slotSpec_eq
  simp only [interface, hn, hd, hm, ho, ha]

end Reading

namespace Interface

theorem lookByName_documentFields : lookByName documentFields = true := by decide

theorem verdict_eq_of_alikeIn {es fs : Entries} (h : AlikeIn documentFields es fs) :
    (validate (.map es)).1 = (validate (.map fs)).1 := by
  have hv : (checkMap documentFields [] es).violations =
      (checkMap documentFields [] fs).violations := by
    simp [checkMap, checkFields_violations_eq lookByName_documentFields [] h]
  have hg : Grammar.InterfaceEntries es ↔ Grammar.InterfaceEntries fs := by
    rw [← checkMap_violations_eq_nil_iff, hv, checkMap_violations_eq_nil_iff]
  by_cases he : Grammar.InterfaceEntries es
  · rw [validate_map_of_grammar he, validate_map_of_grammar (hg.1 he), Reading.interface_eq h]
  · rw [validate_map_of_not_grammar he, validate_map_of_not_grammar (mt hg.2 he), hv]

/-- The second document is the first one after one change that the schema does not show. -/
inductive EditedOnce : Value → Value → Prop
  | intro {es fs : Entries} (edit : Edit documentFields es fs) : EditedOnce (.map es) (.map fs)

end Interface

end ShellCompletion
