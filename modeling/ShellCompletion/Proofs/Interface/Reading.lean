import ShellCompletion.Interface.OfDocument
import ShellCompletion.Proofs.Document.Lookup
import ShellCompletion.Proofs.Interface.Grammar
import ShellCompletion.Proofs.Text.Blank

/-! What a document in the grammar says, read off by functions that can not fail: what is
left out has the default of its place, and the parts of a list are read one by one. The
main statement says that the interface of a mapping in the grammar is built, and that it is
the one that is read off; nothing is claimed of other mappings. -/
namespace ShellCompletion.Reading

open Document Schema Grammar

/-- What is no text is read as the empty one. -/
def text : Value → String
  | .str s => s
  | _ => ""

def elements : Value → List Value
  | .list xs => xs
  | _ => []

def entries : Value → Entries
  | .map es => es
  | _ => []

def texts (v : Value) : List String := (elements v).map text

def optional {α : Type} (read : Entries → α) (v : Value) : Option α :=
  if v.isNull then none else some (read (entries v))

def source (es : Entries) : Source :=
  match Builtin.ofWord? (text (es.get "builtin")) with
  | some k => .builtin k
  | none => .command (texts (es.get "cmd"))

def valueSpec (es : Entries) : ValueSpec where
  name := text (es.get "name")
  source := optional source (es.get "comp")

def optionSpec (v : Value) : OptionSpec where
  flags := texts ((entries v).get "short")
  description := text ((entries v).get "description")
  value := optional valueSpec ((entries v).get "value")

/-- A number is a position; anything else takes all the arguments that remain. -/
def slotIndex : Value → SlotIndex
  | .int n => .number n
  | _ => .all

def slotSpec (v : Value) : SlotSpec where
  index := slotIndex ((entries v).get "index")
  name := text ((entries v).get "name")
  source := optional source ((entries v).get "comp")
  skipIf := optional (fun es => texts (es.get "has_opt_any")) ((entries v).get "skip_if")

/-- Only the truth value itself and the words that say yes, in any case, are true. -/
def truth : Value → Bool
  | .bool b => b
  | .str s => trueWords.contains (String.ofList (Text.lower s.toList))
  | _ => false

def flagMark (v : Value) : String := if v.isNull then "-" else text v

/-- The interface that a mapping describes. -/
def interface (es : Entries) : Interface where
  name := text (es.get "name")
  doubleDash := truth (es.get "use_doubledash")
  flagMark := flagMark (es.get "short_opt_prefix")
  options := (elements (es.get "opts")).map optionSpec
  slots := (elements (es.get "args")).map slotSpec

/-! ### Scalars -/

theorem coerceBool_str {s : String}
    (h : String.ofList (Text.lower s.toList) ∈ trueWords ++ falseWords) (default : Bool) :
    coerceBool default (.str s) = truth (.str s) := by
  have hw : ∀ w ∈ trueWords ++ falseWords, (w.toList.any fun c => !Text.isBlank c) ∧
      String.ofList (Text.trim w.toList) = w ∧ falseWords.contains w = !trueWords.contains w := by
    decide +kernel
  obtain ⟨hb, ht, hf⟩ := hw _ h
  have hs : (Text.trim s.toList).isEmpty = false := by
    refine Bool.eq_false_iff.2 fun hn => ?_
    rw [List.isEmpty_iff] at hn
    have hl := Text.lower_of_isBlank ((Text.trimBy_eq_nil_iff _ _).1 hn)
    simp only [String.toList_ofList, hl, List.any_eq_true, Bool.not_eq_eq_eq_not, Bool.not_true] at hb
    obtain ⟨c, hc, hcb⟩ := hb
    simp [(Text.trimBy_eq_nil_iff _ _).1 hn c hc] at hcb
  rw [String.toList_ofList] at ht
  simp only [coerceBool, truth, hs, ht, hf, Bool.not_false, Bool.true_and, Bool.not_not]

theorem coerceBool_eq_truth {v : Value} (h : Optional IsTruth v) : coerceBool false v = truth v := by
  rcases h with rfl | ⟨b, rfl⟩ | ⟨s, rfl, hs⟩
  · rfl
  · simp [coerceBool, truth, Value.isFalsy]
  · exact coerceBool_str hs false

theorem text_orText {v : Value} (h : Optional IsText v) :
    Draft.text (Draft.orText "" v) = .ok (text v) := by
  rcases h with rfl | ⟨s, rfl⟩
  · rfl
  · by_cases hs : s = "" <;> simp [Draft.orText, Value.isFalsy, Draft.text, text, hs]

theorem text_flagMark {v : Value} (h : Optional IsFilledText v) :
    Draft.text (Draft.orText "-" v) = .ok (flagMark v) := by
  rcases h with rfl | ⟨s, rfl, hs⟩
  · rfl
  · simp [Draft.orText, Value.isFalsy, Value.isNull, Draft.text, text, flagMark, hs]

theorem index_eq_slotIndex {v : Value} (h : Optional IsIndex v) :
    Draft.index (if v.isNull then .str catchAll else v) = .ok (slotIndex v) := by
  rcases h with rfl | rfl | ⟨n, rfl, _⟩ <;> rfl

/-! ### Building in two steps -/

/-- A draft is made of a part, and settling it gives what is read. -/
def Builds {α β γ : Type} (make : α → Except BuildError β) (settle : β → Except BuildError γ)
    (x : α) (y : γ) : Prop := ∃ d, make x = .ok d ∧ settle d = .ok y

theorem builds_mapM {α β γ : Type} {make : α → Except BuildError β}
    {settle : β → Except BuildError γ} {read : α → γ} {xs : List α}
    (h : ∀ x ∈ xs, Builds make settle x (read x)) :
    Builds (·.mapM make) (·.mapM settle) xs (xs.map read) := by
  induction xs with
  | nil => exact ⟨[], rfl, rfl⟩
  | cons x xs ih =>
    obtain ⟨d, hd, hs⟩ := h x (by simp)
    obtain ⟨ds, hds, hss⟩ := ih fun y hy => h y (by simp [hy])
    refine ⟨d :: ds, ?_, ?_⟩
    · simp only [List.mapM_cons, hd, hds]; rfl
    · simp only [List.mapM_cons, hs, hss]; rfl

theorem builds_optional {β γ : Type} {make : Entries → Except BuildError β}
    {settle : β → Except BuildError γ} {read : Entries → γ} {P : Entries → Prop} {v : Value}
    (h : ∀ es, P es → Builds make settle es (read es)) (hv : Optional (MapOf P) v) :
    Builds (Draft.optional make) (·.mapM settle) v (optional read v) := by
  rcases hv with rfl | ⟨es, rfl, hes⟩
  · exact ⟨none, rfl, rfl⟩
  · obtain ⟨d, hd, hs⟩ := h es hes
    refine ⟨some d, ?_, ?_⟩
    · simp only [Draft.optional, Value.isNull, Bool.false_eq_true, ↓reduceIte, Draft.entries]
      change (do return some (← make es)) = _
      rw [hd]; rfl
    · simp only [Option.mapM_some, hs]; rfl

theorem elementsOrNone_eq {P : Value → Prop} {v : Value} (h : Optional (ListOf P) v) :
    Draft.elementsOrNone v = .ok (elements v) := by
  rcases h with rfl | ⟨xs, rfl, _⟩
  · rfl
  · cases xs <;> rfl

theorem mapM_text {xs : List Value} (h : ∀ x ∈ xs, IsText x) :
    xs.mapM Draft.text = .ok (xs.map text) := by
  induction xs with
  | nil => rfl
  | cons x xs ih =>
    obtain ⟨s, rfl⟩ := h x (by simp)
    simp only [List.mapM_cons, ih fun y hy => h y (by simp [hy])]
    rfl

theorem isText_of_isFilledText {v : Value} (h : IsFilledText v) : IsText v :=
  ((isFilledText_iff v).1 h).1

theorem builds_flags {v : Value} (h : Optional IsFlags v) :
    Builds Draft.elementsOrNone (·.mapM Draft.text) v (texts v) := by
  refine ⟨elements v, elementsOrNone_eq h, mapM_text fun x hx => ?_⟩
  rcases h with rfl | ⟨xs, rfl, hf⟩
  · simp [elements] at hx
  · exact isText_of_isFilledText (hf x hx)

/-! ### Parts of an interface -/

theorem builds_source {es : Entries} (h : SourceEntries es) :
    Builds Draft.Source.ofEntries Draft.Source.settle es (source es) := by
  rcases h with ⟨hb | hb, _⟩ | ⟨hb, xs, hc, hne, hx⟩
  · exact ⟨.builtin .files, by simp [Draft.Source.ofEntries, hb, Value.isNull]; rfl,
      by simp [source, hb, text]; rfl⟩
  · exact ⟨.builtin .directories, by simp [Draft.Source.ofEntries, hb, Value.isNull]; rfl,
      by simp [source, hb, text]; rfl⟩
  · refine ⟨.command xs, ?_, ?_⟩
    · simp only [Draft.Source.ofEntries, hb, Value.isNull, ↓reduceIte,
        Entries.find?_eq_some_of_get hc (by simp)]
      rfl
    · simp only [Draft.Source.settle, mapM_text hx, source, hb, hc, texts]
      rfl

theorem builds_valueSpec {es : Entries} (h : ValueEntries es) :
    Builds Draft.ValueSpec.ofEntries Draft.ValueSpec.settle es (valueSpec es) := by
  obtain ⟨d, hd, hs⟩ := builds_optional (fun _ => builds_source) h.source
  refine ⟨⟨Draft.orText "" (es.get "name"), d⟩, ?_, ?_⟩
  · simp only [Draft.ValueSpec.ofEntries, hd]; rfl
  · simp only [Draft.ValueSpec.settle, text_orText h.name, hs]; rfl

theorem builds_optionSpec {v : Value} (h : MapOf OptionEntries v) :
    Builds Draft.OptionSpec.ofValue Draft.OptionSpec.settle v (optionSpec v) := by
  obtain ⟨(es : Entries), rfl, ho⟩ := h
  obtain ⟨fs, hf, hfs⟩ := builds_flags ho.flags
  obtain ⟨d, hd, hs⟩ := builds_optional (fun _ => builds_valueSpec) ho.value
  refine ⟨⟨fs, Draft.orText "" (es.get "description"), d⟩, ?_, ?_⟩
  · simp only [Draft.OptionSpec.ofValue, Draft.entries, hf, hd, bind, Except.bind]; rfl
  · simp only [Draft.OptionSpec.settle, hfs, text_orText ho.description, hs]; rfl

theorem builds_slotSpec {v : Value} (h : MapOf SlotEntries v) :
    Builds Draft.SlotSpec.ofValue Draft.SlotSpec.settle v (slotSpec v) := by
  obtain ⟨(es : Entries), rfl, ha⟩ := h
  obtain ⟨d, hd, hs⟩ := builds_optional (fun _ => builds_source) ha.source
  obtain ⟨k, hk, hl⟩ := builds_optional (fun _ (h : LiftEntries _) => builds_flags h) ha.skipIf
  refine ⟨⟨if (es.get "index").isNull then .str catchAll else es.get "index",
    Draft.orText "" (es.get "name"), d, k⟩, ?_, ?_⟩
  · simp only [Draft.SlotSpec.ofValue, Draft.entries, hd, hk, bind, Except.bind]; rfl
  · simp only [Draft.SlotSpec.settle, index_eq_slotIndex ha.index, text_orText ha.name, hs, hl]; rfl

/-- The draft of a mapping in the grammar is made, and settling it gives what is read off. -/
theorem builds_interface {es : Entries} (h : InterfaceEntries es) :
    Builds Draft.ofEntries Draft.settle es (interface es) := by
  obtain ⟨s, hn, _⟩ := h.name
  have ho : ∀ v ∈ elements (es.get "opts"), MapOf OptionEntries v := by
    rcases h.options with hv | ⟨xs, hv, hx⟩ <;> simp_all [elements]
  have ha : ∀ v ∈ elements (es.get "args"), MapOf SlotEntries v := by
    rcases h.slots with hv | ⟨xs, hv, hx, _⟩ <;> simp_all [elements]
  obtain ⟨os, hos, hso⟩ := builds_mapM fun v hv => builds_optionSpec (ho v hv)
  obtain ⟨as, has, hsa⟩ := builds_mapM fun v hv => builds_slotSpec (ha v hv)
  have hls : Optional (ListOf (MapOf SlotEntries)) (es.get "args") :=
    h.slots.imp_right fun ⟨xs, hv, hx, _⟩ => ⟨xs, hv, hx⟩
  refine ⟨⟨.str s, coerceBool false (es.get "use_doubledash"),
    Draft.orText "-" (es.get "short_opt_prefix"), os, as⟩, ?_, ?_⟩
  · simp only [Draft.ofEntries, Entries.find?_eq_some_of_get hn (by simp), elementsOrNone_eq h.options,
      elementsOrNone_eq hls, bind, Except.bind, pure, Except.pure, hos, has]
  · simp only [Draft.settle, text_flagMark h.flagMark, hso, hsa, coerceBool_eq_truth h.doubleDash,
      interface, hn]
    rfl

end ShellCompletion.Reading
