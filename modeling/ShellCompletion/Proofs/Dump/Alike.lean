import ShellCompletion.Proofs.Document.Agreement.Bytes
import ShellCompletion.Proofs.Document.Agreement.Tabs
import ShellCompletion.Proofs.Dump.Hosts
import ShellCompletion.Proofs.Dump.Stages

/-! A text in JSON in files of two names, one of which has the suffix of JSON while the other one is
that of a file in YAML. Runs for sources with one document end alike. The main statement says that a
text which is plain gives one document and one ending under both names, and that one which is
indented with tabs does not. -/
namespace ShellCompletion.Dump

open Document Files Load Host

variable {s : Trace} {source source' : String} {format : Format} {text : List Char} {v : Value}

/-- A source names a file that is read in a format, and that holds a text. -/
def Holds (s : Trace) (source : String) (format : Format) (text : List Char) : Prop :=
  ∃ n bytes, sourceName s.environment source = .ok n ∧ Format.ofName n = format ∧
    s.tree.read n = .ok bytes ∧ Text.decode .utf8 0 bytes = .ok text

/-! ### One document -/

/-- Notes may differ in runs on one host. -/
theorem mirrors_trace (source : String) : Mirrors source fun s s' : Trace => SameFiles s s' where
  names h := h.environment ▸ sameNames_self ..
  tree h := h.tree.symm
  note _ _ _ h := ⟨h.environment, h.tree⟩
  setTree _ _ _ h := ⟨h.environment, rfl⟩

theorem scriptOf_congr {env : Environment} {t : Tree}
    (h : documentOf env t source = documentOf env t source') (shell : String) :
    scriptOf env t source shell = scriptOf env t source' shell := by
  rw [scriptOf_eq, scriptOf_eq, h]

/-- Sources with one document have runs that end alike, and leave one tree. -/
theorem dumpFile_alike (h : documentOf s.environment s.tree source = .ok v)
    (h' : documentOf s.environment s.tree source' = .ok v) (shell : String) (output : Option String) :
    (dumpFile source shell output s).1 = (dumpFile source' shell output s).1 ∧
      (dumpFile source shell output s).2.tree = (dumpFile source' shell output s).2.tree := by
  obtain ⟨s₁, -, same₁, run₁⟩ := dumpFile_eq apart_trace source shell output (s := s) trivial
  obtain ⟨s₂, -, same₂, run₂⟩ := dumpFile_eq apart_trace source' shell output (s := s) trivial
  have same : SameFiles s₁ s₂ :=
    ⟨same₂.environment.trans same₁.environment.symm, same₂.tree.trans same₁.tree.symm⟩
  have scripts : scriptOf (environment s) (tree s) source shell =
      scriptOf (environment s) (tree s) source' shell := scriptOf_congr (h.trans h'.symm) shell
  rw [run₁, run₂, scripts]
  cases scriptOf (environment s) (tree s) source' shell with
  | error e => exact ⟨rfl, same.tree.symm⟩
  | ok script =>
    have written := (mirrors_trace source).writeOutput script output same
    simp only
    generalize writeOutput script output s₁ = run, writeOutput script output s₂ = run' at written ⊢
    obtain ⟨result, s₃⟩ := run
    obtain ⟨result', s₃'⟩ := run'
    obtain ⟨rfl, same'⟩ := written
    cases result with
    | error e => exact ⟨rfl, same'.tree.symm⟩
    | ok _ => exact ⟨rfl, same'.tree.symm⟩

/-! ### One text -/

section

variable {p : Json.Page} (hp : p.IsJson)
include hp

theorem documentOf_json (h : Holds s source .json p.text) :
    documentOf s.environment s.tree source = .ok p.value := by
  obtain ⟨n, bytes, named, format, read, decoded⟩ := h
  rw [documentOf_of_read named read]
  refine parseNamed_ok ?_
  rw [format, Load.parse, hp.json_ofBytes decoded]
  rfl

theorem documentOf_yaml (plain : p.IsPlain) (h : Holds s source .yaml p.text) :
    documentOf s.environment s.tree source = .ok p.value := by
  obtain ⟨n, bytes, named, format, read, decoded⟩ := h
  rw [documentOf_of_read named read]
  refine parseNamed_ok ?_
  rw [format, Load.parse, hp.yaml_ofBytes decoded, hp.yaml_parse plain]
  rfl

/-- A text that is indented with tabs is malformed in YAML. -/
theorem documentOf_tabbed (tabbed : Yaml.Tabbed p.text) (h : Holds s source .yaml p.text) :
    ∃ e, documentOf s.environment s.tree source = .error e ∧
      (DumpError.load e).declared? = some ("MalformedDocumentError", 2) := by
  obtain ⟨n, bytes, named, format, read, decoded⟩ := h
  obtain ⟨e, hparse, plain⟩ := tabbed.parse
  have here : Load.parse (Format.ofName n) bytes = .error (.yaml e) := by
    rw [format, Load.parse, hp.yaml_ofBytes decoded, hparse]
    rfl
  refine ⟨_, (documentOf_of_read named read).trans (parseNamed_error here), ?_⟩
  cases e with
  | defect d => exact absurd rfl (plain d)
  | _ => rfl

end

/-- A text that is read as JSON is that of a page, and loads with its value from a file whose name
tells that it is in JSON. Under the name of a file in YAML it loads with the same value if the page
is plain, and then runs end alike whatever the shell and the output are; but it is malformed if it
is indented with tabs. -/
theorem json_alike_of_plain (accepted : Json.parse text = .ok v) (json : Holds s source .json text)
    (yaml : Holds s source' .yaml text) :
    (load source s).1 = .ok v ∧ (∃ p : Json.Page, p.IsJson ∧ p.text = text) ∧
      (∀ p : Json.Page, p.IsJson → p.text = text → p.IsPlain →
        (load source' s).1 = .ok v ∧ ∀ shell output,
          (dumpFile source shell output s).1 = (dumpFile source' shell output s).1 ∧
            (dumpFile source shell output s).2.tree = (dumpFile source' shell output s).2.tree) ∧
      (Yaml.Tabbed text → ∃ e, (load source' s).1 = .error e ∧
        (DumpError.load e).declared? = some ("MalformedDocumentError", 2)) := by
  obtain ⟨p, hp, rfl, rfl⟩ := Json.parse_eq_ok_iff.1 accepted
  have document := documentOf_json hp json
  refine ⟨(load_eq apart_trace source trivial).1.trans document, ⟨p, hp, rfl⟩, ?_, fun tabbed => ?_⟩
  · intro q hq htext plain
    have value : p.value = q.value :=
      Except.ok.inj (accepted.symm.trans (htext ▸ Json.parse_eq_ok_iff.2 ⟨q, hq, rfl, rfl⟩))
    have document' := documentOf_yaml hq plain (htext ▸ yaml)
    rw [← value] at document'
    exact ⟨(load_eq apart_trace source' trivial).1.trans document', dumpFile_alike document document'⟩
  · obtain ⟨e, document', declared⟩ := documentOf_tabbed hp tabbed yaml
    exact ⟨e, (load_eq apart_trace source' trivial).1.trans document', declared⟩

theorem isBlank_of_all {b : List Char} (h : b.all Json.isSpace = true) : Json.IsBlank b :=
  List.all_eq_true.1 h

/-- A page with a number that has a power of ten. -/
def nested : Json.Page where
  before := []
  root := .map (.last [] [.char 'a'] [] [' '] (.list (.more [] (.number ⟨false, ['1'], ['5'],
    some ⟨'e', some '+', ['3']⟩⟩) [] (.last [' '] (.name ("true".toList, .bool true)) []))) [])
  after := []

/-- A page that is indented with a tab. -/
def indented : Json.Page where
  before := []
  root := .map (.last ['\n', '\t'] [.char 'a'] [] [' '] (.number ⟨false, ['1'], [], none⟩) [])
  after := []

/-- Both pages under two names each. -/
def twins : Trace where
  environment := {}
  tree :=
    let first : List UInt8 := [0x7B, 0x22, 0x61, 0x22, 0x3A, 0x20, 0x5B, 0x31, 0x2E, 0x35, 0x65, 0x2B,
      0x33, 0x2C, 0x20, 0x74, 0x72, 0x75, 0x65, 0x5D, 0x7D]
    let second : List UInt8 := [0x7B, 0x0A, 0x09, 0x22, 0x61, 0x22, 0x3A, 0x20, 0x31, 0x7D]
    { nodes := [([], .directory), (["a.json"], .file first), (["a.yaml"], .file first),
        (["b.json"], .file second), (["b.yaml"], .file second)]
      here := [] }

theorem nested_isJson : nested.IsJson := by
  have number : Json.Numeral.IsJson ⟨false, ['1'], ['5'], some ⟨'e', some '+', ['3']⟩⟩ :=
    ⟨.inr ⟨'1', [], rfl, by decide⟩, List.all_eq_true.1 rfl, by
      rintro p ⟨⟩
      exact ⟨.inl rfl, by rintro c ⟨⟩; exact .inl rfl, List.all_eq_true.1 rfl, by decide⟩⟩
  have blank (b : List Char) := isBlank_of_all (b := b)
  refine ⟨blank _ rfl, ⟨⟨blank _ rfl, ?_, blank _ rfl⟩, blank _ rfl, ?_, blank _ rfl⟩, blank _ rfl⟩
  · exact ⟨⟨by decide, by decide, by decide⟩, nofun, trivial⟩
  · exact ⟨⟨blank _ rfl, number, blank _ rfl⟩, blank _ rfl, by simp [Json.Source.IsJson, Json.names],
      blank _ rfl⟩

theorem nested_isPlain : nested.IsPlain := by
  refine ⟨by decide, ⟨⟨by decide, ?_, nofun, by decide⟩, by decide, ?_, by decide⟩, by decide⟩
  · exact List.forall_mem_singleton.2 (show _ ∧ _ by decide)
  · exact ⟨⟨by decide, by rintro p ⟨⟩; decide, by decide⟩, by decide, nofun, by decide⟩

theorem indented_isJson : indented.IsJson := by
  have number : Json.Numeral.IsJson ⟨false, ['1'], [], none⟩ :=
    ⟨.inr ⟨'1', [], rfl, by decide⟩, List.all_eq_true.1 rfl, nofun⟩
  have blank (b : List Char) := isBlank_of_all (b := b)
  refine ⟨blank _ rfl, ⟨⟨blank _ rfl, ?_, blank _ rfl⟩, blank _ rfl, number, blank _ rfl⟩, blank _ rfl⟩
  exact ⟨⟨by decide, by decide, by decide⟩, nofun, trivial⟩

/-- The plain page gives one document under both names, and the one with a tab does not. -/
theorem json_alike_of_plain_twins :
    ((load "a.json" twins).1 = .ok nested.value ∧ (load "a.yaml" twins).1 = .ok nested.value) ∧
      (load "b.json" twins).1 = .ok indented.value ∧ ∃ e, (load "b.yaml" twins).1 = .error e ∧
        (DumpError.load e).declared? = some ("MalformedDocumentError", 2) := by
  have accepted : Json.parse nested.text = .ok nested.value :=
    Json.parse_eq_ok_iff.2 ⟨nested, nested_isJson, rfl, rfl⟩
  have accepted' : Json.parse indented.text = .ok indented.value :=
    Json.parse_eq_ok_iff.2 ⟨indented, indented_isJson, rfl, rfl⟩
  have json : Holds twins "a.json" .json nested.text := ⟨_, _, rfl, rfl, rfl, rfl⟩
  have yaml : Holds twins "a.yaml" .yaml nested.text := ⟨_, _, rfl, rfl, rfl, rfl⟩
  have json' : Holds twins "b.json" .json indented.text := ⟨_, _, rfl, rfl, rfl, rfl⟩
  have yaml' : Holds twins "b.yaml" .yaml indented.text := ⟨_, _, rfl, rfl, rfl, rfl⟩
  obtain ⟨loaded, -, alike, -⟩ := json_alike_of_plain accepted json yaml
  obtain ⟨loaded', -, -, refused⟩ := json_alike_of_plain accepted' json' yaml'
  refine ⟨⟨loaded, (alike nested nested_isJson rfl nested_isPlain).1⟩, loaded',
    refused (.intro [] ['\n'] _ '\x7b' (.inr rfl) ?_ ?_)⟩
  · exact nofun
  · exact List.forall_mem_singleton.2 (by decide)

end ShellCompletion.Dump
