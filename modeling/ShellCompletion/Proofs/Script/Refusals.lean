import ShellCompletion.Proofs.Interface.Located
import ShellCompletion.Proofs.Schema.OneLine
import ShellCompletion.Proofs.Script.Compilation

/-! What is told of a document that is rejected. The main statement says that each violation is
told on one line, whatever texts the document holds, and that compiling the document fails with
one message, again on one line, that has the texts of all violations in their order. -/
namespace ShellCompletion.Script

open Document Interface Schema Text

theorem message_rejected (vs : List Violation) : (CompileError.rejected vs).message =
    "cannot accept source: " ++ "; ".intercalate (vs.map (·.text)) := rfl

variable {document : Value} {vs : List Violation}

theorem oneLine_violations (h : (validate document).1 = .rejected vs) :
    ∀ v ∈ vs, OneLine v.text.toList := by
  have hvs : violations document = vs := by rw [violations, h]
  obtain ⟨es, rfl⟩ | ⟨_, hv⟩ := eq_map_or_validate_eq document
  · intro v hv
    rw [← hvs, violations_map] at hv
    exact oneLine_of_mem_checkMap areWords_documentFields hv
  · rw [hv] at h
    cases h
    intro v hv
    obtain rfl := List.mem_singleton.1 hv
    have hm : OneLine ("Expected a mapping at the top level, got " ++ document.typeName).toList := by
      rw [String.toList_append, oneLine_append]
      exact ⟨oneLine_ofList, oneLine_typeName document⟩
    have hp : OneLine rootName.toList := oneLine_ofList
    exact oneLine_problemText hp hm oneLine_nil

/-- A rejected document is told on one line: the text of each violation, and the message with
which compiling for a shell fails, which has these texts in their order. -/
theorem refusals_on_one_line (h : (validate document).1 = .rejected vs) :
    (∀ v ∈ vs, OneLine v.text.toList) ∧
      ∀ t : Target, ∃ e, (compile t.name document).1 = .error e ∧
        e.message = "cannot accept source: " ++ "; ".intercalate (vs.map (·.text)) ∧
        OneLine e.message.toList := by
  have hv := oneLine_violations h
  refine ⟨hv, fun t => ⟨.rejected vs, by rw [compile_rejected t h], message_rejected vs, ?_⟩⟩
  rw [message_rejected, String.toList_append, oneLine_append]
  refine ⟨oneLine_ofList, oneLine_intercalate oneLine_ofList fun s hs => ?_⟩
  obtain ⟨v, hm, rfl⟩ := List.mem_map.1 hs
  exact hv v hm

/-- Texts with line breaks of several kinds as an index, as a key and in place of a builtin source:
they are shown by escapes. -/
theorem refusals_on_one_line_separators :
    let source : Value := .map [(.str "builtin", .str "a\u2028b")]
    let document : Value := .map [(.str "name", .str "t"), (.str "x\ny", .null), (.str "args",
      .list [.map [(.str "index", .str "1\n\u00852"), (.str "comp", source)]])]
    let index := "Config error for 'args[0].index': Expected a positive integer or 'all', got '1\\n\\x852'"
    let builtin := "Config error for 'args[0].comp.builtin': Invalid value 'a\\u2028b' -> " ++
      "Valid options: 'files', 'directories'"
    (violations document).map (·.text) = [index, builtin] ∧
      (∀ v ∈ violations document, OneLine v.text.toList) ∧
      ∃ e, (compile "bash" document).1 = .error e ∧
        e.message = "cannot accept source: " ++ (index ++ "; " ++ builtin) ∧
        OneLine e.message.toList := by
  intro source document index builtin
  have hv : (validate document).1 = .rejected (violations document) := by decide +kernel
  have ht : (violations document).map (·.text) = [index, builtin] := by decide +kernel
  obtain ⟨hl, he⟩ := refusals_on_one_line hv
  obtain ⟨e, hc, hm, ho⟩ := he .bash
  rw [ht] at hm
  exact ⟨ht, hl, e, hc, hm, ho⟩

end ShellCompletion.Script
