import ShellCompletion.Schema.Field

/-! The schema of the documents that describe an interface. -/
namespace ShellCompletion.Interface

open Schema

/-- The source of the candidates for a word: a builtin one or a command. -/
def sourceField : Field where
  name := "comp"
  type := .mapOf [
    { name := "builtin", choices := some [.str "files", .str "directories"] },
    { name := "cmd", type := .listOf .str, rule := some .notEmptyList }]
  rule := some .oneSource

def optionFields : List Field := [
  { name := "short", type := .listOf .str, rule := some .noEmptyElements },
  { name := "description" },
  { name := "value", type := .mapOf [{ name := "name" }, sourceField] }]

def slotFields : List Field := [
  { name := "index", type := .oneOf [.basic .int, .basic .str], rule := some .slotIndex },
  { name := "name" },
  sourceField,
  { name := "skip_if", type := .mapOf [
    { name := "has_opt_any", type := .listOf .str, rule := some .noEmptyElements }] }]

/-- The fields at the top of a document. -/
def documentFields : List Field := [
  { name := "name", required := true, rule := some .notEmpty },
  { name := "use_doubledash", type := .one (.basic .bool) },
  { name := "short_opt_prefix", rule := some .notEmpty },
  { name := "opts", type := .listOfMaps optionFields },
  { name := "args", type := .listOfMaps slotFields, rule := some .distinctSlots }]

end ShellCompletion.Interface
