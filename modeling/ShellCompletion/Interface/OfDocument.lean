import ShellCompletion.Interface.Draft

/-! The interface that a document describes: its draft, with texts where texts belong and
numbers where numbers do. Building fails only on documents that the schema of interfaces
rejects. -/
namespace ShellCompletion

open Document

namespace Draft

def text : Value → Except BuildError String
  | .str s => .ok s
  | v => .error (.unexpected v.typeName)

def Source.settle : Draft.Source → Except BuildError ShellCompletion.Source
  | builtin k => .ok (.builtin k)
  | command argv => do return .command (← argv.mapM text)

/-- The index of a slot, where the word for all remaining arguments is one. -/
def index : Value → Except BuildError SlotIndex
  | .int n => .ok (.number n)
  | .str s => if s = Schema.catchAll then .ok .all else .error (.unexpected "str")
  | v => .error (.unexpected v.typeName)

def ValueSpec.settle (v : Draft.ValueSpec) : Except BuildError ShellCompletion.ValueSpec := do
  return { name := ← text v.name, source := ← v.source.mapM Source.settle }

def OptionSpec.settle (o : Draft.OptionSpec) : Except BuildError ShellCompletion.OptionSpec := do
  return {
    flags := ← o.flags.mapM text
    description := ← text o.description
    value := ← o.value.mapM ValueSpec.settle }

def SlotSpec.settle (s : Draft.SlotSpec) : Except BuildError ShellCompletion.SlotSpec := do
  return {
    index := ← Draft.index s.index
    name := ← text s.name
    source := ← s.source.mapM Source.settle
    skipIf := ← s.skipIf.mapM (·.mapM text) }

/-- The interface of a draft. -/
def settle (d : Draft) : Except BuildError Interface := do
  return {
    name := ← text d.name
    doubleDash := d.doubleDash
    flagMark := ← text d.flagMark
    options := ← d.options.mapM OptionSpec.settle
    slots := ← d.slots.mapM SlotSpec.settle }

end Draft

/-- The interface that a mapping describes. -/
def Interface.ofEntries (es : Entries) : Except BuildError Interface := do
  (← Draft.ofEntries es).settle

theorem Interface.ofEntries_eq (es : Entries) :
    ofEntries es = (Draft.ofEntries es).bind Draft.settle := rfl

end ShellCompletion
