/-! Places inside a document: the keys and the element numbers that lead to a value from
the root. The written form puts points between keys and element numbers in brackets. -/
namespace ShellCompletion.Schema

inductive Step where
  | key (name : String)
  | item (index : Nat)
deriving DecidableEq, Repr

abbrev Path := List Step

namespace Path

/-- The written form of a place one step further than the place written `text`. -/
def step (text : String) : Step → String
  | .key name => if text.isEmpty then name else text ++ "." ++ name
  | .item index => s!"{text}[{index}]"

def text (p : Path) : String := p.foldl step ""

/-- The place that a caller names by a text; the empty text is the root. -/
def ofText (s : String) : Path := if s.isEmpty then [] else [.key s]

def key (p : Path) (name : String) : Path := p ++ [.key name]

def item (p : Path) (index : Nat) : Path := p ++ [.item index]

/-- The written form, or another name for the root. -/
def textOr (root : String) (p : Path) : String := if p.text.isEmpty then root else p.text

theorem text_nil : text [] = "" := rfl

theorem text_item (p : Path) (index : Nat) : (p.item index).text = s!"{p.text}[{index}]" := by
  simp [text, item, step]

end Path

/-- The name of the document as a whole. -/
def rootName : String := "<document>"

end ShellCompletion.Schema
