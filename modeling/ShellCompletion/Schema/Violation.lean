import ShellCompletion.Schema.Field
import ShellCompletion.Schema.Path

/-! What can be wrong with a document, and how it is told. A violation is a place and a
problem; its text names the place, states the problem and may end with advice. -/
namespace ShellCompletion.Schema

open Document

/-- What a rule finds wrong. -/
inductive Complaint where
  | empty
  | noElement
  | emptyElement (index : Nat)
  | twoSources
  | noSource
  | badIndex (literal : String)
  | repeatedIndex (place : Nat) (literal : String) (first : Nat)
deriving DecidableEq, Repr

def Complaint.message : Complaint → String
  | empty => "Must not be empty"
  | noElement => "Must contain at least one element"
  | emptyElement i => s!"Element {i} must not be empty"
  | twoSources => "Declares both 'builtin' and 'cmd', exactly one is allowed"
  | noSource => "Declares neither 'builtin' nor 'cmd', exactly one is required"
  | badIndex literal => "Expected a positive integer or 'all', got " ++ literal
  | repeatedIndex i literal j => s!"args[{i}] repeats index {literal} already used by args[{j}]"

/-- What is wrong at a place of a document. -/
inductive Problem where
  /-- The document is not a mapping. -/
  | noMapping (found : String)
  /-- A required field of the mapping at `inside` has no value. -/
  | missing (field : String) (kind : Option Kind) (inside : Path)
  | wrongType (expected found : String) (hint : Option Kind)
  | noChoice (literal : String) (choices : List String)
  | broken (complaint : Complaint)
deriving DecidableEq, Repr

/-- Advice for a value of the wrong type. -/
def Kind.hint : Kind → String
  | bool => "Use true/false (without quotes)"
  | list => "Use a list, e.g. [item1, item2]"
  | map => "Use a mapping, e.g. \x7bkey: value\x7d"
  | str | int | float => ""

/-- Advice for a missing field, by its kind. -/
def missingAdvice (field : String) (kind : Option Kind) (inside : Path) : String :=
  let place := inside.textOr "the top level"
  match kind with
  | some .str => "Add " ++ field ++ ": \"value\" to " ++ place
  | some .bool => "Add " ++ field ++ ": true/false to " ++ place
  | some .list => "Add " ++ field ++ ": [\"item\"] to " ++ place
  | _ => "Add '" ++ field ++ "' to " ++ place

namespace Problem

def message : Problem → String
  | noMapping found => "Expected a mapping at the top level, got " ++ found
  | missing _ _ _ => "Missing required field"
  | wrongType expected found _ => "Expected " ++ expected ++ ", got " ++ found
  | noChoice literal _ => "Invalid value " ++ literal
  | broken c => c.message

/-- Advice, empty when there is none. -/
def suggestion : Problem → String
  | missing field kind inside => missingAdvice field kind inside
  | wrongType _ _ (some kind) => kind.hint
  | noChoice _ choices => "Valid options: " ++ ", ".intercalate choices
  | noMapping _ | wrongType _ _ none | broken _ => ""

end Problem

/-- The text that reports a problem with a field. -/
def problemText (field message suggestion : String) : String :=
  let told := "Config error for '" ++ field ++ "': " ++ message
  if suggestion.isEmpty then told else told ++ " -> " ++ suggestion

/-- One reason why a document is rejected. -/
structure Violation where
  path : Path
  problem : Problem
deriving DecidableEq, Repr

namespace Violation

/-- The written place; only the document as a whole has no steps. -/
def place (v : Violation) : String := if v.path = [] then rootName else v.path.text

def message (v : Violation) : String := v.problem.message

def suggestion (v : Violation) : String := v.problem.suggestion

def text (v : Violation) : String := problemText v.place v.message v.suggestion

end Violation

/-- A key that no field of its mapping has, with the field it may have been meant for. -/
structure Warning where
  inside : Path
  key : String
  meant : Option String
deriving DecidableEq, Repr

def Warning.text (w : Warning) : String :=
  let told := "[" ++ w.inside.textOr rootName ++ "] Unknown option '" ++ w.key ++ "'"
  match w.meant with
  | some name => told ++ " (did you mean '" ++ name ++ "'?)"
  | none => told ++ " - will be ignored"

/-- What checking a mapping finds, each list in the order of discovery. -/
structure Findings where
  violations : List Violation := []
  warnings : List Warning := []
deriving DecidableEq, Repr

namespace Findings

instance : Append Findings :=
  ⟨fun f g => ⟨f.violations ++ g.violations, f.warnings ++ g.warnings⟩⟩

def join (fs : List Findings) : Findings := fs.foldr (· ++ ·) {}

def problem (path : Path) (p : Problem) : Findings := { violations := [⟨path, p⟩] }

@[simp] theorem violations_append (f g : Findings) :
    (f ++ g).violations = f.violations ++ g.violations := rfl

@[simp] theorem warnings_append (f g : Findings) :
    (f ++ g).warnings = f.warnings ++ g.warnings := rfl

theorem join_cons (f : Findings) (fs : List Findings) : join (f :: fs) = f ++ join fs := rfl

end Findings

end ShellCompletion.Schema
