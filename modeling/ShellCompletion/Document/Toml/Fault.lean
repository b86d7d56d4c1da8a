import ShellCompletion.Text.Decoding
import ShellCompletion.Text.Literal
import ShellCompletion.Text.Rest

/-! What is wrong with a document in TOML, and where. -/
namespace ShellCompletion.Document.Toml

open Text

/-- The parts of a dotted key. -/
abbrev Key := List String

/-- A key as messages show it. -/
def keyText (k : Key) : String :=
  match k with
  | [a] => "(" ++ Text.literal a ++ ",)"
  | k => "(" ++ ", ".intercalate (k.map Text.literal) ++ ")"

inductive Problem where
  | value
  | statement
  | noEquals
  | overwrite
  | declaredTwice (key : Key)
  | redefined (key : Key)
  | immutable (key : Key)
  | keyStart
  | openTable
  | duplicate (part : String)
  | openArray
  | backslash
  | hexValue
  | noScalar
  | unterminated
  | expected (text : String)
  | illegal (c : Char)
  | invalid (c : Char)
  | noNewline
  | date
  | tableEnd
  | arrayEnd
deriving DecidableEq, Repr

def Problem.message : Problem → String
  | value => "Invalid value"
  | statement => "Invalid statement"
  | noEquals => "Expected '=' after a key in a key/value pair"
  | overwrite => "Cannot overwrite a value"
  | declaredTwice k => "Cannot declare " ++ keyText k ++ " twice"
  | redefined k => "Cannot redefine namespace " ++ keyText k
  | immutable k => "Cannot mutate immutable namespace " ++ keyText k
  | keyStart => "Invalid initial character for a key part"
  | openTable => "Unclosed inline table"
  | duplicate part => "Duplicate inline table key " ++ Text.literal part
  | openArray => "Unclosed array"
  | backslash => "Unescaped '\\' in a string"
  | hexValue => "Invalid hex value"
  | noScalar => "Escaped character is not a Unicode scalar value"
  | unterminated => "Unterminated string"
  | expected s => "Expected " ++ Text.literal s
  | illegal c => "Illegal character " ++ Text.literal c.toString
  | invalid c => "Found invalid character " ++ Text.literal c.toString
  | noNewline => "Expected newline or end of document after a statement"
  | date => "Invalid date or datetime"
  | tableEnd => "Expected ']' at the end of a table declaration"
  | arrayEnd => "Expected ']]' at the end of an array declaration"

/-- A problem and the number of characters before its place. -/
structure Fault where
  problem : Problem
  offset : Nat
deriving DecidableEq, Repr

def fault {α : Type} (p : Problem) (r : Rest) : Except Fault α := .error ⟨p, r.offset⟩

inductive Error where
  | undecodable (e : DecodeError)
  /-- A problem at a line and a column, or at the end of the document. -/
  | malformed (problem : Problem) (place : Option (Nat × Nat))
deriving DecidableEq, Repr

def Error.message : Error → String
  | undecodable e => e.message
  | malformed p (some (line, column)) => p.message ++ s!" (at line {line}, column {column})"
  | malformed p none => p.message ++ " (at end of document)"

end ShellCompletion.Document.Toml
