import ShellCompletion.Text.Digit
import ShellCompletion.Text.Printable

/-! The literal of a text, as messages show it: the text between quotes, every character
that is not printable written as an escape. Single quotes are used unless the text holds
a single quote and no double quote. -/
namespace ShellCompletion.Text

/-- An escape for a code point, with as few digits as its size allows. -/
def escapeCode (n : Nat) : List Char :=
  if n < 0x100 then '\\' :: 'x' :: hex 2 n
  else if n < 0x10000 then '\\' :: 'u' :: hex 4 n
  else '\\' :: 'U' :: hex 8 n

/-- One character inside a literal with the given quote. -/
def escapeChar (quote c : Char) : List Char :=
  if c == quote || c == '\\' then ['\\', c]
  else if c == '\n' then ['\\', 'n']
  else if c == '\r' then ['\\', 'r']
  else if c == '\t' then ['\\', 't']
  else if isPrintable c then [c]
  else escapeCode c.toNat

/-- The quote of the literal of a text. -/
def literalQuote (s : List Char) : Char :=
  if s.contains '\'' && !s.contains '"' then '"' else '\''

/-- The characters of the literal of a text. -/
def literalChars (s : List Char) : List Char :=
  let q := literalQuote s
  q :: s.flatMap (escapeChar q) ++ [q]

/-- The literal of a text. -/
def literal (s : String) : String := String.ofList (literalChars s.toList)

end ShellCompletion.Text
