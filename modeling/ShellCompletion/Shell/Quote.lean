/-! Texts as shell words. A text is put between single quotes; a single quote of its own
leaves the quotes, stands between double quotes, and enters again. A word that stands
inside single quotes is escaped a second time. -/
namespace ShellCompletion.Shell

/-- One character between single quotes. -/
def quoteChar (c : Char) : List Char :=
  if c = '\'' then ['\'', '"', '\'', '"', '\''] else [c]

/-- The characters of a quoted text. -/
def quoteChars (s : List Char) : List Char := '\'' :: s.flatMap quoteChar ++ ['\'']

/-- The characters of a quoted text that stands inside single quotes. -/
def embedChars (s : List Char) : List Char := (quoteChars s).flatMap quoteChar

/-- A text as one shell word. -/
def quote (s : String) : String := String.ofList (quoteChars s.toList)

/-- A text as one word of a list that stands inside single quotes. -/
def embed (s : String) : String := String.ofList (embedChars s.toList)

theorem toList_quote (s : String) : (quote s).toList = quoteChars s.toList := by simp [quote]

end ShellCompletion.Shell
