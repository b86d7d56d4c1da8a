import ShellCompletion.Script.Sections

/-! The text of a completion script: a function that finds the candidates, and the
statement that binds it to the command. -/
namespace ShellCompletion.Script

open Shell

/-- The name of the program that writes the scripts. -/
def toolName : String := "acdump"

/-- Characters that may stand in the name of a function. -/
def isNameChar (c : Char) : Bool :=
  ('A' ≤ c && c ≤ 'Z') || ('a' ≤ c && c ≤ 'z') || ('0' ≤ c && c ≤ '9') || c == '_'

/-- The name of the function of a command: every other character becomes an underscore. -/
def functionName (i : Interface) : String :=
  String.ofList ('_' :: i.name.toList.map fun c => if isNameChar c then c else '_')

/-- The lines inside the function. -/
def bodyLines (p : Plan) : List Line :=
  [ .plain "local cur=$\x7bCOMP_WORDS[COMP_CWORD]\x7d",
    .plain "local prev=$\x7bCOMP_WORDS[COMP_CWORD-1]\x7d",
    .plain "COMPREPLY=()",
    .blank] ++
  stateLines p ++
  [ .blank,
    .plain "local word_i slot_pos slot line",
    .plain "local -a lines",
    .blank] ++
  scanLines p ++ skipLines p ++ [.blank] ++ slotLines ++ [.blank] ++ modeLines ++ [.blank] ++
  candidateLines p

/-- The lines of the function with its heading. -/
def lines (i : Interface) : List Line :=
  [ .comment ("bash completion for " ++ i.name),
    .comment ("generated by " ++ toolName ++ ", do not edit"),
    .blank,
    .plain (functionName i ++ "() \x7b")] ++
  indent 1 (bodyLines (.ofInterface i)) ++
  [.plain "\x7d"]

/-- The text of the function. -/
def text (i : Interface) : String := "\n".intercalate ((lines i).map Line.text)

/-- The statement that binds the function to the command. -/
def registration (i : Interface) : Line :=
  { pieces := [.code ("complete -F " ++ functionName i ++ " "), .word i.name] }

/-- The function followed by its registration. -/
def whole (i : Interface) : String := text i ++ "\n" ++ (registration i).text

end ShellCompletion.Script
