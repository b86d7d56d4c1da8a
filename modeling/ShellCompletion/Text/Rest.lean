/-! The rest of a text that is being read, with the number of characters before it. -/
namespace ShellCompletion.Text

structure Rest where
  offset : Nat
  chars : List Char
deriving DecidableEq, Repr

namespace Rest

def ofText (s : List Char) : Rest := ⟨0, s⟩

/-- The rest after some more characters. -/
def drop (r : Rest) (n : Nat) : Rest := ⟨r.offset + n, r.chars.drop n⟩

/-- The rest after the characters at its front that satisfy a test. -/
def skip (p : Char → Bool) (r : Rest) : Rest := r.drop (r.chars.takeWhile p).length

/-- Does the rest begin with some characters? -/
def startsWith (r : Rest) (s : List Char) : Bool := s.isPrefixOf r.chars

theorem drop_zero (r : Rest) : r.drop 0 = r := rfl

end Rest

/-- The line of a place, counted from one, and the number of characters before it in its
line. -/
def lineAndOffset (text : List Char) (offset : Nat) : Nat × Nat :=
  let before := text.take offset
  (before.count '\n' + 1, (before.reverse.takeWhile (· != '\n')).length)

end ShellCompletion.Text
