/-! Sets of code points, given by a sorted table of the first and the last of each run. -/
namespace ShellCompletion.Text

abbrev Ranges := Array (Nat × Nat)

namespace Ranges

/-- Is a number within one of the runs `lo ≤ i < hi` of a table? Every step halves the part of
the table that is left. -/
def holdsFrom (table : Ranges) (n : Nat) : Nat → Nat → Nat → Bool
  | 0, _, _ => false
  | fuel + 1, lo, hi =>
    if lo < hi then
      let mid := (lo + hi) / 2
      match table[mid]? with
      | none => false
      | some (first, last) =>
        if n < first then holdsFrom table n fuel lo mid
        else if last < n then holdsFrom table n fuel (mid + 1) hi
        else true
    else false

def holds (table : Ranges) (c : Char) : Bool :=
  holdsFrom table c.toNat (table.size + 1) 0 table.size

end Ranges

end ShellCompletion.Text
