/-! How alike two texts are, and the closest of several known words. The longest common
run of the two texts is taken, then the longest common runs before it and after it, and
so on; the share of the characters so matched is the similarity. Characters that are
very frequent in a long second text do not start a run. Two cheap upper bounds of the
similarity are tried first. -/
namespace ShellCompletion.Text

/-- A common run: where it starts in the two texts, and how long it is. -/
structure CommonRun where
  left : Nat
  right : Nat
  size : Nat
deriving DecidableEq, Repr

/-- For each place of `b`, the length of the common run that ends there and at the
character `c` of the other text, from the lengths for the character before `c`. -/
def runRow (usual : Char → Bool) (c : Char) (b : List Char) (prev : List Nat) : List Nat :=
  (b.zip (0 :: prev)).map fun (d, k) => if d == c && !usual d then k + 1 else 0

/-- Keep the longest run seen, the first one on a tie. The row is that of place `i` of the
first text, and starts at place `j` of the second. -/
def improve (i : Nat) : Nat → List Nat → CommonRun → CommonRun
  | _, [], best => best
  | j, k :: row, best =>
    improve i (j + 1) row (if best.size < k then ⟨i + 1 - k, j + 1 - k, k⟩ else best)

/-- The longest common run of the rest of the first text, which starts at place `i`. -/
def longestFrom (usual : Char → Bool) (b : List Char) :
    Nat → List Char → List Nat → CommonRun → CommonRun
  | _, [], _, best => best
  | i, c :: a, prev, best =>
    let row := runRow usual c b prev
    longestFrom usual b (i + 1) a row (improve i 0 row best)

/-- How many of the first characters two texts share. -/
def sharedStart : List Char → List Char → Nat
  | c :: a, d :: b => if c == d then sharedStart a b + 1 else 0
  | _, _ => 0

/-- A run made longer at both ends as far as the texts agree. -/
def extendRun (a b : List Char) (m : CommonRun) : CommonRun :=
  let back := sharedStart (a.take m.left).reverse (b.take m.right).reverse
  let ahead := sharedStart (a.drop (m.left + m.size)) (b.drop (m.right + m.size))
  ⟨m.left - back, m.right - back, back + m.size + ahead⟩

/-- The longest common run of two texts. -/
def longestRun (usual : Char → Bool) (a b : List Char) : CommonRun :=
  extendRun a b (longestFrom usual b 0 a (b.map fun _ => 0) ⟨0, 0, 0⟩)

/-- How many characters are matched, splitting at most `fuel` times in depth. -/
def matchedFrom (usual : Char → Bool) : Nat → List Char → List Char → Nat
  | 0, _, _ => 0
  | fuel + 1, a, b =>
    let m := longestRun usual a b
    if m.size = 0 then 0
    else
      m.size + matchedFrom usual fuel (a.take m.left) (b.take m.right) +
        matchedFrom usual fuel (a.drop (m.left + m.size)) (b.drop (m.right + m.size))

/-- Characters too frequent in a text of two hundred characters or more to start a run. -/
def tooUsual (b : List Char) (c : Char) : Bool :=
  200 ≤ b.length && b.length / 100 + 1 < b.count c

/-- How many characters of two texts are matched. -/
def matched (a b : List Char) : Nat := matchedFrom (tooUsual b) (a.length + 1) a b

/-- A similarity: matched characters of both texts, out of all characters of both. -/
structure Similarity where
  part : Nat
  whole : Nat
deriving DecidableEq, Repr

namespace Similarity

/-- The similarity of two texts of which `k` characters each are matched. Two empty texts
are alike. -/
def ofMatched (k : Nat) (a b : List Char) : Similarity :=
  if a.length + b.length = 0 then ⟨1, 1⟩ else ⟨2 * k, a.length + b.length⟩

def le (r s : Similarity) : Bool := r.part * s.whole ≤ s.part * r.whole

/-- Alike enough for a suggestion: at least six tenths. -/
def close (r : Similarity) : Bool := 6 * r.whole ≤ 10 * r.part

end Similarity

/-- How many characters two texts have in common, wherever they stand. -/
def shared (a b : List Char) : Nat :=
  match a with
  | [] => 0
  | c :: r => if b.contains c then shared r (b.erase c) + 1 else shared r b

def similarity (a b : List Char) : Similarity := .ofMatched (matched a b) a b

/-- An upper bound of the similarity, from the lengths. -/
def lengthBound (a b : List Char) : Similarity := .ofMatched (min a.length b.length) a b

/-- An upper bound of the similarity, from the characters regardless of their places. -/
def sharedBound (a b : List Char) : Similarity := .ofMatched (shared a b) a b

/-- Is a known word close to a text? The bounds are tried before the similarity itself. -/
def isClose (known text : List Char) : Bool :=
  (lengthBound known text).close && (sharedBound known text).close && (similarity known text).close

/-- The better of two candidates: the more similar, of equally similar ones the greater. -/
def betterOf (text : String) (v w : String) : String :=
  let r := similarity v.toList text.toList
  let s := similarity w.toList text.toList
  if !s.le r then w
  else if !r.le s then v
  else if v < w then w else v

/-- The known word closest to a text, if one is close. -/
def closest (text : String) (known : List String) : Option String :=
  match known.filter fun w => isClose w.toList text.toList with
  | [] => none
  | w :: ws => some (ws.foldl (betterOf text) w)

theorem sharedStart_le_left (a b : List Char) : sharedStart a b ≤ a.length := by
  induction a generalizing b with
  | nil => simp [sharedStart]
  | cons c a ih =>
    cases b with
    | nil => simp [sharedStart]
    | cons d b =>
      simp only [sharedStart, List.length_cons]
      split <;> grind

end ShellCompletion.Text
