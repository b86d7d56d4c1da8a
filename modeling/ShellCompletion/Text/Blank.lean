/-! Blank characters, and the splitting and trimming of text at them. A text is
cut into its words, the maximal runs of characters that are not blank; collapsing
it joins the words by single spaces. The main statement says that no word is empty
or holds a blank. -/
namespace ShellCompletion.Text

/-- The characters that separate words: the spaces and line separators of Unicode
and the four information separators. -/
def isBlank (c : Char) : Bool :=
  let n := c.toNat
  n == 0x20 || (0x09 ≤ n && n ≤ 0x0D) || (0x1C ≤ n && n ≤ 0x1F) || n == 0x85 || n == 0xA0 ||
    n == 0x1680 || (0x2000 ≤ n && n ≤ 0x200A) || n == 0x2028 || n == 0x2029 || n == 0x202F ||
    n == 0x205F || n == 0x3000

/-- The word read so far, unless nothing has been read. -/
def closeWord (cur : List Char) : List (List Char) :=
  if cur.isEmpty then [] else [cur]

/-- The words of a text whose first word began with `cur` before it. -/
def wordsFrom (cur : List Char) : List Char → List (List Char)
  | [] => closeWord cur
  | c :: r => if isBlank c then closeWord cur ++ wordsFrom [] r else wordsFrom (cur ++ [c]) r

/-- The maximal runs of characters that are not blank. -/
def words (s : List Char) : List (List Char) := wordsFrom [] s

/-- The words of a text with one space between neighbours. -/
def collapse (s : String) : String :=
  String.intercalate " " ((words s.toList).map String.ofList)

/-- A text without the characters of a kind at its two ends. -/
def trimBy (kind : Char → Bool) (s : List Char) : List Char :=
  ((s.dropWhile kind).reverse.dropWhile kind).reverse

/-- A text without the blanks at its two ends. -/
def trim (s : List Char) : List Char := trimBy isBlank s

theorem mem_closeWord {cur w : List Char} : w ∈ closeWord cur ↔ w = cur ∧ cur ≠ [] := by
  cases cur <;> simp [closeWord]

theorem wordsFrom_solid (cur s : List Char) (hcur : ∀ c ∈ cur, isBlank c = false) :
    ∀ w ∈ wordsFrom cur s, w ≠ [] ∧ ∀ c ∈ w, isBlank c = false := by
  induction s generalizing cur with
  | nil =>
    intro w hw
    obtain ⟨rfl, h⟩ := mem_closeWord.1 hw
    exact ⟨h, hcur⟩
  | cons c r ih =>
    intro w hw
    rw [wordsFrom] at hw
    split at hw
    · rcases List.mem_append.1 hw with h | h
      · obtain ⟨rfl, h⟩ := mem_closeWord.1 h
        exact ⟨h, hcur⟩
      · exact ih [] (by simp) w h
    · rename_i hc
      refine ih (cur ++ [c]) (fun d hd => ?_) w hw
      rcases List.mem_append.1 hd with h | h
      · exact hcur d h
      · simp_all

/-- Words are never empty and hold no blank. -/
theorem words_solid (s : List Char) : ∀ w ∈ words s, w ≠ [] ∧ ∀ c ∈ w, isBlank c = false :=
  wordsFrom_solid [] s (by simp)

end ShellCompletion.Text
