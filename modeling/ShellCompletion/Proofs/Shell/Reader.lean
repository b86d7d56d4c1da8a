import ShellCompletion.Proofs.Text.Joined
import ShellCompletion.Shell.Line

/-! A reader of shell text that knows quotations and comments. Between single quotes, and
between double quotes, everything up to the closing mark is quoted; a number sign where a
word begins starts a comment that ends with the line. The reader keeps what is neither, so
that two texts with the same kept part differ in quotations and comments only. A quoted
text takes the reader out of program text and back, and nothing of it is kept. Nothing is
claimed of backslashes, which the reader takes for ordinary characters. -/
namespace ShellCompletion.Shell

/-- Where the reader stands: in program text, at the beginning of a word or not, in a
quotation, or in a comment. -/
inductive Mode where
  | program (start : Bool)
  | single
  | double
  | comment
deriving DecidableEq, Repr

/-- Is the character one that a word may begin after? -/
def endsWord (c : Char) : Bool := [' ', '\t', '\n', ';', '&', '|', '(', ')', '<', '>'].contains c

namespace Mode

def isProgram : Mode → Bool
  | program _ => true
  | _ => false

def isOutside : Mode → Bool
  | program _ | comment => true
  | single | double => false

def step : Mode → Char → Mode
  | program start, c =>
    if c = '\'' then single
    else if c = '"' then double
    else if c = '#' ∧ start then comment
    else program (endsWord c)
  | single, c => if c = '\'' then program false else single
  | double, c => if c = '"' then program false else double
  | comment, c => if c = '\n' then program true else comment

/-- Is the character kept? The marks of quotations are not, and of a comment only the end
of its line is. -/
def keeps : Mode → Char → Bool
  | program start, c => !(c = '\'' || c = '"' || (c = '#' && start))
  | single, _ | double, _ => false
  | comment, c => c = '\n'

/-- Where the reader stands after a text. -/
def run (m : Mode) (s : List Char) : Mode := s.foldl step m

/-- What the reader keeps of a text. -/
def kept (m : Mode) : List Char → List Char
  | [] => []
  | c :: s => (if m.keeps c then [c] else []) ++ kept (m.step c) s

theorem run_append (m : Mode) (s t : List Char) : m.run (s ++ t) = (m.run s).run t :=
  List.foldl_append

theorem kept_append (m : Mode) (s t : List Char) :
    m.kept (s ++ t) = m.kept s ++ (m.run s).kept t := by
  induction s generalizing m with
  | nil => rfl
  | cons c s ih => simp [kept, run, ih]

end Mode

open Mode

/-- A text takes the reader from one mode to another, and this is kept of it. -/
structure Reads (m : Mode) (s : List Char) (n : Mode) (k : List Char) : Prop where
  run_eq : m.run s = n
  kept_eq : m.kept s = k

namespace Reads

variable {l m n : Mode} {s t j k : List Char}

theorem nil (m : Mode) : Reads m [] m [] := ⟨rfl, rfl⟩

theorem append (h : Reads l s m j) (h' : Reads m t n k) : Reads l (s ++ t) n (j ++ k) := by
  constructor
  · rw [run_append, h.run_eq, h'.run_eq]
  · rw [kept_append, h.run_eq, h.kept_eq, h'.kept_eq]

theorem cons {c : Char} (hk : l.keeps c = false) (h : Reads (l.step c) s n k) :
    Reads l (c :: s) n k := by
  constructor
  · exact h.run_eq
  · simp [kept, hk, h.kept_eq]

/-- A list of texts that are each passed over is passed over. -/
theorem flatMap {α : Type} {f : α → List Char} {xs : List α} (h : ∀ x ∈ xs, Reads m (f x) m []) :
    Reads m (xs.flatMap f) m [] := by
  induction xs with
  | nil => exact nil m
  | cons x xs ih => exact (h x (by simp)).append (ih fun y hy => h y (by simp [hy]))

theorem intercalate {sep : List Char} {ts : List (List Char)} (hs : Reads m sep m [])
    (h : ∀ t ∈ ts, Reads m t m []) : Reads m (List.intercalate sep ts) m [] := by
  induction ts with
  | nil => exact nil m
  | cons t ts ih =>
    have ih := ih fun u hu => h u (by simp [hu])
    cases ts with
    | nil => simpa [List.intercalate] using h t (by simp)
    | cons u us =>
      rw [List.intercalate_cons_cons]
      exact ((h t (by simp)).append hs).append ih

end Reads

/-! ### Quoted texts -/

theorem reads_quoteChar (c : Char) : Reads single (quoteChar c) single [] := by
  by_cases h : c = '\''
  · subst h
    exact ⟨rfl, rfl⟩
  · rw [quoteChar, if_neg h]
    exact ⟨by simp [run, step, h], by simp [kept, keeps]⟩

/-- Between its marks a quotation may hold any text, escaped character by character. -/
theorem reads_quotation {s : List Char} (h : Reads single s single []) (start : Bool) :
    Reads (program start) ('\'' :: s ++ ['\'']) (program false) [] :=
  .cons rfl (h.append (k := []) ⟨rfl, rfl⟩)

theorem reads_quote (s : String) (start : Bool) :
    Reads (program start) (quote s).toList (program false) [] := by
  rw [toList_quote]
  exact reads_quotation (.flatMap fun c _ => reads_quoteChar c) start

theorem toList_embed (s : String) : (embed s).toList = embedChars s.toList := by simp [embed]

theorem reads_wordList (ss : List String) (start : Bool) :
    Reads (program start) (Piece.wordList ss).text.toList (program false) [] := by
  have h : Reads single (List.intercalate [' '] (ss.map fun s => (embed s).toList)) single [] := by
    refine .intercalate ⟨rfl, rfl⟩ fun t ht => ?_
    obtain ⟨s, _, rfl⟩ := List.mem_map.1 ht
    rw [toList_embed]
    exact .flatMap fun c _ => reads_quoteChar c
  have := reads_quotation h start
  simpa [Piece.text, String.toList_intercalate, Function.comp_def] using this

/-! ### Comments -/

theorem reads_comment {s : List Char} (h : '\n' ∉ s) : Reads comment s comment [] := by
  induction s with
  | nil => exact .nil _
  | cons c s ih =>
    simp only [List.mem_cons, not_or] at h
    have hc : c ≠ '\n' := Ne.symm h.1
    refine .cons (by simp [keeps, hc]) ?_
    rw [step, if_neg hc]
    exact ih h.2

theorem newline_not_mem_collapse (s : String) : '\n' ∉ (Text.collapse s).toList := by
  refine Text.not_mem_intercalate (by decide) (List.forall_mem_map.2 fun w hw hm => ?_)
  rw [String.toList_ofList] at hm
  exact absurd ((Text.words_solid _ w hw).2 _ hm) (by decide)

theorem reads_commentText (s : String) :
    Reads (program true) (commentText s).toList comment [] := by
  have h : (commentText s).toList = '#' :: ' ' :: (Text.collapse s).toList := by
    simp [commentText]
  rw [h]
  exact .cons rfl (.cons rfl (reads_comment (newline_not_mem_collapse s)))

end ShellCompletion.Shell
