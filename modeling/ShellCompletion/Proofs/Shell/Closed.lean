import ShellCompletion.Proofs.Shell.Reader
import ShellCompletion.Proofs.Text.Numeral

/-! Lines that leave no quotation open. A line is closed when each of its pieces of program
text returns the reader to program text, wherever in a word it begins, or when the line is a
comment. The skeleton of a line has empty texts in its quotations and comments. The main
statements say that the reader stands outside quotations after any closed lines, and that it
keeps of them what it keeps of their skeletons. -/
namespace ShellCompletion.Shell

open Mode

/-! ### Program text -/

/-- The text takes the reader from program text to program text. -/
def Balanced (s : String) : Prop := ∀ start, ((program start).run s.toList).isProgram = true

theorem balanced_iff (s : String) : Balanced s ↔
    ((program false).run s.toList).isProgram = true ∧
      ((program true).run s.toList).isProgram = true := Bool.forall_bool

instance (s : String) : Decidable (Balanced s) := decidable_of_iff _ (balanced_iff s).symm

/-- The characters of a literal are found by unification, so that it is not decoded. -/
theorem balanced_ofList {s : List Char}
    (h : (((program false).run s).isProgram && ((program true).run s).isProgram) = true) :
    Balanced (String.ofList s) := by
  rwa [balanced_iff, String.toList_ofList, ← Bool.and_eq_true]

theorem exists_of_isProgram {m : Mode} (h : m.isProgram = true) : ∃ start, m = program start := by
  cases m <;> simp_all [isProgram]

theorem Balanced.append {s t : String} (hs : Balanced s) (ht : Balanced t) : Balanced (s ++ t) := by
  intro start
  obtain ⟨b, hb⟩ := exists_of_isProgram (hs start)
  rw [String.toList_append, run_append, hb]
  exact ht b

/-- A character that begins neither a quotation nor a comment. -/
def isCalm (c : Char) : Bool := !(['\'', '"', '#'].contains c)

def Calm (s : String) : Prop := s.toList.all isCalm = true

instance (s : String) : Decidable (Calm s) :=
  inferInstanceAs (Decidable (s.toList.all isCalm = true))

theorem calm_iff (s : String) : Calm s ↔ ∀ c ∈ s.toList, isCalm c = true := List.all_eq_true

theorem calm_ofList {s : List Char} (h : s.all isCalm = true) : Calm (String.ofList s) := by
  rwa [Calm, String.toList_ofList]

theorem isCalm_iff (c : Char) : isCalm c = true ↔ c ≠ '\'' ∧ c ≠ '"' ∧ c ≠ '#' := by
  simp [isCalm]

theorem run_of_isCalm {s : List Char} (h : ∀ c ∈ s, isCalm c = true) (start : Bool) :
    ((program start).run s).isProgram = true := by
  induction s generalizing start with
  | nil => rfl
  | cons c s ih =>
    have hc : (program start).step c = program (endsWord c) := by
      simp [step, (isCalm_iff c).1 (h c (by simp))]
    have hr : (program start).run (c :: s) = ((program start).step c).run s := rfl
    rw [hr, hc]
    exact ih (fun d hd => h d (by simp [hd])) _

namespace Calm

theorem balanced {s : String} (h : Calm s) : Balanced s := run_of_isCalm ((calm_iff s).1 h)

theorem append {s t : String} (hs : Calm s) (ht : Calm t) : Calm (s ++ t) := by
  rw [Calm, String.toList_append, List.all_append, hs, ht]
  rfl

theorem intercalate {sep : String} {ts : List String} (hs : Calm sep) (h : ∀ t ∈ ts, Calm t) :
    Calm (sep.intercalate ts) := by
  simp only [calm_iff] at hs h ⊢
  exact Text.forall_mem_intercalate hs h

end Calm

theorem calm_toString (n : Nat) : Calm (toString n) := by
  rw [calm_iff]
  intro c hc
  have hd := Text.isDigit_of_mem_toString hc
  rw [isCalm_iff]
  refine ⟨?_, ?_, ?_⟩ <;> rintro rfl <;> exact absurd hd (by decide)

/-! ### Pieces -/

namespace Piece

def Closed : Piece → Prop
  | code s => Balanced s
  | word _ | wordList _ => True
  | comment _ => False

instance (p : Piece) : Decidable p.Closed :=
  match p with
  | code s => inferInstanceAs (Decidable (Balanced s))
  | word _ | wordList _ => .isTrue trivial
  | comment _ => .isFalse id

@[simp] theorem closed_code_iff (s : String) : (code s).Closed ↔ Balanced s := Iff.rfl

@[simp] theorem closed_word (s : String) : (word s).Closed := trivial

@[simp] theorem closed_wordList (ss : List String) : (wordList ss).Closed := trivial

/-- The piece with empty texts in place of those that it quotes or comments on. -/
def skeleton : Piece → Piece
  | code s => .code s
  | word _ => .word ""
  | wordList _ => .wordList []
  | comment _ => .comment ""

end Piece

/-- The reader goes over both texts in one way. -/
def Alike (m n : Mode) (s t : String) : Prop :=
  ∃ k, Reads m s.toList n k ∧ Reads m t.toList n k

theorem Alike.append {l m n : Mode} {s s' t t' : String} (h : Alike l m s t)
    (h' : Alike m n s' t') : Alike l n (s ++ s') (t ++ t') := by
  obtain ⟨j, hs, ht⟩ := h
  obtain ⟨k, hs', ht'⟩ := h'
  exact ⟨j ++ k, by simpa using hs.append hs', by simpa using ht.append ht'⟩

theorem alike_self {m n : Mode} {s : String} (h : m.run s.toList = n) : Alike m n s s :=
  ⟨m.kept s.toList, ⟨h, rfl⟩, h, rfl⟩

theorem alike_skeleton {p : Piece} (h : p.Closed) (start : Bool) :
    ∃ b, Alike (program start) (program b) p.text p.skeleton.text := by
  cases p with
  | code s =>
    obtain ⟨b, hb⟩ := exists_of_isProgram (h start)
    exact ⟨b, alike_self hb⟩
  | word s => exact ⟨false, [], reads_quote s start, reads_quote "" start⟩
  | wordList ss => exact ⟨false, [], reads_wordList ss start, reads_wordList [] start⟩
  | comment s => exact h.elim

theorem alike_pieces {ps : List Piece} (h : ∀ p ∈ ps, p.Closed) (start : Bool) :
    ∃ b, Alike (program start) (program b) (String.join (ps.map Piece.text))
      (String.join ((ps.map Piece.skeleton).map Piece.text)) := by
  induction ps generalizing start with
  | nil => exact ⟨start, alike_self rfl⟩
  | cons p ps ih =>
    obtain ⟨b, hp⟩ := alike_skeleton (h p (by simp)) start
    obtain ⟨d, hs⟩ := ih (fun q hq => h q (by simp [hq])) b
    exact ⟨d, by simpa using hp.append hs⟩

/-! ### Lines -/

namespace Line

def isComment (l : Line) : Bool :=
  match l.pieces with
  | [.comment _] => true
  | _ => false

def Closed (l : Line) : Prop := (∀ p ∈ l.pieces, p.Closed) ∨ l.isComment = true

instance (l : Line) : Decidable l.Closed :=
  inferInstanceAs (Decidable ((∀ p ∈ l.pieces, p.Closed) ∨ l.isComment = true))

theorem exists_of_isComment {l : Line} (h : l.isComment = true) : ∃ s, l.pieces = [.comment s] := by
  unfold isComment at h
  split at h
  · exact ⟨_, ‹_›⟩
  · simp at h

def skeleton (l : Line) : Line := { l with pieces := l.pieces.map Piece.skeleton }

theorem closed_of_pieces {ps : List Piece} (h : ∀ p ∈ ps, p.Closed) : Closed { pieces := ps } :=
  .inl h

@[simp] theorem closed_plain_iff (s : String) : (plain s).Closed ↔ Balanced s := by
  simp [Closed, plain, Piece.Closed, isComment]

theorem closed_code {s : List Char}
    (h : (((program false).run s).isProgram && ((program true).run s).isProgram) = true) (n : Nat) :
    (Line.mk n [.code (String.ofList s)]).Closed :=
  .inl (List.forall_mem_singleton.2 (balanced_ofList h))

@[simp] theorem closed_blank : blank.Closed := by simp [Closed, blank]

@[simp] theorem closed_comment (s : String) : (comment s).Closed := .inr rfl

@[simp] theorem closed_deeper_iff (n : Nat) (l : Line) : (l.deeper n).Closed ↔ l.Closed := Iff.rfl

theorem run_indentation (n : Nat) :
    (program true).run (String.join (List.replicate n indentation)).toList = program true := by
  induction n with
  | zero => rfl
  | succ n ih =>
    rw [List.replicate_succ, String.join_cons, String.toList_append, run_append]
    exact ih

/-- A closed line ends outside quotations, as its skeleton does. -/
theorem exists_alike_skeleton {l : Line} (h : l.Closed) :
    ∃ m, m.isOutside = true ∧ Alike (program true) m l.text l.skeleton.text := by
  by_cases hp : l.pieces = []
  · have he : Alike (program true) (program true) "" "" := alike_self rfl
    exact ⟨program true, rfl, by simpa [text, skeleton, hp] using he⟩
  have hi := alike_self (run_indentation l.depth)
  rcases h with h | h
  · obtain ⟨b, hb⟩ := alike_pieces h true
    exact ⟨program b, rfl, by simpa [text, skeleton, hp] using hi.append hb⟩
  · obtain ⟨s, hs⟩ := exists_of_isComment h
    have hc : Alike (program true) .comment (commentText s) (commentText "") :=
      ⟨[], reads_commentText s, reads_commentText ""⟩
    exact ⟨.comment, rfl, by simpa [text, skeleton, hs, Piece.text, Piece.skeleton] using hi.append hc⟩

end Line

/-! ### Several lines -/

def AllClosed (ls : List Line) : Prop := ∀ l ∈ ls, l.Closed

instance (ls : List Line) : Decidable (AllClosed ls) :=
  inferInstanceAs (Decidable (∀ l ∈ ls, l.Closed))

@[simp] theorem allClosed_nil : AllClosed [] := by simp [AllClosed]

@[simp] theorem allClosed_cons_iff (l : Line) (ls : List Line) :
    AllClosed (l :: ls) ↔ l.Closed ∧ AllClosed ls := by simp [AllClosed]

@[simp] theorem allClosed_append_iff (ls ms : List Line) :
    AllClosed (ls ++ ms) ↔ AllClosed ls ∧ AllClosed ms := List.forall_mem_append

@[simp] theorem allClosed_indent_iff (n : Nat) (ls : List Line) :
    AllClosed (indent n ls) ↔ AllClosed ls := by simp [AllClosed, indent]

theorem AllClosed.cons {l : Line} {ls : List Line} (h : l.Closed) (hs : AllClosed ls) :
    AllClosed (l :: ls) := (allClosed_cons_iff l ls).2 ⟨h, hs⟩

theorem allClosed_map {α : Type} {f : α → Line} (h : ∀ x, (f x).Closed) (xs : List α) :
    AllClosed (xs.map f) := List.forall_mem_map.2 fun x _ => h x

theorem allClosed_flatMap {α : Type} {f : α → List Line} {xs : List α}
    (h : ∀ x ∈ xs, AllClosed (f x)) : AllClosed (xs.flatMap f) := List.forall_mem_flatMap.2 h

/-- The pattern and the body of the branch are closed. -/
structure Branch.Closed (b : Branch) : Prop where
  pattern : ∀ p ∈ b.pattern, p.Closed
  body : AllClosed b.body

theorem closed_branchLines {b : Branch} (h : b.Closed) : AllClosed b.lines := by
  have hp : Line.Closed { pieces := b.pattern ++ [.code ")"] } := by
    have hb : Balanced ")" := balanced_ofList rfl
    refine Line.closed_of_pieces (List.forall_mem_append.2 ⟨h.pattern, ?_⟩)
    simpa using hb
  have hn : AllClosed (if b.note.isEmpty then [] else [(Line.comment b.note).deeper 1]) := by
    split <;> simp
  have he : Balanced ";;" := balanced_ofList rfl
  simp only [Branch.lines, allClosed_cons_iff, allClosed_append_iff, allClosed_indent_iff,
    Line.closed_deeper_iff, Line.closed_plain_iff, allClosed_nil, hp, hn, h.body, he, and_self]

theorem closed_caseLines (subject : String) {bs : List Branch}
    (hs : Balanced subject) (h : ∀ b ∈ bs, b.Closed) : AllClosed (caseLines subject bs) := by
  have hc : Balanced ("case " ++ subject ++ " in") :=
    (Balanced.append (balanced_ofList rfl) hs).append (balanced_ofList rfl)
  have hb : AllClosed (bs.flatMap Branch.lines) :=
    allClosed_flatMap fun b hb => closed_branchLines (h b hb)
  have he : Balanced "esac" := balanced_ofList rfl
  simp only [caseLines, allClosed_cons_iff, allClosed_append_iff, allClosed_indent_iff,
    allClosed_nil, Line.closed_plain_iff, hc, hb, he, and_self]

/-- The text of lines, one below the other. -/
def joined (ls : List Line) : String := "\n".intercalate (ls.map Line.text)

theorem joined_cons_cons (l l' : Line) (ls : List Line) :
    joined (l :: l' :: ls) = l.text ++ "\n" ++ joined (l' :: ls) := by
  simp [joined, String.intercalate_cons_cons]

theorem run_newline {m : Mode} (h : m.isOutside = true) : m.run "\n".toList = program true := by
  cases m with
  | program start => cases start <;> rfl
  | comment => rfl
  | _ => simp [isOutside] at h

/-- Closed lines end outside quotations, as their skeletons do. -/
theorem exists_alike_joined {ls : List Line} (h : AllClosed ls) :
    ∃ m, m.isOutside = true ∧ Alike (program true) m (joined ls) (joined (ls.map Line.skeleton)) := by
  induction ls with
  | nil => exact ⟨program true, rfl, alike_self rfl⟩
  | cons l ls ih =>
    rw [allClosed_cons_iff] at h
    obtain ⟨m, hm, hl⟩ := Line.exists_alike_skeleton h.1
    cases ls with
    | nil => exact ⟨m, hm, by simpa [joined] using hl⟩
    | cons l' ls =>
      obtain ⟨n, hn, hs⟩ := ih h.2
      refine ⟨n, hn, ?_⟩
      -- the line break ends a comment as well, so each line is read from program text
      rw [joined_cons_cons, List.map_cons, List.map_cons, joined_cons_cons]
      exact (hl.append (alike_self (run_newline hm))).append hs

theorem isOutside_run_joined {ls : List Line} (h : AllClosed ls) :
    ((program true).run (joined ls).toList).isOutside = true := by
  obtain ⟨m, hm, _, hr, _⟩ := exists_alike_joined h
  rwa [hr.run_eq]

theorem kept_joined {ls : List Line} (h : AllClosed ls) :
    (program true).kept (joined ls).toList =
      (program true).kept (joined (ls.map Line.skeleton)).toList := by
  obtain ⟨m, _, _, hr, hs⟩ := exists_alike_joined h
  rw [hr.kept_eq, hs.kept_eq]

end ShellCompletion.Shell
