import Mathlib.Data.List.Infix
import ShellCompletion.Proofs.Shell.Readable

/-! Reading the case statements of a script from its lines. A case statement goes on to the end
that matches its beginning, so that a branch may hold another one; each is read with its branches,
a pattern and the lines of a body. Nothing is claimed of case statements that stay open, nor of
patterns that begin with a bracket. The main statement says that case statements are read back, the
outer one first, if the bodies of their branches are read so. -/
namespace ShellCompletion.Shell

/-- What stands between a beginning and an end of a text. -/
def between? (start stop s : String) : Option String :=
  (start.toList.isPrefixOf? s.toList).bind fun r => (stop.toList.isSuffixOf? r).map String.ofList

theorem between?_eq_some_iff {start stop s t : String} :
    between? start stop s = some t ↔ s = start ++ t ++ stop := by
  simp only [between?, Option.bind_eq_some_iff, Option.map_eq_some_iff,
    List.isPrefixOf?_eq_some_iff_append_eq, List.isSuffixOf?_eq_some_iff_append_eq]
  constructor
  · rintro ⟨_, hs, _, rfl, rfl⟩
    rw [← String.toList_inj, ← hs]
    simp
  · rintro rfl
    exact ⟨t.toList ++ stop.toList, by simp, t.toList, rfl, by simp⟩

namespace Line

/-- What stands between a beginning and an end of a line of program text. -/
def inside? (start stop : String) (l : Line) : Option String :=
  match l.pieces with
  | [.code s] => between? start stop s
  | _ => none

theorem inside?_plain (start t stop : String) :
    (Line.plain (start ++ t ++ stop)).inside? start stop = some t :=
  between?_eq_some_iff.2 rfl

theorem eq_of_inside?_eq_some {l : Line} {start stop t : String}
    (h : l.inside? start stop = some t) : l.pieces = [.code (start ++ t ++ stop)] := by
  rw [inside?] at h
  split at h
  · next s hs => rw [hs, between?_eq_some_iff.1 h]
  · exact nomatch h

/-- The word that a case statement is on, if the line begins one. -/
def subject? (l : Line) : Option String := l.inside? "case " " in"

/-- The line neither begins nor ends a case statement, nor does it end a branch. -/
def IsOrdinary (l : Line) : Prop :=
  l ≠ .plain "esac" ∧ l ≠ .plain ";;" ∧ l.subject? = none

instance (l : Line) : Decidable l.IsOrdinary := inferInstanceAs (Decidable (_ ∧ _ ∧ _))

theorem subject?_plain (subject : String) :
    (Line.plain ("case " ++ subject ++ " in")).subject? = some subject := inside?_plain ..

theorem subject?_end : (Line.plain "esac").subject? = none := by decide

theorem subject?_break : (Line.plain ";;").subject? = none := by decide

theorem break_ne_end : Line.plain ";;" ≠ .plain "esac" := by decide

theorem ne_of_subject?_eq_none {l : Line} (h : l.subject? = none) (subject : String) :
    Line.plain ("case " ++ subject ++ " in") ≠ l := by
  rintro rfl
  rw [subject?_plain] at h
  exact Option.some_ne_none _ h

end Line

/-- The pattern of a branch, from the pieces of its first line. -/
def unclose (ps : List Piece) : List Piece :=
  match ps.getLast? with
  | some (.code s) =>
    if s = ")" then ps.dropLast else ps.dropLast ++ [.code (String.ofList s.toList.dropLast)]
  | _ => ps

/-- The branch that has these lines. -/
def branchOf (ls : List Line) : Branch where
  pattern := unclose (ls.headD .blank).pieces
  body := ls.tail

/-- The branches of a case statement, from lines inside it; so many others are open, and the lines
that are seen belong to the first branch. -/
def branchesFrom (depth : Nat) (seen : List Line) : List Line → List Branch
  | [] => []
  | l :: ls =>
    if l = .plain "esac" then
      if depth = 0 then [] else branchesFrom (depth - 1) (seen ++ [l]) ls
    else if l = .plain ";;" ∧ depth = 0 then branchOf seen :: branchesFrom 0 [] ls
    else branchesFrom (if l.subject?.isSome then depth + 1 else depth) (seen ++ [l]) ls

/-- The case statements that begin in the lines, with what they are on and their branches. -/
def readCases : List Line → List (String × List Branch)
  | [] => []
  | l :: ls =>
    match l.subject? with
    | some subject => (subject, branchesFrom 0 [] ls) :: readCases ls
    | none => readCases ls

/-- The branches of the case statements on a word. -/
def branchesOn (subject : String) (ls : List Line) : List Branch :=
  ((readCases ls).filter (·.1 = subject)).flatMap (·.2)

/-! ### Lines with whole case statements -/

/-- The lines have these case statements, each of them from its beginning to its end, and are part
of a branch as a whole. -/
structure Parses (ls : List Line) (cs : List (String × List Branch)) : Prop where
  whole : ∀ depth seen rest,
    branchesFrom depth seen (ls ++ rest) = branchesFrom depth (seen ++ ls) rest
  cases : ∀ rest, readCases (ls ++ rest) = cs ++ readCases rest

namespace Parses

variable {ls ms : List Line} {cs ds : List (String × List Branch)}

theorem readCases_eq (h : Parses ls cs) : readCases ls = cs := by
  simpa [readCases] using h.cases []

theorem self (h : Parses ls cs) : Parses ls (readCases ls) := h.readCases_eq.symm ▸ h

theorem nil : Parses [] [] := ⟨fun _ _ _ => by simp, fun _ => rfl⟩

theorem append (h : Parses ls cs) (h' : Parses ms ds) : Parses (ls ++ ms) (cs ++ ds) where
  whole depth seen rest := by
    rw [List.append_assoc, h.whole, h'.whole, List.append_assoc]
  cases rest := by rw [List.append_assoc, h.cases, h'.cases, List.append_assoc]

theorem line {l : Line} (h : l.IsOrdinary) : Parses [l] [] where
  whole depth seen rest := by simp [branchesFrom, h.1, h.2.1, h.2.2]
  cases rest := by simp [readCases, h.2.2]

theorem cons {l : Line} (h : l.IsOrdinary) (h' : Parses ls cs) : Parses (l :: ls) cs :=
  (line h).append h'

theorem ordinary (h : ∀ l ∈ ls, l.IsOrdinary) : Parses ls [] := by
  induction ls with
  | nil => exact nil
  | cons l ls ih =>
    rw [List.forall_mem_cons] at h
    exact cons h.1 (ih h.2)

theorem flatMap {α : Type} {xs : List α} {f : α → List Line} {g : α → List (String × List Branch)}
    (h : ∀ x ∈ xs, Parses (f x) (g x)) : Parses (xs.flatMap f) (xs.flatMap g) := by
  induction xs with
  | nil => exact nil
  | cons x xs ih =>
    rw [List.forall_mem_cons] at h
    exact h.1.append (ih h.2)

end Parses

/-! ### Branches -/

theorem exists_attach_concat (p : Piece) (ps : List Piece) (u : String) :
    ∃ qs t, attach p (ps ++ [.code u]) = qs ++ [.code (t ++ u)] := by
  have hc (q : Piece) : ∃ qs t, q :: (ps ++ [Piece.code u]) = qs ++ [Piece.code (t ++ u)] :=
    ⟨q :: ps, "", by simp⟩
  cases ps with
  | nil =>
    cases p with
    | code s => exact ⟨[], s, rfl⟩
    | _ => exact hc _
  | cons q ps =>
    cases p with
    | code s =>
      cases q with
      | code r => exact ⟨.code (s ++ r) :: ps, "", by simp [attach]⟩
      | _ => exact hc _
    | word s =>
      cases q with
      | word r => exact ⟨.word (s ++ r) :: ps, "", by simp [attach]⟩
      | _ => exact hc _
    | _ => exact hc _

/-- The first line of a branch ends with its bracket. -/
theorem exists_fuse_concat (ps : List Piece) (u : String) :
    ∃ qs t, fuse (ps ++ [.code u]) = qs ++ [.code (t ++ u)] := by
  induction ps with
  | nil => exact ⟨[], "", by simp [fuse, attach]⟩
  | cons p ps ih =>
    obtain ⟨qs, t, h⟩ := ih
    cases p with
    | comment s => exact ⟨qs, t, h⟩
    | _ =>
      obtain ⟨qs', t', h'⟩ := exists_attach_concat _ qs (t ++ u)
      refine ⟨qs', t' ++ t, ?_⟩
      rw [List.cons_append, fuse, h, h', String.append_assoc]

namespace Branch

/-- The first line of the branch as it is read. -/
def opening (b : Branch) : Line := { pieces := fuse (b.pattern ++ [.code ")"]) }

theorem isOrdinary_opening (b : Branch) : b.opening.IsOrdinary := by
  obtain ⟨qs, t, h⟩ := exists_fuse_concat b.pattern ")"
  have hl {s : String} (hs : s.toList.getLast? ≠ some ')') : b.opening ≠ .plain s := by
    intro he
    have hp := congrArg (fun l : Line => l.pieces.getLast?) he
    simp only [opening, h, Line.plain, List.getLast?_append, List.getLast?_singleton,
      Option.some_or, Option.some.injEq, Piece.code.injEq] at hp
    exact hs (by simp [← hp])
  refine ⟨hl (by decide), hl (by decide), ?_⟩
  rw [← Option.not_isSome_iff_eq_none, Option.isSome_iff_exists]
  rintro ⟨u, hu⟩
  refine hl (s := "case " ++ u ++ " in") ?_ (congrArg (Line.mk 0) (Line.eq_of_inside?_eq_some hu))
  have hin : " in".toList.getLast? = some 'n' := by decide
  rw [String.toList_append, List.getLast?_append, hin]
  simp

/-- The branch as it is read: without the note on it. -/
def asRead (b : Branch) : Branch where
  pattern := b.pattern
  body := Shell.asRead b.body

theorem asRead_lines (b : Branch) :
    Shell.asRead b.lines = b.opening :: (Shell.asRead b.body ++ [.plain ";;"]) := by
  obtain ⟨qs, t, h⟩ := exists_fuse_concat b.pattern ")"
  have ho : Shell.asRead [{ pieces := b.pattern ++ [.code ")"] }] = [b.opening] := by
    simp [Shell.asRead, linesOf, opening, h]
  have hn : Shell.asRead (if b.note.isEmpty then [] else [(Line.comment b.note).deeper 1]) = [] := by
    split <;> rfl
  rw [lines, asRead_cons, ho, Shell.asRead_append, Shell.asRead_append, hn, asRead_indent]
  rfl

/-- The pattern is read back from the first line. -/
def IsReadBack (b : Branch) : Prop := unclose b.opening.pieces = b.pattern

theorem branchOf_lines {b : Branch} (h : b.IsReadBack) :
    branchOf (b.opening :: Shell.asRead b.body) = b.asRead := by
  rw [branchOf, List.headD_cons, h]
  rfl

end Branch

section

variable {bs : List Branch} {cs : Branch → List (String × List Branch)}

theorem asRead_caseLines (subject : String) : asRead (caseLines subject bs) =
    .plain ("case " ++ subject ++ " in") ::
      (bs.flatMap (fun b => asRead b.lines) ++ [.plain "esac"]) := by
  rw [caseLines, asRead_plain_cons, asRead_append, asRead_indent, asRead_flatMap]
  rfl

/-- The branches of a case statement are read up to its end. -/
theorem branchesFrom_branches (h : ∀ b ∈ bs, Parses (asRead b.body) (cs b) ∧ b.IsReadBack)
    (rest : List Line) :
    branchesFrom 0 [] (bs.flatMap (fun b => asRead b.lines) ++ .plain "esac" :: rest) =
      bs.map Branch.asRead := by
  induction bs with
  | nil => simp [branchesFrom]
  | cons b bs ih =>
    rw [List.forall_mem_cons] at h
    obtain ⟨⟨hb, hp⟩, h⟩ := h
    have hr := hb.cons b.isOrdinary_opening
    rw [List.flatMap_cons, b.asRead_lines, ← List.cons_append, List.append_assoc, List.append_assoc,
      hr.whole]
    simp [branchesFrom, Line.break_ne_end, ih h, Branch.branchOf_lines hp]

/-- Inside a case statement, the end of a branch ends none of the statement around it. -/
theorem branchesFrom_inside (h : ∀ b ∈ bs, Parses (asRead b.body) (cs b)) (depth : Nat)
    (seen rest : List Line) :
    branchesFrom (depth + 1) seen (bs.flatMap (fun b => asRead b.lines) ++ rest) =
      branchesFrom (depth + 1) (seen ++ bs.flatMap fun b => asRead b.lines) rest := by
  induction bs generalizing seen with
  | nil => simp
  | cons b bs ih =>
    rw [List.forall_mem_cons] at h
    have hr := h.1.cons b.isOrdinary_opening
    rw [List.flatMap_cons, b.asRead_lines, ← List.cons_append, List.append_assoc, List.append_assoc,
      hr.whole]
    simp [branchesFrom, Line.break_ne_end, Line.subject?_break, ih h.2]

theorem readCases_branches (h : ∀ b ∈ bs, Parses (asRead b.body) (cs b)) (rest : List Line) :
    readCases (bs.flatMap (fun b => asRead b.lines) ++ rest) = bs.flatMap cs ++ readCases rest := by
  induction bs with
  | nil => rfl
  | cons b bs ih =>
    rw [List.forall_mem_cons] at h
    have hr := h.1.cons b.isOrdinary_opening
    rw [List.flatMap_cons, b.asRead_lines, ← List.cons_append, List.append_assoc, List.append_assoc,
      hr.cases]
    simp [readCases, Line.subject?_break, ih h.2]

/-- A case statement is read with its branches, and those inside the branches after it. -/
theorem parses_caseLines (subject : String)
    (h : ∀ b ∈ bs, Parses (asRead b.body) (cs b) ∧ b.IsReadBack) :
    Parses (asRead (caseLines subject bs)) ((subject, bs.map Branch.asRead) :: bs.flatMap cs) := by
  have hb : ∀ b ∈ bs, Parses (asRead b.body) (cs b) := fun b hm => (h b hm).1
  have hs := Line.subject?_plain subject
  have hn := Line.ne_of_subject?_eq_none Line.subject?_end subject
  have hd := Line.ne_of_subject?_eq_none Line.subject?_break subject
  rw [asRead_caseLines]
  constructor
  · intro depth seen rest
    rw [List.cons_append, branchesFrom, if_neg hn, if_neg (not_and_of_not_left _ hd), hs,
      Option.isSome_some, if_pos rfl, List.append_assoc, branchesFrom_inside hb]
    simp [branchesFrom]
  · intro rest
    rw [List.cons_append, readCases, hs, List.append_assoc, readCases_branches hb]
    simp only [List.singleton_append, branchesFrom_branches h]
    simp [readCases, Line.subject?_end]

example :
    let inner := ["case $b in", "y)", ";;", "esac"].map Line.plain
    readCases ([.plain "case $a in", .plain "x)"] ++ inner ++ [.plain ";;", .plain "esac"]) =
      [("$a", [{ pattern := [.code "x"], body := inner }]),
        ("$b", [{ pattern := [.code "y"], body := [] }])] := by decide

end

end ShellCompletion.Shell
