import ShellCompletion.Proofs.Shell.Lines

/-! Lines that are read from their text. A line is readable when it is a comment, or when its
program text stands on one line, ends each quotation in it and begins no comment. The main
statement says that of readable lines, one below the other, the reader has the pieces of each, with
those that touch made one. -/
namespace ShellCompletion.Shell

theorem linesFrom_comment {t : List Char} (h : '\n' ∉ t) (ps : List Piece) (r : List Char) :
    linesFrom ps .comment (t ++ r) = linesFrom ps .comment r := by
  induction t with
  | nil => rfl
  | cons c t ih =>
    rw [List.mem_cons, not_or] at h
    simp [linesFrom, Spot.next, Ne.symm h.1, ih h.2]

theorem linesFrom_margin_margin (ps : List Piece) (n : Nat) (r : List Char) :
    linesFrom ps .margin (margin n ++ r) = linesFrom ps .margin r := by
  induction n with
  | zero => rfl
  | succ n ih =>
    have hm : margin (n + 1) = ' ' :: ' ' :: margin n := by
      rw [margin, List.replicate_succ, List.flatten_cons]
      rfl
    simpa [hm, linesFrom, Spot.next] using ih

namespace Line

/-- The line is a comment, or its pieces are read as they stand. -/
def Readable (l : Line) : Prop := l.isComment = true ∨ ArePlain l.pieces ∧ AtMargin l.pieces

@[simp] theorem readable_plain_iff (s : String) : (plain s).Readable ↔ Begins s := by
  simp [Readable, plain, isComment, ArePlain, Piece.Plain, AtMargin, Begins]

@[simp] theorem readable_blank : blank.Readable := .inr ⟨arePlain_nil, trivial⟩

@[simp] theorem readable_comment (s : String) : (comment s).Readable := .inl rfl

@[simp] theorem readable_deeper_iff (n : Nat) (l : Line) :
    (l.deeper n).Readable ↔ l.Readable := Iff.rfl

theorem readable_of_begins {s : String} {ps : List Piece} (hs : Begins s) (h : ArePlain ps)
    (n : Nat) : (Line.mk n (.code s :: ps)).Readable :=
  .inr ⟨List.forall_mem_cons.2 ⟨hs.1, h⟩, hs.2⟩

theorem readable_code {s : List Char}
    (h : (isPlainFrom false true s && s.head?.any (· != '"') && s.head?.any (· != ' ')) = true)
    (n : Nat) : (Line.mk n [.code (String.ofList s)]).Readable :=
  readable_of_begins (begins_ofList h) arePlain_nil n

theorem toList_text {l : Line} (h : l.pieces ≠ []) :
    l.text.toList = margin l.depth ++ l.pieces.flatMap Piece.chars := by
  have hs := shown_mk 0 l.depth h
  rw [shown, deeper_zero, ← List.append_assoc, ← List.append_assoc] at hs
  exact List.append_cancel_right hs

theorem linesFrom_text {l : Line} (h : l.Readable) {e : List Char} {k : List (List Piece)}
    (he : Ends e k) : linesFrom [] .margin (l.text.toList ++ e) = fuse l.pieces :: k := by
  by_cases hp : l.pieces = []
  · have ht : l.text = "" := by simp [text, hp]
    rw [ht, hp]
    exact he [] .margin rfl
  rw [toList_text hp, List.append_assoc, linesFrom_margin_margin]
  rcases h with h | ⟨h, hm⟩
  · obtain ⟨s, hs⟩ := exists_of_isComment h
    have hc : (commentText s).toList = '#' :: ' ' :: (Text.collapse s).toList := by
      simp [commentText]
    have hn : '\n' ∉ ' ' :: (Text.collapse s).toList := by simpa using newline_not_mem_collapse s
    have hr := linesFrom_comment hn [] e
    rw [he [] .comment rfl] at hr
    simpa [hs, Piece.chars, Piece.text, hc, linesFrom, Spot.next, Spot.ending, fuse] using hr
  · exact linesFrom_margin he h hm

end Line

/-! ### Several lines -/

def AllReadable (ls : List Line) : Prop := ∀ l ∈ ls, l.Readable

@[simp] theorem allReadable_nil : AllReadable [] := by simp [AllReadable]

@[simp] theorem allReadable_cons_iff (l : Line) (ls : List Line) :
    AllReadable (l :: ls) ↔ l.Readable ∧ AllReadable ls := by simp [AllReadable]

@[simp] theorem allReadable_append_iff (ls ms : List Line) :
    AllReadable (ls ++ ms) ↔ AllReadable ls ∧ AllReadable ms := List.forall_mem_append

@[simp] theorem allReadable_indent_iff (n : Nat) (ls : List Line) :
    AllReadable (indent n ls) ↔ AllReadable ls := by simp [AllReadable, indent]

theorem AllReadable.cons {l : Line} {ls : List Line} (h : l.Readable) (hs : AllReadable ls) :
    AllReadable (l :: ls) := (allReadable_cons_iff l ls).2 ⟨h, hs⟩

theorem allReadable_map {α : Type} {f : α → Line} (h : ∀ x, (f x).Readable) (xs : List α) :
    AllReadable (xs.map f) := List.forall_mem_map.2 fun x _ => h x

theorem allReadable_flatMap {α : Type} {f : α → List Line} {xs : List α}
    (h : ∀ x ∈ xs, AllReadable (f x)) : AllReadable (xs.flatMap f) := List.forall_mem_flatMap.2 h

/-- The pattern and the body of the branch are read as they stand. -/
structure Branch.Readable (b : Branch) : Prop where
  pattern : ArePlain b.pattern
  atMargin : AtMargin b.pattern
  body : AllReadable b.body

theorem readable_branchLines {b : Branch} (h : b.Readable) : AllReadable b.lines := by
  have hp : ArePlain (b.pattern ++ [.code ")"]) :=
    List.forall_mem_append.2 ⟨h.pattern, arePlain_nil.code (plain_ofList (by decide))⟩
  have hm : AtMargin (b.pattern ++ [.code ")"]) := by
    have hm := h.atMargin
    cases hc : b.pattern with
    | nil => rfl
    | cons p ps =>
      rw [hc] at hm
      cases p with
      | code s => exact hm
      | _ => trivial
  have hh : Line.Readable { pieces := b.pattern ++ [.code ")"] } := .inr ⟨hp, hm⟩
  have hn : AllReadable (if b.note.isEmpty then [] else [(Line.comment b.note).deeper 1]) := by
    split <;> simp
  have he : Begins ";;" := begins_ofList (by decide)
  simp only [Branch.lines, allReadable_cons_iff, allReadable_append_iff, allReadable_indent_iff,
    Line.readable_deeper_iff, Line.readable_plain_iff, allReadable_nil, hh, hn, h.body, he, and_self]

theorem readable_caseLines (subject : String) {bs : List Branch}
    (hs : Continues subject) (h : ∀ b ∈ bs, b.Readable) : AllReadable (caseLines subject bs) := by
  have hb : Begins "case " := begins_ofList (by decide)
  have hi : Continues " in" := continues_ofList (by decide)
  have hc : Begins ("case " ++ subject ++ " in") := (hb.append hs).append hi
  have hl : AllReadable (bs.flatMap Branch.lines) :=
    allReadable_flatMap fun b hb => readable_branchLines (h b hb)
  have he : Begins "esac" := begins_ofList (by decide)
  simp only [caseLines, allReadable_cons_iff, allReadable_append_iff, allReadable_indent_iff,
    allReadable_nil, Line.readable_plain_iff, hc, hl, he, and_self]

/-- The lines as they are read from their text. -/
def asRead (ls : List Line) : List Line := linesOf (ls.map fun l => fuse l.pieces)

@[simp] theorem asRead_append (ls ms : List Line) : asRead (ls ++ ms) = asRead ls ++ asRead ms := by
  simp [asRead, linesOf]

theorem asRead_cons (l : Line) (ls : List Line) : asRead (l :: ls) = asRead [l] ++ asRead ls :=
  asRead_append [l] ls

@[simp] theorem asRead_plain_cons (s : String) (ls : List Line) :
    asRead (.plain s :: ls) = .plain s :: asRead ls := rfl

@[simp] theorem asRead_blank_cons (ls : List Line) : asRead (.blank :: ls) = asRead ls := rfl

@[simp] theorem asRead_comment_cons (s : String) (ls : List Line) :
    asRead (.comment s :: ls) = asRead ls := rfl

@[simp] theorem asRead_indent (n : Nat) (ls : List Line) : asRead (indent n ls) = asRead ls := by
  simp [asRead, indent, Function.comp_def, Line.deeper]

theorem asRead_flatMap {α : Type} (xs : List α) (f : α → List Line) :
    asRead (xs.flatMap f) = xs.flatMap fun x => asRead (f x) := by
  induction xs with
  | nil => rfl
  | cons x xs ih => rw [List.flatMap_cons, List.flatMap_cons, asRead_append, ih]

/-- Lines are read from their text. -/
theorem readLines_joined {ls : List Line} (h : AllReadable ls) :
    readLines (joined ls) = asRead ls := by
  have hl : ls ≠ [] → linesFrom [] .margin (joined ls).toList = ls.map fun l => fuse l.pieces := by
    induction ls with
    | nil => exact fun hn => absurd rfl hn
    | cons l ls ih =>
      intro _
      rw [allReadable_cons_iff] at h
      cases ls with
      | nil =>
        have hr := l.linesFrom_text h.1 ends_nil
        simpa [joined] using hr
      | cons m ls =>
        have hr := l.linesFrom_text h.1 (ends_newline (joined (m :: ls)).toList)
        rw [ih h.2 (by simp)] at hr
        simpa [joined_cons_cons] using hr
  cases ls with
  | nil => rfl
  | cons l ls => rw [readLines, hl (by simp), asRead]

example : readLines "a='b'\"'\"'c' # d\n\n  e" =
    [{ pieces := [.code "a=", .word "b'c", .code " "] }, .plain "e"] := by decide

end ShellCompletion.Shell
