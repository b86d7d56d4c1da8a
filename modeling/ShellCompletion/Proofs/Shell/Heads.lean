import ShellCompletion.Proofs.Shell.Cases

/-! How lines begin. The program text that a line begins with is the same before and after the
line is read; it tells the lines that a section is known by, and those that have to do with case
statements. A stem of each beginning is enough to tell a line that begins in another way. The main
statement says that the lines with given beginnings are the same before and after reading. -/
namespace ShellCompletion.Shell

theorem fuse_attach_code (s : String) (ps : List Piece) :
    fuse (attach (.code s) ps) = attach (.code s) (fuse ps) := by
  rcases ps with _ | ⟨_ | _ | _ | _, ps⟩
  case cons.code t => exact (attach_code_attach s t (fuse ps)).symm
  all_goals rfl

theorem fuse_attach_word (s : String) (ps : List Piece) :
    fuse (attach (.word s) ps) = attach (.word s) (fuse ps) := by
  rcases ps with _ | ⟨_ | _ | _ | _, ps⟩
  case cons.word t => exact (attach_word_attach s t (fuse ps)).symm
  all_goals rfl

/-- Pieces that were read are read as they are. -/
theorem fuse_fuse (ps : List Piece) : fuse (fuse ps) = fuse ps := by
  induction ps with
  | nil => rfl
  | cons p ps ih =>
    cases p with
    | comment s => exact ih
    | code s => rw [fuse, fuse_attach_code, ih]
    | word s => rw [fuse, fuse_attach_word, ih]
    | wordList ss => rw [fuse, fuse_attach_word, ih]

namespace Line

/-- The line as it is read. -/
def fused (l : Line) : Line := { pieces := fuse l.pieces }

/-- The program text that the line begins with. -/
def head (l : Line) : String :=
  match fuse l.pieces with
  | .code s :: _ => s
  | _ => ""

@[simp] theorem head_plain (s : String) : (plain s).head = s := rfl

theorem head_fused (l : Line) : l.fused.head = l.head := by rw [head, head, fused, fuse_fuse]

theorem head_word (n : Nat) (s : String) (ps : List Piece) :
    (Line.mk n (.word s :: ps)).head = "" := by
  rw [head, fuse]
  rcases fuse ps with _ | ⟨_ | _ | _ | _, qs⟩ <;> rfl

theorem exists_head_code (n : Nat) (s : String) (ps : List Piece) :
    ∃ t, (Line.mk n (.code s :: ps)).head = s ++ t := by
  rw [head, fuse]
  rcases fuse ps with _ | ⟨_ | _ | _ | _, qs⟩
  case cons.code t => exact ⟨t, rfl⟩
  all_goals exact ⟨"", by simp [attach]⟩

/-- Does the line begin with one of these texts? -/
def startsWith (starts : List String) (l : Line) : Bool :=
  starts.any fun s => s.toList.isPrefixOf l.head.toList

end Line

theorem Line.startsWith_congr {l m : Line} (h : l.head = m.head) (starts : List String) :
    l.startsWith starts = m.startsWith starts := by rw [Line.startsWith, Line.startsWith, h]

theorem Line.startsWith_of_head_eq {starts : List String} {l : Line} {s t : String}
    (hs : s ∈ starts) (h : l.head = s ++ t) : l.startsWith starts = true := by
  refine List.any_eq_true.2 ⟨s, hs, List.isPrefixOf_iff_prefix.2 ?_⟩
  rw [h, String.toList_append]
  exact List.prefix_append _ _

/-! ### Lines that begin in another way -/

/-- Neither text goes on the other. -/
def apart (s t : List Char) : Bool := !s.isPrefixOf t && !t.isPrefixOf s

theorem apart_comm (s t : List Char) : apart s t = apart t s := Bool.and_comm ..

theorem apart_cons_cons {a b : Char} (h : a ≠ b) (s t : List Char) :
    apart (a :: s) (b :: t) = true := by
  simp [apart, List.isPrefixOf, h, h.symm]

theorem not_prefix_append {s t : List Char} (h : apart s t = true) (u : List Char) :
    ¬s <+: t ++ u := by
  simp only [apart, Bool.and_eq_true, Bool.not_eq_true', ← Bool.not_eq_true,
    List.isPrefixOf_iff_prefix] at h
  exact fun hp =>
    (List.prefix_or_prefix_of_prefix hp (List.prefix_append t u)).elim h.1 h.2

/-- No text begins in two ways that are apart. -/
theorem Line.inside?_plain_eq_none {s start : String} (h : apart start.toList s.toList = true)
    (t stop : String) : (Line.plain (s ++ t)).inside? start stop = none := by
  rw [← Option.not_isSome_iff_eq_none, Option.isSome_iff_exists]
  rintro ⟨u, hu⟩
  have he := congrArg String.toList (between?_eq_some_iff.1 hu)
  rw [String.append_assoc, String.toList_append, String.toList_append] at he
  exact not_prefix_append h t.toList (he ▸ List.prefix_append _ _)

section

variable {starts : List String} {stems : List (List Char)}
  (hs : ∀ s ∈ starts, ∃ t ∈ stems, t <+: s.toList) {s : List Char}
  (h : stems.all (apart · s) = true) (n : Nat) (ps : List Piece)
include hs h

theorem Line.startsWith_of_apart {l : Line} {u : String} (hl : l.head = String.ofList s ++ u) :
    l.startsWith starts = false := by
  rw [Line.startsWith, List.any_eq_false]
  intro a ha hp
  obtain ⟨t, ht, hta⟩ := hs a ha
  rw [hl, String.toList_append, String.toList_ofList, List.isPrefixOf_iff_prefix] at hp
  exact not_prefix_append (List.all_eq_true.1 h t ht) u.toList (hta.trans hp)

/-- Program text that is apart from all stems of the beginnings begins in another way. -/
theorem Line.startsWith_code :
    (Line.mk n (.code (String.ofList s) :: ps)).startsWith starts = false :=
  let ⟨_, hl⟩ := Line.exists_head_code n (String.ofList s) ps
  Line.startsWith_of_apart hs h hl

theorem Line.startsWith_code_append (t : String) :
    (Line.mk n (.code (String.ofList s ++ t) :: ps)).startsWith starts = false := by
  obtain ⟨u, hl⟩ := Line.exists_head_code n (String.ofList s ++ t) ps
  rw [String.append_assoc] at hl
  exact Line.startsWith_of_apart hs h hl

end

theorem asRead_singleton (l : Line) :
    asRead [l] = if fuse l.pieces = [] then [] else [l.fused] := by
  by_cases h : fuse l.pieces = [] <;> simp [asRead, linesOf, h, Line.fused]

/-! ### Lines with given beginnings -/

/-- The lines with these beginnings, at the margin. -/
def landmarks (starts : List String) (ls : List Line) : List Line :=
  (ls.filter (·.startsWith starts)).map fun l => { pieces := l.pieces }

section

variable (starts : List String)

@[simp] theorem landmarks_nil : landmarks starts [] = [] := rfl

theorem landmarks_cons (l : Line) (ls : List Line) : landmarks starts (l :: ls) =
    (if l.startsWith starts then [{ pieces := l.pieces }] else []) ++ landmarks starts ls := by
  by_cases h : l.startsWith starts <;> simp [landmarks, h]

variable {starts} in
theorem landmarks_cons_eq {l : Line} {ls ms : List Line} (h : l.startsWith starts = false)
    (hs : landmarks starts ls = ms) : landmarks starts (l :: ls) = ms := by
  simp [landmarks_cons, h, hs]

@[simp] theorem landmarks_append (ls ms : List Line) :
    landmarks starts (ls ++ ms) = landmarks starts ls ++ landmarks starts ms := by
  simp [landmarks]

variable {starts} in
theorem landmarks_between {before after : List Line} (hb : landmarks starts before = [])
    (ha : landmarks starts after = []) (ls : List Line) :
    landmarks starts (before ++ ls ++ after) = landmarks starts ls := by
  simp [hb, ha]

@[simp] theorem landmarks_indent (n : Nat) (ls : List Line) :
    landmarks starts (indent n ls) = landmarks starts ls := by
  rw [landmarks, indent, List.filter_map, List.map_map]
  rfl

theorem landmarks_flatMap {α : Type} (xs : List α) (f : α → List Line) :
    landmarks starts (xs.flatMap f) = xs.flatMap fun x => landmarks starts (f x) := by
  induction xs with
  | nil => rfl
  | cons x xs ih => rw [List.flatMap_cons, List.flatMap_cons, landmarks_append, ih]

variable {starts}

theorem Line.startsWith_of_inside? {l : Line} {start stop t : String} (hs : start ∈ starts)
    (h : l.inside? start stop = some t) : l.startsWith starts = true := by
  refine Line.startsWith_of_head_eq (t := t ++ stop) hs ?_
  rw [Line.head, Line.eq_of_inside?_eq_some h, ← String.append_assoc]
  rfl

/-- What only such lines give is given by the landmarks. -/
theorem filterMap_landmarks {α : Type} {f : Line → Option α}
    (hf : ∀ l a, f l = some a → l.startsWith starts = true)
    (hd : ∀ l, f { pieces := l.pieces } = f l) (ls : List Line) :
    (landmarks starts ls).filterMap f = ls.filterMap f := by
  rw [landmarks, List.filterMap_map, List.filterMap_filter]
  refine List.filterMap_congr fun l _ => ?_
  rw [Function.comp_apply, hd]
  cases h : f l with
  | none => simp
  | some a => simp [hf l a h]

/-- Of more landmarks the fewer are found again. -/
theorem landmarks_landmarks {others : List String} (h : ∀ s ∈ others, s ∈ starts) (ls : List Line) :
    landmarks others (landmarks starts ls) = landmarks others ls := by
  have hs (l : Line) (hl : l.startsWith others = true) : l.startsWith starts = true := by
    obtain ⟨s, hs, hp⟩ := List.any_eq_true.1 hl
    exact List.any_eq_true.2 ⟨s, h s hs, hp⟩
  have hf : ls.filter (fun l => l.startsWith others && l.startsWith starts) =
      ls.filter (·.startsWith others) :=
    List.filter_congr fun l _ => by cases hl : l.startsWith others <;> simp [hs l, hl]
  rw [landmarks, landmarks, landmarks, List.filter_map, List.map_map, ← hf, ← List.filter_filter]
  rfl

theorem landmarks_map {α : Type} {f : α → Line} {xs : List α}
    (h : ∀ x ∈ xs, (f x).startsWith starts = true) :
    landmarks starts (xs.map f) = xs.map fun x => { pieces := (f x).pieces } := by
  rw [landmarks, List.filter_eq_self.2 (List.forall_mem_map.2 h), List.map_map]
  rfl

theorem landmarks_eq_nil {ls : List Line} (h : ∀ l ∈ ls, l.startsWith starts = false) :
    landmarks starts ls = [] := by
  rw [landmarks, List.filter_eq_nil_iff.2 fun l hl => by simp [h l hl], List.map_nil]

section

variable (hn : "" ∉ starts)
include hn

theorem Line.startsWith_of_head {l : Line} (h : l.head = "") : l.startsWith starts = false := by
  rw [Line.startsWith, List.any_eq_false]
  intro s hs hp
  rw [h, List.isPrefixOf_iff_prefix, String.toList_empty, List.prefix_nil,
    String.toList_eq_nil_iff] at hp
  exact hn (hp ▸ hs)

/-- In a case statement only the bodies of branches have such lines. -/
theorem landmarks_caseLines {subject : String} {bs : List Branch}
    (hs : (Line.plain ("case " ++ subject ++ " in")).startsWith starts = false)
    (he : (Line.plain "esac").startsWith starts = false)
    (hd : (Line.plain ";;").startsWith starts = false)
    (hb : ∀ b ∈ bs, (Line.mk 0 (b.pattern ++ [.code ")"])).startsWith starts = false) :
    landmarks starts (caseLines subject bs) = bs.flatMap fun b => landmarks starts b.body := by
  have hl : ∀ b ∈ bs, landmarks starts b.lines = landmarks starts b.body := by
    intro b hm
    have hc : landmarks starts
        (if b.note.isEmpty then [] else [(Line.comment b.note).deeper 1]) = [] := by
      refine landmarks_eq_nil fun l hl => ?_
      split at hl
      · exact absurd hl List.not_mem_nil
      · rw [List.mem_singleton.1 hl]
        exact Line.startsWith_of_head hn rfl
    have hd : ((Line.plain ";;").deeper 1).startsWith starts = false := hd
    rw [Branch.lines, landmarks_cons, landmarks_append, landmarks_append, landmarks_indent, hc]
    simp [landmarks_cons, hb b hm, hd]
  simp [caseLines, landmarks_cons, hs, he, landmarks_flatMap, List.flatMap_congr hl]

/-- What the landmarks of lines are does not change when the lines are read, if nothing in the
landmarks does. -/
theorem landmarks_asRead {ls : List Line}
    (h : ∀ l ∈ landmarks starts ls, fuse l.pieces = l.pieces) :
    landmarks starts (asRead ls) = landmarks starts ls := by
  induction ls with
  | nil => rfl
  | cons l ls ih =>
    rw [landmarks_cons, List.forall_mem_append] at h
    have hs := Line.startsWith_congr l.head_fused starts
    rw [asRead_cons, landmarks_append, ih h.2, landmarks_cons, asRead_singleton]
    congr 1
    cases hl : l.startsWith starts with
    | true =>
      have hf : fuse l.pieces = l.pieces := h.1 { pieces := l.pieces } (by simp [hl])
      have hne : fuse l.pieces ≠ [] := fun he => by
        rw [Line.startsWith_of_head hn (by rw [Line.head, he])] at hl
        exact Bool.false_ne_true hl
      rw [if_neg hne, landmarks_cons, hs, hl, Line.fused, hf]
      rfl
    | false =>
      split <;> simp [landmarks_cons, hs, hl]

end

end

/-! ### Lines apart from case statements -/

/-- How the lines begin that have to do with case statements. -/
def caseStarts : List String := ["case ", ";;", "esac"]

theorem isOrdinary_fused {l : Line} (h : l.startsWith caseStarts = false) : l.fused.IsOrdinary := by
  have hn {s : String} (hs : s ∈ caseStarts) (t : String) : l.fused ≠ .plain (s ++ t) := by
    intro he
    have hl : l.head = s ++ t := by rw [← l.head_fused, he, Line.head_plain]
    rw [Line.startsWith_of_head_eq hs hl] at h
    exact Bool.false_ne_true h.symm
  refine ⟨by simpa using hn (s := "esac") (by simp [caseStarts]) "",
    by simpa using hn (s := ";;") (by simp [caseStarts]) "", ?_⟩
  rw [← Option.not_isSome_iff_eq_none, Option.isSome_iff_exists]
  rintro ⟨u, hu⟩
  have he := congrArg (Line.mk 0) (Line.eq_of_inside?_eq_some hu)
  rw [String.append_assoc] at he
  exact hn (by simp [caseStarts]) (u ++ " in") he

def caseStems : List (List Char) := [['c', 'a', 's', 'e', ' '], [';', ';'], ['e', 's', 'a', 'c']]

theorem exists_caseStem : ∀ s ∈ caseStarts, ∃ t ∈ caseStems, t <+: s.toList := by decide

section

variable {s : List Char} (h : caseStems.all (apart · s) = true) (n : Nat) (ps : List Piece)
include h

theorem isOrdinary_code : (Line.mk n (.code (String.ofList s) :: ps)).fused.IsOrdinary :=
  isOrdinary_fused (Line.startsWith_code exists_caseStem h n ps)

theorem isOrdinary_code_append (t : String) :
    (Line.mk n (.code (String.ofList s ++ t) :: ps)).fused.IsOrdinary :=
  isOrdinary_fused (Line.startsWith_code_append exists_caseStem h n ps t)

end

theorem isOrdinary_blank : Line.blank.fused.IsOrdinary := by decide

theorem isOrdinary_comment (s : String) : (Line.comment s).fused.IsOrdinary := isOrdinary_blank

/-- None of the lines, as they are read, has to do with a case statement. -/
def AllOrdinary (ls : List Line) : Prop := ∀ l ∈ ls, l.fused.IsOrdinary

@[simp] theorem allOrdinary_nil : AllOrdinary [] := by simp [AllOrdinary]

@[simp] theorem allOrdinary_cons_iff (l : Line) (ls : List Line) :
    AllOrdinary (l :: ls) ↔ l.fused.IsOrdinary ∧ AllOrdinary ls := by simp [AllOrdinary]

@[simp] theorem allOrdinary_append_iff (ls ms : List Line) :
    AllOrdinary (ls ++ ms) ↔ AllOrdinary ls ∧ AllOrdinary ms := List.forall_mem_append

theorem AllOrdinary.cons {l : Line} {ls : List Line} (h : l.fused.IsOrdinary)
    (hs : AllOrdinary ls) : AllOrdinary (l :: ls) := (allOrdinary_cons_iff l ls).2 ⟨h, hs⟩

theorem parses_of_allOrdinary {ls : List Line} (h : AllOrdinary ls) : Parses (asRead ls) [] := by
  refine .ordinary fun m hm => ?_
  simp only [asRead, linesOf, List.mem_map, List.mem_filter] at hm
  obtain ⟨_, ⟨⟨l, hl, rfl⟩, _⟩, rfl⟩ := hm
  exact h l hl

end ShellCompletion.Shell
