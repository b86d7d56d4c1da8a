import ShellCompletion.Proofs.Shell.Legible

/-! Reading a text as the lines of a script. Outside quotations a line break ends a line. Single
quotes stand for a word, together with the quotations that touch it; a double quotation by itself
stays in the program text, for the shell expands it. Margins, comments and blank lines are not
kept. Nothing is claimed of backslashes, which are read as ordinary characters. The main statements
say that pieces are read from their text, up to the end of their line. -/
namespace ShellCompletion.Shell

/-- Where in a line the reader stands, with the text that it has of the piece that it is in. -/
inductive Spot where
  | margin
  | code (text : List Char)
  /-- In a double quotation of program text. -/
  | double (text : List Char)
  /-- After a quotation, which another one may go on. -/
  | word (text : List Char)
  | single (text : List Char)
  /-- In a double quotation that goes on a word. -/
  | inner (text : List Char)
  | comment
deriving DecidableEq, Repr

namespace Spot

def isOutside : Spot → Bool
  | margin | code _ | word _ | comment => true
  | double _ | single _ | inner _ => false

/-- The piece that ends here. -/
def ending : Spot → List Piece
  | code t | double t => [.code (String.ofList t)]
  | word t | single t | inner t => [.word (String.ofList t)]
  | margin | comment => []

/-- A character of the line completes pieces and leads on. -/
def next : Spot → Char → List Piece × Spot
  | margin, c =>
    ([], if c = ' ' then margin
      else if c = '#' then comment
      else if c = '\'' then single []
      else if c = '"' then double [c]
      else code [c])
  | code t, c =>
    if c = '\'' then ([.code (String.ofList t)], single [])
    else if c = '"' then ([], double (t ++ [c]))
    else if c = '#' ∧ t.getLast?.any endsWord then ([.code (String.ofList t)], comment)
    else ([], code (t ++ [c]))
  | double t, c => ([], if c = '"' then code (t ++ [c]) else double (t ++ [c]))
  | word t, c =>
    if c = '\'' then ([], single t)
    else if c = '"' then ([], inner t)
    else ([.word (String.ofList t)], code [c])
  | single t, c => ([], if c = '\'' then word t else single (t ++ [c]))
  | inner t, c => ([], if c = '"' then word t else inner (t ++ [c]))
  | comment, _ => ([], comment)

end Spot

/-- The pieces of each line of a text, the first of which goes on after some pieces. -/
def linesFrom (ps : List Piece) (p : Spot) : List Char → List (List Piece)
  | [] => [ps ++ p.ending]
  | c :: s =>
    if c = '\n' ∧ p.isOutside then (ps ++ p.ending) :: linesFrom [] .margin s
    else linesFrom (ps ++ (p.next c).1) (p.next c).2 s

/-- Lines with these pieces, the blank ones left out. -/
def linesOf (pss : List (List Piece)) : List Line :=
  (pss.filter fun ps => !ps.isEmpty).map (Line.mk 0)

/-- The lines of a text that are not blank, without their margins. -/
def readLines (s : String) : List Line := linesOf (linesFrom [] .margin s.toList)

/-! ### Program text -/

/-- Does the text stay program text of one line, from inside a double quotation or not, and from
where a comment may begin or not? -/
def isPlainFrom (quoted start : Bool) : List Char → Bool
  | [] => !quoted
  | c :: s =>
    if quoted then isPlainFrom (c != '"') false s
    else c != '\'' && c != '\n' && !(c == '#' && start) && isPlainFrom (c == '"') (endsWord c) s

theorem linesFrom_of_isPlainFrom {quoted start : Bool} {s : List Char}
    (h : isPlainFrom quoted start s = true) (ps : List Piece) {t : List Char}
    (ht : quoted = false → t.getLast?.any endsWord = true → start = true) (r : List Char) :
    linesFrom ps (if quoted then .double t else .code t) (s ++ r) =
      linesFrom ps (.code (t ++ s)) r := by
  induction s generalizing quoted start t with
  | nil =>
    simp only [isPlainFrom, Bool.not_eq_true'] at h
    simp [h]
  | cons c s ih =>
    have ha : t ++ c :: s = t ++ [c] ++ s := by simp
    rw [List.cons_append, linesFrom, ha]
    cases quoted with
    | true =>
      rw [isPlainFrom, if_pos rfl] at h
      have hi := ih h (t := t ++ [c]) (by by_cases hc : c = '"' <;> simp [hc, endsWord])
      by_cases hc : c = '"' <;> simpa [Spot.next, Spot.isOutside, hc] using hi
    | false =>
      simp only [isPlainFrom, Bool.false_eq_true, if_false, Bool.and_eq_true, bne_iff_ne, ne_eq,
        Bool.not_eq_true', Bool.and_eq_false_iff, beq_eq_false_iff_ne] at h
      obtain ⟨⟨⟨hq, hn⟩, hk⟩, h⟩ := h
      have hc : ¬(c = '#' ∧ t.getLast?.any endsWord = true) := fun hc =>
        hk.elim (fun hne => hne hc.1) fun hs => by simpa [hs] using ht rfl hc.2
      have hi := ih h (t := t ++ [c]) (by simp)
      by_cases hd : c = '"'
      · simpa [Spot.next, hd] using hi
      · simpa [Spot.next, hq, hn, hd, hc] using hi

theorem isPlainFrom_of_start {s : List Char} (h : isPlainFrom false true s = true) (start : Bool) :
    isPlainFrom false start s = true := by
  cases s with
  | nil => rfl
  | cons c s =>
    cases start with
    | true => exact h
    | false =>
      simp only [isPlainFrom, Bool.false_eq_true, if_false, Bool.and_eq_true, Bool.and_false,
        Bool.not_false] at h ⊢
      exact ⟨⟨h.1.1, trivial⟩, h.2⟩

theorem isPlainFrom_append {quoted start : Bool} {s t : List Char}
    (hs : isPlainFrom quoted start s = true) (ht : isPlainFrom false true t = true) :
    isPlainFrom quoted start (s ++ t) = true := by
  induction s generalizing quoted start with
  | nil =>
    simp only [isPlainFrom, Bool.not_eq_true'] at hs
    rw [hs]
    exact isPlainFrom_of_start ht start
  | cons c s ih =>
    cases quoted with
    | true => exact ih hs
    | false =>
      simp only [List.cons_append, isPlainFrom, Bool.false_eq_true, if_false, Bool.and_eq_true] at hs ⊢
      exact ⟨hs.1, ih hs.2⟩

/-- Program text that goes on other program text and is read as it stands. -/
def Continues (s : String) : Prop := isPlainFrom false true s.toList = true

/-- Program text that is read as it stands after any other piece. -/
def Plain (s : String) : Prop := Continues s ∧ s.toList.head?.any (· != '"') = true

/-- Program text that is read as it stands at the margin too. -/
def Begins (s : String) : Prop := Plain s ∧ s.toList.head?.any (· != ' ') = true

/-! The characters of a literal are found by unification, so that it is not decoded. -/

theorem continues_ofList {s : List Char} (h : isPlainFrom false true s = true) :
    Continues (String.ofList s) := by rwa [Continues, String.toList_ofList]

theorem plain_ofList {s : List Char}
    (h : (isPlainFrom false true s && s.head?.any (· != '"')) = true) :
    Plain (String.ofList s) := by
  rw [Bool.and_eq_true] at h
  rwa [Plain, Continues, String.toList_ofList]

theorem begins_ofList {s : List Char}
    (h : (isPlainFrom false true s && s.head?.any (· != '"') && s.head?.any (· != ' ')) = true) :
    Begins (String.ofList s) := by
  rw [Bool.and_eq_true] at h
  exact ⟨plain_ofList h.1, by rw [String.toList_ofList]; exact h.2⟩

theorem any_head?_append {q : Char → Bool} {s : String} (h : s.toList.head?.any q = true)
    (t : String) : (s ++ t).toList.head?.any q = true := by
  rw [String.toList_append]
  cases hs : s.toList <;> simp_all

theorem Continues.append {s t : String} (hs : Continues s) (ht : Continues t) :
    Continues (s ++ t) := by
  rw [Continues, String.toList_append]
  exact isPlainFrom_append hs ht

theorem Plain.append {s t : String} (hs : Plain s) (ht : Continues t) : Plain (s ++ t) :=
  ⟨hs.1.append ht, any_head?_append hs.2 t⟩

theorem Begins.append {s t : String} (hs : Begins s) (ht : Continues t) : Begins (s ++ t) :=
  ⟨hs.1.append ht, any_head?_append hs.2 t⟩

theorem isPlainFrom_of_isCalm {s : List Char} (h : ∀ c ∈ s, isCalm c = true) (hn : '\n' ∉ s)
    (start : Bool) : isPlainFrom false start s = true := by
  induction s generalizing start with
  | nil => rfl
  | cons c s ih =>
    rw [List.forall_mem_cons, isCalm_iff] at h
    rw [List.mem_cons, not_or] at hn
    have hd : (c == '"') = false := beq_eq_false_iff_ne.2 h.1.2.1
    simp [isPlainFrom, h.1, Ne.symm hn.1, hd, ih h.2 hn.2]

/-- Text of one line in which neither a quotation nor a comment begins. -/
theorem continues_of_calm {s : String} (h : Calm s) (hn : '\n' ∉ s.toList) : Continues s :=
  isPlainFrom_of_isCalm ((calm_iff s).1 h) hn true

section

variable {s : String} (h : Plain s) (ps : List Piece) (t r : List Char)
include h

theorem linesFrom_code_of_plain :
    linesFrom ps (.code t) (s.toList ++ r) = linesFrom ps (.code (t ++ s.toList)) r :=
  linesFrom_of_isPlainFrom h.1 ps (fun _ _ => rfl) r

/-- The first character begins program text, at the margin unless it is a space. -/
theorem exists_cons_of_plain : ∃ c u, s.toList = c :: u ∧ c ≠ '\'' ∧ c ≠ '"' ∧ c ≠ '#' ∧ c ≠ '\n' ∧
    ∀ ps r, linesFrom ps (.code [c]) (u ++ r) = linesFrom ps (.code s.toList) r := by
  obtain ⟨hp, hh⟩ := h
  cases hs : s.toList with
  | nil => simp [hs] at hh
  | cons c u =>
    rw [Continues, hs] at hp
    rw [hs] at hh
    have hd : c ≠ '"' := by simpa using hh
    simp only [isPlainFrom, Bool.false_eq_true, if_false, Bool.and_true, Bool.and_eq_true,
      bne_iff_ne, ne_eq, Bool.not_eq_true', beq_eq_false_iff_ne] at hp
    obtain ⟨⟨⟨hq, hn⟩, hk⟩, hu⟩ := hp
    refine ⟨c, u, rfl, hq, hd, hk, hn, fun ps r => ?_⟩
    rw [beq_eq_false_iff_ne.2 hd] at hu
    exact linesFrom_of_isPlainFrom hu ps (by simp) r

theorem linesFrom_word_of_plain : linesFrom ps (.word t) (s.toList ++ r) =
    linesFrom (ps ++ [.word (String.ofList t)]) (.code s.toList) r := by
  obtain ⟨c, u, hs, hq, hd, _, hn, hu⟩ := exists_cons_of_plain h
  rw [← hu, hs]
  simp [linesFrom, Spot.next, hq, hd, hn]

theorem linesFrom_margin_of_plain (hf : s.toList.head?.any (· != ' ') = true) :
    linesFrom ps .margin (s.toList ++ r) = linesFrom ps (.code s.toList) r := by
  obtain ⟨c, u, hs, hq, hd, hk, hn, hu⟩ := exists_cons_of_plain h
  have hb : c ≠ ' ' := by simpa [hs] using hf
  rw [← hu, hs]
  simp [linesFrom, Spot.next, hq, hd, hk, hn, hb]

end

/-! ### Quoted texts -/

theorem linesFrom_single_flatMap (ps : List Piece) (t s r : List Char) :
    linesFrom ps (.single t) (s.flatMap quoteChar ++ '\'' :: r) =
      linesFrom ps (.word (t ++ s)) r := by
  induction s generalizing t with
  | nil => simp [linesFrom, Spot.next, Spot.isOutside]
  | cons c s ih =>
    have hi := ih (t ++ [c])
    rw [List.append_assoc, List.singleton_append] at hi
    by_cases hc : c = '\''
    · -- the apostrophe stands between double quotes, and the word goes on after them
      subst hc
      simpa [linesFrom, Spot.next, Spot.isOutside, quoteChar] using hi
    · simpa [linesFrom, Spot.next, Spot.isOutside, quoteChar, hc] using hi

section

variable (ps : List Piece) (s t r : List Char)

theorem linesFrom_margin_quoteChars :
    linesFrom ps .margin (quoteChars s ++ r) = linesFrom ps (.word s) r := by
  have h := linesFrom_single_flatMap ps [] s r
  simpa [linesFrom, Spot.next, quoteChars] using h

/-- A quoted text after program text begins a word. -/
theorem linesFrom_code_quoteChars : linesFrom ps (.code t) (quoteChars s ++ r) =
    linesFrom (ps ++ [.code (String.ofList t)]) (.word s) r := by
  have h := linesFrom_single_flatMap (ps ++ [.code (String.ofList t)]) [] s r
  simpa [linesFrom, Spot.next, quoteChars] using h

/-- A quoted text after another goes on the word. -/
theorem linesFrom_word_quoteChars :
    linesFrom ps (.word t) (quoteChars s ++ r) = linesFrom ps (.word (t ++ s)) r := by
  have h := linesFrom_single_flatMap ps t s r
  simpa [linesFrom, Spot.next, quoteChars] using h

end

/-! ### Pieces -/

/-- Program text that touches is one piece, and so are words. -/
def attach : Piece → List Piece → List Piece
  | .code s, .code t :: ps => .code (s ++ t) :: ps
  | .word s, .word t :: ps => .word (s ++ t) :: ps
  | p, ps => p :: ps

/-- The pieces as they are read from the text. -/
def fuse : List Piece → List Piece
  | [] => []
  | .code s :: ps => attach (.code s) (fuse ps)
  | .word s :: ps => attach (.word s) (fuse ps)
  | .wordList ss :: ps => attach (.word (" ".intercalate (ss.map quote))) (fuse ps)
  | .comment _ :: ps => fuse ps

theorem attach_code_attach (s t : String) (ps : List Piece) :
    attach (.code s) (attach (.code t) ps) = attach (.code (s ++ t)) ps := by
  rcases ps with _ | ⟨_ | _ | _ | _, ps⟩ <;> simp [attach, String.append_assoc]

theorem attach_word_attach (s t : String) (ps : List Piece) :
    attach (.word s) (attach (.word t) ps) = attach (.word (s ++ t)) ps := by
  rcases ps with _ | ⟨_ | _ | _ | _, ps⟩ <;> simp [attach, String.append_assoc]

theorem attach_code_attach_word (s t : String) (ps : List Piece) :
    attach (.code s) (attach (.word t) ps) = .code s :: attach (.word t) ps := by
  rcases ps with _ | ⟨_ | _ | _ | _, ps⟩ <;> simp [attach]

theorem attach_word_attach_code (s t : String) (ps : List Piece) :
    attach (.word s) (attach (.code t) ps) = .word s :: attach (.code t) ps := by
  rcases ps with _ | ⟨_ | _ | _ | _, ps⟩ <;> simp [attach]

/-- A quoted text, or program text that is read as it stands. -/
def Piece.Plain : Piece → Prop
  | code s => Shell.Plain s
  | word _ | wordList _ => True
  | comment _ => False

def ArePlain (ps : List Piece) : Prop := ∀ p ∈ ps, p.Plain

theorem arePlain_nil : ArePlain [] := List.forall_mem_nil _

theorem ArePlain.code {s : String} {ps : List Piece} (h : ArePlain ps) (hs : Shell.Plain s) :
    ArePlain (.code s :: ps) := List.forall_mem_cons.2 ⟨hs, h⟩

theorem ArePlain.word {ps : List Piece} (h : ArePlain ps) (s : String) : ArePlain (.word s :: ps) :=
  List.forall_mem_cons.2 ⟨trivial, h⟩

/-- What follows ends a line. -/
def Ends (e : List Char) (k : List (List Piece)) : Prop :=
  ∀ ps (p : Spot), p.isOutside = true → linesFrom ps p e = (ps ++ p.ending) :: k

theorem ends_nil : Ends [] [] := fun _ _ _ => rfl

theorem ends_newline (s : List Char) : Ends ('\n' :: s) (linesFrom [] .margin s) := by
  intro ps p hp
  simp [linesFrom, hp]

section

variable {e : List Char} {k : List (List Piece)} {ps : List Piece}

/-- Pieces are read from their text, after program text and after a word. -/
theorem linesFrom_pieces (he : Ends e k) (h : ArePlain ps) (qs : List Piece) (t : List Char) :
    linesFrom qs (.code t) (ps.flatMap Piece.chars ++ e) =
        (qs ++ attach (.code (String.ofList t)) (fuse ps)) :: k ∧
      linesFrom qs (.word t) (ps.flatMap Piece.chars ++ e) =
        (qs ++ attach (.word (String.ofList t)) (fuse ps)) :: k := by
  induction ps generalizing qs t with
  | nil => exact ⟨he qs (.code t) rfl, he qs (.word t) rfl⟩
  | cons p ps ih =>
    have hps : ArePlain ps := fun q hq => h q (List.mem_cons_of_mem p hq)
    rw [List.flatMap_cons, List.append_assoc]
    have hw (w : String) (hc : p.chars = quoteChars w.toList)
        (hf : fuse (p :: ps) = attach (.word w) (fuse ps)) :
        linesFrom qs (.code t) (p.chars ++ (ps.flatMap Piece.chars ++ e)) =
            (qs ++ attach (.code (String.ofList t)) (fuse (p :: ps))) :: k ∧
          linesFrom qs (.word t) (p.chars ++ (ps.flatMap Piece.chars ++ e)) =
            (qs ++ attach (.word (String.ofList t)) (fuse (p :: ps))) :: k := by
      rw [hc, hf, linesFrom_code_quoteChars, linesFrom_word_quoteChars, (ih hps _ _).2,
        (ih hps _ _).2, attach_code_attach_word, attach_word_attach]
      simp
    cases p with
    | code s =>
      have hs : Plain s := h _ List.mem_cons_self
      rw [chars_code, linesFrom_code_of_plain hs, linesFrom_word_of_plain hs, (ih hps _ _).1,
        (ih hps _ _).1, fuse, attach_code_attach, attach_word_attach_code]
      simp
    | word s => exact hw s (chars_word s) rfl
    | wordList ss => exact hw _ (chars_wordList ss) rfl
    | comment s => exact (h _ List.mem_cons_self).elim

/-- The pieces begin with no space, which would be taken for more of the margin. -/
def AtMargin : List Piece → Prop
  | .code s :: _ => s.toList.head?.any (· != ' ') = true
  | _ => True

theorem linesFrom_margin (he : Ends e k) (h : ArePlain ps) (hm : AtMargin ps) :
    linesFrom [] .margin (ps.flatMap Piece.chars ++ e) = fuse ps :: k := by
  cases ps with
  | nil => exact he [] .margin rfl
  | cons p ps =>
    have hps : ArePlain ps := fun q hq => h q (List.mem_cons_of_mem p hq)
    rw [List.flatMap_cons, List.append_assoc]
    have hw (w : String) (hc : p.chars = quoteChars w.toList)
        (hf : fuse (p :: ps) = attach (.word w) (fuse ps)) :
        linesFrom [] .margin (p.chars ++ (ps.flatMap Piece.chars ++ e)) = fuse (p :: ps) :: k := by
      rw [hc, hf, linesFrom_margin_quoteChars, (linesFrom_pieces he hps [] _).2]
      simp
    cases p with
    | code s =>
      have hs : Plain s := h _ List.mem_cons_self
      rw [chars_code, linesFrom_margin_of_plain hs [] _ hm, (linesFrom_pieces he hps [] _).1, fuse]
      simp
    | word s => exact hw s (chars_word s) rfl
    | wordList ss => exact hw _ (chars_wordList ss) rfl
    | comment s => exact (h _ List.mem_cons_self).elim

end

end ShellCompletion.Shell
