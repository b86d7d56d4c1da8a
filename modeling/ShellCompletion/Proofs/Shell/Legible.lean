import ShellCompletion.Proofs.Shell.Closed
import ShellCompletion.Proofs.Shell.Words
import ShellCompletion.Proofs.Text.Telling

/-! Lines that tell what they are lines of. Lines are legible for a key when their text, at
any depth and whatever follows, tells the key; what opens them decides whether they can be
taken for other lines. The main statements put legible lines together: one after another, as
lists up to other lines, and as branches of a case statement. A quoted text is legible where
no double quote follows, a comment up to the end of its line. -/
namespace ShellCompletion.Shell

open Text

variable {α β γ κ μ : Type}

/-! ### The text of lines -/

def Piece.chars (p : Piece) : List Char := p.text.toList

@[simp] theorem chars_code (s : String) : (Piece.code s).chars = s.toList := rfl

@[simp] theorem chars_word (s : String) : (Piece.word s).chars = quoteChars s.toList := toList_quote s

theorem chars_wordList (ss : List String) :
    (Piece.wordList ss).chars = quoteChars (" ".intercalate (ss.map quote)).toList := by
  rw [Piece.chars, Piece.text, embedded_eq_quote, toList_quote]

/-- The spaces before a line. -/
def margin (n : Nat) : List Char := (List.replicate n [' ', ' ']).flatten

theorem margin_add (m n : Nat) : margin (m + n) = margin m ++ margin n := by
  rw [margin, Nat.add_comm, Nat.add_comm, List.replicate_add, List.flatten_append, margin, margin]

theorem toList_join_indentation (n : Nat) :
    (String.join (List.replicate n indentation)).toList = margin n := by
  induction n with
  | zero => rfl
  | succ n ih =>
    rw [List.replicate_succ, String.join_cons, String.toList_append, ih]
    rfl

/-- The characters of a line at a depth, with the end of the line. -/
def Line.shown (n : Nat) (l : Line) : List Char := (l.deeper n).text.toList ++ ['\n']

theorem Line.shown_mk (n d : Nat) {ps : List Piece} (h : ps ≠ []) : Line.shown n ⟨d, ps⟩ =
    margin n ++ (margin d ++ (ps.flatMap Piece.chars ++ ['\n'])) := by
  have hp : (String.join (ps.map Piece.text)).toList = ps.flatMap Piece.chars := by
    clear h
    induction ps with
    | nil => rfl
    | cons p ps ih =>
      rw [List.map_cons, String.join_cons, String.toList_append, ih]
      rfl
  rw [Line.shown, Line.deeper, Line.text, List.isEmpty_eq_false_iff.2 h, if_neg Bool.false_ne_true,
    String.toList_append, toList_join_indentation, hp, Nat.add_comm, margin_add]
  simp

theorem Line.shown_blank (n : Nat) : Line.blank.shown n = ['\n'] := rfl

def shown (n : Nat) (ls : List Line) : List Char := ls.flatMap (Line.shown n)

@[simp] theorem shown_nil (n : Nat) : shown n [] = [] := rfl

@[simp] theorem shown_cons (n : Nat) (l : Line) (ls : List Line) :
    shown n (l :: ls) = l.shown n ++ shown n ls := rfl

@[simp] theorem shown_append (n : Nat) (ls ms : List Line) :
    shown n (ls ++ ms) = shown n ls ++ shown n ms := List.flatMap_append

theorem shown_indent (n m : Nat) (ls : List Line) : shown n (indent m ls) = shown (m + n) ls := by
  have h (l : Line) : (l.deeper m).shown n = l.shown (m + n) := by
    simp only [Line.shown, Line.deeper, Nat.add_assoc]
  simp [shown, indent, List.flatMap_map, h]

/-- The text of lines, ended as each line is. -/
theorem toList_joined {ls : List Line} (h : ls ≠ []) :
    (joined ls).toList ++ ['\n'] = shown 0 ls := by
  induction ls with
  | nil => exact absurd rfl h
  | cons l ls ih =>
    cases ls with
    | nil => simp [joined, Line.shown, Line.deeper_zero]
    | cons l' ls =>
      rw [joined_cons_cons, String.toList_append, List.append_assoc, ih (by simp)]
      simp [Line.shown, Line.deeper_zero]

/-! ### Legible lines -/

def Legible (ls : α → List Line) (k : α → κ) : Prop := ∀ n, Tells (fun x => shown n (ls x)) k

/-- Past the margin, the lines open in one of these ways. -/
def Opens (ls : α → List Line) (us : List (List Char)) : Prop :=
  ∀ n x, ∃ u ∈ us, margin n ++ u <+: shown n (ls x)

namespace Opens

variable {f : α → List Line} {g : β → List Line} {us vs : List (List Char)}

theorem apart (hf : Opens f us) (hg : Opens g vs) (h : ∀ u ∈ us, ∀ v ∈ vs, Differ u v) (n : Nat) :
    Apart (fun x => shown n (f x)) fun y => shown n (g y) := by
  intro x y r s
  obtain ⟨u, hu, t, ht⟩ := hf n x
  obtain ⟨v, hv, t', ht'⟩ := hg n y
  dsimp only
  rw [← ht, ← ht']
  simp only [List.append_assoc, ne_eq, List.append_cancel_left_eq]
  exact (h u hu v hv).append_ne _ _

/-- A blank line has no margin, so that only what opens with a line break is taken for it. -/
theorem apart_blank (hf : Opens f us) (h : ∀ u ∈ us, Differ u ['\n']) (n : Nat) :
    Apart (fun x => shown n (f x)) fun y => shown n (.blank :: g y) := by
  intro x y r s
  obtain ⟨u, hu, t, ht⟩ := hf n x
  dsimp only
  rw [← ht, shown_cons, Line.shown_blank, List.append_assoc, List.append_assoc, List.append_assoc]
  cases n with
  | zero => exact (h u hu).append_ne _ _
  | succ n => simp [margin, List.replicate_succ]

theorem line {d : Nat} {ps : α → List Piece} {u : List Char} (hp : ∀ x, ps x ≠ [])
    (h : ∀ x, u <+: margin d ++ (ps x).flatMap Piece.chars) : Opens (fun x => [⟨d, ps x⟩]) [u] := by
  intro n x
  refine ⟨u, List.mem_singleton_self u, ?_⟩
  rw [shown_cons, shown_nil, List.append_nil, Line.shown_mk n d (hp x), ← List.append_assoc (margin d),
    List.prefix_append_right_inj]
  exact (h x).trans (List.prefix_append _ _)

theorem append (hf : Opens f us) (g : α → List Line) : Opens (fun x => f x ++ g x) us := by
  intro n x
  obtain ⟨u, hu, h⟩ := hf n x
  refine ⟨u, hu, ?_⟩
  rw [shown_append]
  exact h.trans (List.prefix_append _ _)

theorem comp (hf : Opens f us) (t : γ → α) : Opens (fun z => f (t z)) us := fun n z => hf n (t z)

/-- Deeper lines open with more of the margin. -/
theorem indent (hf : Opens f us) (m : Nat) :
    Opens (fun x => indent m (f x)) (us.map (margin m ++ ·)) := by
  intro n x
  obtain ⟨u, hu, h⟩ := hf (m + n) x
  refine ⟨margin m ++ u, List.mem_map_of_mem hu, ?_⟩
  rwa [shown_indent, ← List.append_assoc, ← margin_add, Nat.add_comm n m]

/-- Lines that are there or not, and what follows, open as either does. -/
theorem optional_append {f g : α → List Line} (hf : Opens f us) (hg : Opens g vs) (b : α → Bool) :
    Opens (fun x => (if b x then f x else []) ++ g x) (us ++ vs) := by
  intro n x
  dsimp only
  cases b x with
  | false =>
    obtain ⟨v, hv, h⟩ := hg n x
    exact ⟨v, List.mem_append_right us hv, h⟩
  | true =>
    obtain ⟨u, hu, h⟩ := hf.append g n x
    exact ⟨u, List.mem_append_left vs hu, h⟩

end Opens

namespace Legible

variable {f : α → List Line} {k : α → κ}

theorem of_eq {g : α → List Line} (hf : Legible f k) (h : ∀ x, g x = f x) : Legible g k := by
  have he : g = f := funext h
  rwa [he]

theorem const (ls : List Line) : Legible (fun _ : α => ls) fun _ => () := fun _ => .const _

theorem comp (hf : Legible f k) (t : γ → α) : Legible (fun z => f (t z)) fun z => k (t z) :=
  fun n => (hf n).comp t

theorem congr (hf : Legible f k) {k' : α → μ} (h : ∀ x y, k x = k y ↔ k' x = k' y) :
    Legible f k' := fun n => (hf n).congr h

theorem append {g : α → List Line} {l : α → μ} (hf : Legible f k) (hg : Legible g l) :
    Legible (fun x => f x ++ g x) fun x => (k x, l x) := by
  intro n
  simpa only [shown_append] using (hf n).append (hg n)

theorem const_append (ls : List Line) (hf : Legible f k) : Legible (fun x => ls ++ f x) k := by
  intro n
  simpa only [shown_append] using (hf n).const_append (shown n ls)

theorem append_const (hf : Legible f k) (ls : List Line) : Legible (fun x => f x ++ ls) k := by
  intro n
  simpa only [shown_append] using (hf n).append_const (shown n ls)

theorem indent (hf : Legible f k) (m : Nat) : Legible (fun x => indent m (f x)) k := by
  intro n
  simpa only [shown_indent] using hf (m + n)

theorem flatMap_append {g : γ → List Line} {l : γ → μ} (hf : Legible f k) (hg : Legible g l)
    (ha : ∀ n, Apart (fun x => shown n (f x)) fun p => shown n (g p)) (xs : γ → List α) :
    Legible (fun p => (xs p).flatMap f ++ g p) fun p => ((xs p).map k, l p) := by
  intro n
  have h := (hf n).flatMap_append (hg n) (ha n) xs
  have he (p : γ) : shown n ((xs p).flatMap f) = (xs p).flatMap fun x => shown n (f x) :=
    List.flatMap_assoc
  simpa only [shown_append, he] using h

/-- Lines that are there or not tell whether they are, and their key where that is the same for
all subjects that lack them. -/
theorem optional_append {g : α → List Line} {l : α → μ} {b : α → Bool} (hf : Legible f k)
    (hg : Legible g l) (ha : ∀ n, Apart (fun x => shown n (f x)) fun x => shown n (g x))
    (hk : ∀ x y, b x = false → b y = false → k x = k y) :
    Legible (fun x => (if b x then f x else []) ++ g x) fun x => (b x, k x, l x) := by
  have h := hf.flatMap_append hg ha fun x => if b x then [x] else []
  refine (h.congr fun x y => ?_).of_eq fun x => ?_
  · cases hx : b x <;> cases hy : b y <;> simp
    simp [hk x y hx hy]
  · cases b x <;> simp

theorem map_append {line : α → Line} {g : γ → List Line} {l : γ → μ}
    (hf : Legible (fun x => [line x]) k) (hg : Legible g l)
    (ha : ∀ n, Apart (fun x => shown n [line x]) fun p => shown n (g p)) (xs : γ → List α) :
    Legible (fun p => (xs p).map line ++ g p) fun p => ((xs p).map k, l p) := by
  refine (hf.flatMap_append hg ha xs).of_eq fun p => ?_
  rw [List.map_eq_flatMap]

theorem line {d : Nat} {ps : α → List Piece} (hp : ∀ x, ps x ≠ [])
    (h : Tells (fun x => (ps x).flatMap Piece.chars ++ ['\n']) k) :
    Legible (fun x => [⟨d, ps x⟩]) k := by
  intro n
  have hs (x : α) : shown n [⟨d, ps x⟩] =
      margin n ++ (margin d ++ ((ps x).flatMap Piece.chars ++ ['\n'])) := by
    rw [shown_cons, shown_nil, List.append_nil, Line.shown_mk n d (hp x)]
  simpa only [hs] using (h.const_append (margin d)).const_append (margin n)

end Legible

/-! ### Quoted texts, comments, branches -/

theorem quoteChars_append_cons {c d : Char} (hc : c ≠ '"') (hd : d ≠ '"') (s t u v : List Char) :
    quoteChars s ++ c :: u = quoteChars t ++ d :: v ↔ s = t ∧ c = d ∧ u = v := by
  -- the opening marks are the same; what follows the closing ones tells them from apostrophes
  have h : s.flatMap quoteChar ++ '\'' :: c :: u = t.flatMap quoteChar ++ '\'' :: d :: v ↔
      s = t ∧ c = d ∧ u = v := by
    induction s generalizing t with
    | nil =>
      cases t with
      | nil => simp
      | cons b t =>
        by_cases hb : b = '\''
        · simp [quoteChar, hb, hc]
        · simp [quoteChar, hb, Ne.symm hb]
    | cons a s ih =>
      cases t with
      | nil =>
        by_cases ha : a = '\''
        · simp [quoteChar, ha, Ne.symm hd]
        · simp [quoteChar, ha]
      | cons b t =>
        rw [List.flatMap_cons, List.flatMap_cons, List.append_assoc, List.append_assoc,
          List.cons.injEq, and_assoc, ← ih]
        by_cases ha : a = '\''
        · by_cases hb : b = '\''
          · simp [quoteChar, ha, hb]
          · simp [quoteChar, ha, hb, Ne.symm hb]
        · by_cases hb : b = '\''
          · simp [quoteChar, ha, hb]
          · simp [quoteChar, ha, hb]
  simpa [quoteChars] using h

/-- A quoted text tells the text by a character after it that is no double quote. -/
theorem tells_quoteChars {c : Char} (hc : c ≠ '"') :
    Tells (fun s : String => quoteChars s.toList ++ [c]) id := by
  intro s t u v
  simp only [List.append_assoc, List.singleton_append, quoteChars_append_cons hc hc, String.toList_inj,
    id, true_and]

theorem newline_not_mem_commentText (s : String) : '\n' ∉ (commentText s).toList := by
  have h := newline_not_mem_collapse s
  simpa [commentText] using h

/-- A comment tells its words. -/
theorem legible_comment (d : Nat) : Legible (fun s => [⟨d, [.comment s]⟩]) Text.collapse := by
  refine .line (by simp) ?_
  have h : Tells (fun s => (commentText s).toList ++ ['\n']) fun s => (commentText s).toList :=
    .upTo newline_not_mem_commentText
  have hp (s : String) : [Piece.comment s].flatMap Piece.chars = (commentText s).toList := by
    simp [Piece.chars, Piece.text]
  simpa only [hp] using h.congr fun s t => by
    simp [commentText, String.toList_inj]

theorem opens_comment (d : Nat) : Opens (fun s => [⟨d, [.comment s]⟩]) [margin d ++ ['#']] :=
  .line (by simp) fun s => by simp [Piece.chars, Piece.text, commentText]

/-- Patterns that tell a key up to the end of their line. -/
def LegiblePattern (pattern : α → List Piece) (k : α → κ) : Prop :=
  Tells (fun x => (pattern x).flatMap Piece.chars ++ [')', '\n']) k

namespace LegiblePattern

theorem const (ps : List Piece) : LegiblePattern (fun _ : α => ps) fun _ => () := Tells.const _

theorem comp {pattern : α → List Piece} {k : α → κ} (h : LegiblePattern pattern k) (t : γ → α) :
    LegiblePattern (fun z => pattern (t z)) fun z => k (t z) := Tells.comp h t

theorem word : LegiblePattern (fun s => [.word s]) id := by
  have h := (tells_quoteChars (c := ')') (by decide)).append_const ['\n']
  simpa [LegiblePattern] using h

end LegiblePattern

/-- What the comment on a branch says, if there is one. -/
def remark? (note : String) : Option String :=
  if note.isEmpty then none else some (Text.collapse note)

section Branches

variable {pattern : α → List Piece} {note : α → String} {body : α → List Line}
  {k : α → κ} {l : α → μ} {us : List (List Char)}

/-- A branch opens as its pattern does. -/
theorem opens_branchLines (b : α → Branch) {u : List Char}
    (h : ∀ x, u <+: ((b x).pattern ++ [Piece.code ")"]).flatMap Piece.chars) :
    Opens (fun x => (b x).lines) [u] := by
  have hh : Opens (fun x => [{ pieces := (b x).pattern ++ [.code ")"] }]) [u] :=
    .line (by simp) h
  exact hh.append _

/-- A branch tells its pattern, its comment and its body. -/
theorem legible_branchLines (hp : LegiblePattern pattern k)
    (hb : Legible (fun x => body x ++ [.plain ";;"]) l)
    (ho : Opens (fun x => body x ++ [.plain ";;"]) us) (hu : ∀ u ∈ us, Differ ['#'] u) :
    Legible (fun x => Branch.lines ⟨pattern x, note x, body x⟩) fun x =>
      (k x, remark? (note x), l x) := by
  have hh : Legible (fun x => [{ pieces := pattern x ++ [.code ")"] }]) k := by
    refine .line (by simp) ?_
    simpa [LegiblePattern] using hp
  have hd : ∀ u ∈ [margin 1 ++ ['#']], ∀ v ∈ us.map (margin 1 ++ ·), Differ u v := by
    simp only [List.mem_singleton, List.mem_map, forall_eq, forall_exists_index, and_imp,
      forall_apply_eq_imp_iff₂, Differ, List.prefix_append_right_inj]
    exact hu
  have ht := (legible_comment 1).flatMap_append (hb.indent 1) ((opens_comment 1).apart (ho.indent 1) hd)
    fun x => if (note x).isEmpty then [] else [note x]
  refine ((hh.append ht).congr fun x y => ?_).of_eq fun x => ?_
  · simp only [Prod.mk.injEq, remark?]
    by_cases hx : (note x).isEmpty = true <;> by_cases hy : (note y).isEmpty = true <;> simp [hx, hy]
  · by_cases hx : (note x).isEmpty = true <;>
      simp [Branch.lines, hx, Line.comment, Line.deeper, indent]

theorem opens_caseLines (subject : String) (branches : α → List Branch) :
    Opens (fun x => caseLines subject (branches x)) [['c']] := by
  have h : Opens (fun _ : α => [.plain ("case " ++ subject ++ " in")]) [['c']] :=
    .line (by simp) fun x => by simp [margin]
  exact h.append _

/-- A case statement tells its branches. -/
theorem legible_caseLines (subject : String) {branch : α → Branch}
    (h : Legible (fun x => (branch x).lines) k) (xs : γ → List α) :
    Legible (fun p => caseLines subject ((xs p).map branch)) fun p => (xs p).map k := by
  have he : Opens (fun _ : γ => [.plain "esac"]) [['e']] :=
    .line (by simp) fun _ => by simp [margin]
  have hl := (h.indent 1).flatMap_append (Legible.const (α := γ) [.plain "esac"])
    (((opens_branchLines branch fun _ => List.nil_prefix).indent 1).apart he (by decide)) xs
  refine ((hl.const_append [.plain ("case " ++ subject ++ " in")]).congr fun x y => ?_).of_eq
    fun x => ?_
  · simp
  · simp [caseLines, indent, List.map_flatMap, List.flatMap_map]

end Branches

end ShellCompletion.Shell
