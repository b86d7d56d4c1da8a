import ShellCompletion.Document.Yaml.Read
import ShellCompletion.Proofs.Document.Json.Reading

/-! Texts in JSON that are plain: what they write is written in YAML in the same way. Blanks hold
no tabs. A string holds only characters that may stand in a text in YAML, no line breaks among
them, and no character in two escapes; a key is short and has its colon on the same line. A number
with a power of ten has a point and the sign of the power, and the names of infinities and of what
is not a number are not used. -/
namespace ShellCompletion.Document.Json

open Text

namespace Piece

def IsPlain : Piece → Prop
  | char c => Yaml.isAllowed c = true ∧ Yaml.isBreak c = false
  | pair _ _ => False
  | _ => True

end Piece

def PiecesPlain (ps : List Piece) : Prop := ∀ p ∈ ps, p.IsPlain

def Numeral.IsPlain (n : Numeral) : Prop := ∀ p ∈ n.power, n.places ≠ [] ∧ p.sign ≠ none

/-- The longest key that is found for a key in YAML, with the blanks before its colon. -/
def longestKey : Nat := 1024

structure KeyPlain (key : List Piece) (gap : List Char) : Prop where
  pieces : PiecesPlain key
  spaces : ∀ c ∈ gap, c = ' '
  short : (quoted key).length + gap.length ≤ longestKey

mutual

def Source.IsPlain : Source → Prop
  | .name entry => ∀ x, entry.2 ≠ .float x
  | .number n => n.IsPlain
  | .string ps => PiecesPlain ps
  | .emptyList blank => '\t' ∉ blank
  | .list items => items.IsPlain
  | .emptyMap blank => '\t' ∉ blank
  | .map members => members.IsPlain

def Items.IsPlain : Items → Prop
  | .last before item after => '\t' ∉ before ∧ item.IsPlain ∧ '\t' ∉ after
  | .more before item after rest => ('\t' ∉ before ∧ item.IsPlain ∧ '\t' ∉ after) ∧ rest.IsPlain

def Members.IsPlain : Members → Prop
  | .last before key gap inner value after =>
    ('\t' ∉ before ∧ KeyPlain key gap) ∧ '\t' ∉ inner ∧ value.IsPlain ∧ '\t' ∉ after
  | .more before key gap inner value after rest =>
    (('\t' ∉ before ∧ KeyPlain key gap) ∧ '\t' ∉ inner ∧ value.IsPlain ∧ '\t' ∉ after) ∧ rest.IsPlain

end

structure Page.IsPlain (p : Page) : Prop where
  before : '\t' ∉ p.before
  root : p.root.IsPlain
  after : '\t' ∉ p.after

/-! ### The characters of texts -/

/-- The characters that stand outside of strings. -/
def outerChars : List Char := " \t\n\r[]\x7b\x7d,:".toList ++ (numeralChars ++ names.flatMap (·.1))

/-- What holds of the characters outside of strings, and of the strings of JSON, or only of those
that are plain. -/
structure Spelt (Q : Char → Prop) (plain : Prop) : Prop where
  outer : ∀ c ∈ outerChars, Q c
  strings : ∀ ps, PiecesJson ps → (plain → PiecesPlain ps) → ∀ c ∈ quoted ps, Q c

section

variable {Q : Char → Prop} {plain : Prop} (spelt : Spelt Q plain)
include spelt

theorem Spelt.blank {b : List Char} (hb : IsBlank b) : ∀ c ∈ b, Q c := by
  intro c hc
  have := hb c hc
  simp only [isSpace, Bool.or_eq_true, beq_iff_eq] at this
  obtain ((rfl | rfl) | rfl) | rfl := this <;> exact spelt.outer _ (by decide)

mutual

theorem Source.IsJson.forall_mem (s : Source) (hs : s.IsJson) (h : plain → s.IsPlain) :
    ∀ c ∈ s.text, Q c := by
  cases s with
  | name entry =>
    have named (c : Char) (hc : c ∈ entry.1) : c ∈ names.flatMap (·.1) :=
      List.mem_flatMap.2 ⟨entry, hs, hc⟩
    exact fun c hc => spelt.outer c (List.mem_append_right _ (List.mem_append_right _ (named c hc)))
  | number n =>
    exact fun c hc => spelt.outer c
      (List.mem_append_right _ (List.mem_append_left _ (Numeral.IsJson.mem_numeralChars hs hc)))
  | string ps => exact spelt.strings ps hs h
  | emptyList blank =>
    simp only [Source.text, List.forall_mem_cons, List.forall_mem_append]
    exact ⟨spelt.outer _ (by decide), spelt.blank hs, spelt.outer _ (by decide), by simp⟩
  | list items =>
    simp only [Source.text, List.forall_mem_cons, List.forall_mem_append]
    exact ⟨spelt.outer _ (by decide), Items.IsJson.forall_mem items hs h, spelt.outer _ (by decide),
      by simp⟩
  | emptyMap blank =>
    simp only [Source.text, List.forall_mem_cons, List.forall_mem_append]
    exact ⟨spelt.outer _ (by decide), spelt.blank hs, spelt.outer _ (by decide), by simp⟩
  | map members =>
    simp only [Source.text, List.forall_mem_cons, List.forall_mem_append]
    exact ⟨spelt.outer _ (by decide), Members.IsJson.forall_mem members hs h,
      spelt.outer _ (by decide), by simp⟩

theorem Items.IsJson.forall_mem (xs : Items) (hxs : xs.IsJson) (h : plain → xs.IsPlain) :
    ∀ c ∈ xs.text, Q c := by
  cases xs with
  | last before item after =>
    simp only [Items.text, List.forall_mem_append]
    exact ⟨spelt.blank hxs.1, Source.IsJson.forall_mem item hxs.2.1 fun hp => (h hp).2.1,
      spelt.blank hxs.2.2⟩
  | more before item after rest =>
    simp only [Items.text, List.forall_mem_cons, List.forall_mem_append]
    exact ⟨spelt.blank hxs.1.1, Source.IsJson.forall_mem item hxs.1.2.1 fun hp => (h hp).1.2.1,
      spelt.blank hxs.1.2.2, spelt.outer _ (by decide),
      Items.IsJson.forall_mem rest hxs.2 fun hp => (h hp).2⟩

theorem Members.IsJson.forall_mem (ms : Members) (hms : ms.IsJson) (h : plain → ms.IsPlain) :
    ∀ c ∈ ms.text, Q c := by
  cases ms with
  | last before key gap inner value after =>
    simp only [Members.text, List.forall_mem_cons, List.forall_mem_append]
    exact ⟨spelt.blank hms.1.1, spelt.strings key hms.1.2.1 fun hp => (h hp).1.2.pieces,
      spelt.blank hms.1.2.2, spelt.outer _ (by decide), spelt.blank hms.2.1,
      Source.IsJson.forall_mem value hms.2.2.1 fun hp => (h hp).2.2.1, spelt.blank hms.2.2.2⟩
  | more before key gap inner value after rest =>
    simp only [Members.text, List.forall_mem_cons, List.forall_mem_append]
    exact ⟨spelt.blank hms.1.1.1, spelt.strings key hms.1.1.2.1 fun hp => (h hp).1.1.2.pieces,
      spelt.blank hms.1.1.2.2, spelt.outer _ (by decide), spelt.blank hms.1.2.1,
      Source.IsJson.forall_mem value hms.1.2.2.1 fun hp => (h hp).1.2.2.1, spelt.blank hms.1.2.2.2,
      spelt.outer _ (by decide), Members.IsJson.forall_mem rest hms.2 fun hp => (h hp).2⟩

end

theorem Page.IsJson.forall_mem {p : Page} (hp : p.IsJson) (h : plain → p.IsPlain) :
    ∀ c ∈ p.text, Q c := by
  simp only [Page.text, List.forall_mem_append]
  exact ⟨spelt.blank hp.before, Source.IsJson.forall_mem spelt p.root hp.root fun h' => (h h').root,
    spelt.blank hp.after⟩

end

/-- A character that may stand in a text in YAML and ends no line. -/
def IsSolid (c : Char) : Prop := Yaml.isAllowed c = true ∧ Yaml.isBreak c = false

theorem isSolid_of_isHexDigit {c : Char} (h : isHexDigit c = true) : IsSolid c := by
  have hc : 0x30 ≤ c.toNat ∧ c.toNat ≤ 0x7E := by
    simp only [isHexDigit, baseDigit?] at h
    grind
  refine ⟨by simp [Yaml.isAllowed, Nat.le_trans (by decide : 0x20 ≤ 0x30) hc.1, hc.2], ?_⟩
  cases hb : Yaml.isBreak c with
  | false => rfl
  | true =>
    simp only [Yaml.isBreak, Bool.or_eq_true, beq_iff_eq] at hb
    obtain (((rfl | rfl) | rfl) | rfl) | rfl := hb <;> exact absurd hc (by decide)

theorem isSolid_of_ascii {c : Char} (h : c ∈ "\"\\/bfnrtu".toList) : IsSolid c := by
  have all : ∀ c ∈ "\"\\/bfnrtu".toList, Yaml.isAllowed c = true ∧ Yaml.isBreak c = false :=
    List.forall_iff_forall_mem.1 (by decide)
  exact all c h

theorem Piece.IsJson.isSolid {p : Piece} (hp : p.IsJson) (h : p.IsPlain) :
    ∀ c ∈ p.text, IsSolid c := by
  cases p with
  | char c => exact List.forall_mem_singleton.2 h
  | letter c =>
    obtain ⟨d, hd⟩ := Option.isSome_iff_exists.1 hp
    have hc : c ∈ "\"\\/bfnrtu".toList := by
      unfold plainEscape? at hd
      split at hd <;> first | decide | cases hd
    exact List.forall_mem_cons.2 ⟨isSolid_of_ascii (by decide),
      List.forall_mem_singleton.2 (isSolid_of_ascii hc)⟩
  | unit ds =>
    have hds : FourHex ds := hp
    exact List.forall_mem_cons.2 ⟨isSolid_of_ascii (by decide), List.forall_mem_cons.2
      ⟨isSolid_of_ascii (by decide), fun c hc => isSolid_of_isHexDigit (hds.hex c hc)⟩⟩
  | pair hs ls => exact h.elim

theorem PiecesJson.isSolid {ps : List Piece} (hps : PiecesJson ps) (h : PiecesPlain ps) :
    ∀ c ∈ piecesText ps, IsSolid c := by
  induction ps with
  | nil => simp [piecesText]
  | cons p ps ih =>
    simp only [PiecesPlain, List.mem_cons, forall_eq_or_imp] at h
    rw [piecesText_cons]
    exact List.forall_mem_append.2 ⟨hps.1.isSolid h.1, ih hps.2.2 h.2⟩

theorem PiecesJson.isSolid_quoted {ps : List Piece} (hps : PiecesJson ps) (h : PiecesPlain ps) :
    ∀ c ∈ quoted ps, IsSolid c :=
  List.forall_mem_cons.2 ⟨isSolid_of_ascii (by decide), List.forall_mem_append.2
    ⟨hps.isSolid h, List.forall_mem_singleton.2 (isSolid_of_ascii (by decide))⟩⟩

/-- Every character of a plain text may stand in a text in YAML. -/
theorem Page.IsJson.allowed {p : Page} (hp : p.IsJson) (h : p.IsPlain) :
    ∀ c ∈ p.text, Yaml.isAllowed c = true :=
  have spelt : Spelt (Yaml.isAllowed · = true) True :=
    ⟨List.forall_iff_forall_mem.1 (by decide), fun _ hps h c hc => (hps.isSolid_quoted (h trivial) c hc).1⟩
  hp.forall_mem spelt fun _ => h

/-! ### No character is zero -/

theorem FourHex.ne_zero {ds : List Char} (h : FourHex ds) : ∀ c ∈ ds, c ≠ '\x00' := by
  rintro c hc rfl
  exact absurd (h.hex _ hc) (by decide)

theorem Piece.IsJson.ne_zero {p : Piece} (hp : p.IsJson) : ∀ c ∈ p.text, c ≠ '\x00' := by
  cases p with
  | char c =>
    refine List.forall_mem_singleton.2 ?_
    rintro rfl
    exact absurd hp.2.2 (by decide)
  | letter c =>
    have hc : (plainEscape? c).isSome = true := hp
    refine List.forall_mem_cons.2 ⟨by decide, List.forall_mem_singleton.2 ?_⟩
    rintro rfl
    exact absurd hc (by decide)
  | unit ds =>
    have hds : FourHex ds := hp
    exact List.forall_mem_cons.2 ⟨by decide, List.forall_mem_cons.2 ⟨by decide, hds.ne_zero⟩⟩
  | pair hs ls =>
    obtain ⟨⟨hhs, -⟩, hls, -⟩ := hp
    simp only [Piece.text, List.forall_mem_cons, List.forall_mem_append]
    exact ⟨by decide, by decide, hhs.ne_zero, by decide, by decide, hls.ne_zero⟩

theorem PiecesJson.ne_zero {ps : List Piece} (hps : PiecesJson ps) :
    ∀ c ∈ piecesText ps, c ≠ '\x00' := by
  induction ps with
  | nil => simp [piecesText]
  | cons p ps ih =>
    rw [piecesText_cons]
    exact List.forall_mem_append.2 ⟨hps.1.ne_zero, ih hps.2.2⟩

/-- No text in JSON holds the character zero. -/
theorem Page.IsJson.ne_zero {p : Page} (hp : p.IsJson) : ∀ c ∈ p.text, c ≠ '\x00' := by
  have spelt : Spelt (· ≠ '\x00') False := by
    refine ⟨List.forall_iff_forall_mem.1 (by decide), fun ps hps _ => ?_⟩
    simp only [quoted, List.forall_mem_cons, List.forall_mem_append]
    exact ⟨by decide, hps.ne_zero, by decide, by simp⟩
  exact hp.forall_mem spelt False.elim

end ShellCompletion.Document.Json
