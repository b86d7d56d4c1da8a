import ShellCompletion.Document.Literal
import ShellCompletion.Proofs.Text.OneLine

/-! Literals of values on one line. Numbers, dates and times are digits and a few marks, and bytes
are escaped as texts are. The main statement says that the literal of every value is on one line,
whatever texts it holds at any depth. -/
namespace ShellCompletion

open Text

/-! ### Floating-point numbers -/

namespace Binary64

/-- The shortest decimal of a number, with a bound on how often one digit more is tried. -/
def decimalWithin (most mantissa : Nat) (exponent : Int) : List Char × Int :=
  let (num, den) := ratio mantissa exponent
  let (q, power) := shortestFrom (ofMantissa false mantissa exponent) num den
    (leadingPower num den) most 1
  let digits := Nat.toDigits 10 q
  let kept := (digits.reverse.dropWhile (· == '0')).reverse
  (kept, power + digits.length - 1)

theorem shortestDigits_eq (mantissa : Nat) (exponent : Int) :
    shortestDigits mantissa exponent = decimalWithin 17 mantissa exponent := rfl

theorem oneLine_decimalWithin (most mantissa : Nat) (exponent : Int) :
    OneLine (decimalWithin most mantissa exponent).1 := by
  have hd (q : Nat) : OneLine (((Nat.toDigits 10 q).reverse.dropWhile (· == '0')).reverse) := by
    refine (oneLine_decimal q).of_subset fun c hc => ?_
    exact List.mem_reverse.1 ((List.dropWhile_sublist _).mem (List.mem_reverse.1 hc))
  simp only [decimalWithin]
  exact hd _

theorem oneLine_shortestDigits (mantissa : Nat) (exponent : Int) :
    OneLine (shortestDigits mantissa exponent).1 := by
  rw [shortestDigits_eq]
  exact oneLine_decimalWithin 17 mantissa exponent

theorem oneLine_positional {digits : List Char} (h : OneLine digits) (whole : Int) :
    OneLine (positional digits whole) := by
  have hz : '0' ∉ lineBreaks ∧ '.' ∉ lineBreaks := by decide
  rw [positional]
  split
  · simp [hz, h, oneLine_replicate]
  · have ht := h.of_subset (List.take_subset whole.toNat digits)
    have hd := h.of_subset (List.drop_subset whole.toNat digits)
    dsimp only
    split <;> simp [hz, ht, hd, oneLine_replicate]

theorem oneLine_powerChars (power : Int) : OneLine (powerChars power) := by
  have hm : 'e' ∉ lineBreaks ∧ '-' ∉ lineBreaks ∧ '+' ∉ lineBreaks := by decide
  rw [powerChars]
  split <;> simp [hm, oneLine_padded]

theorem oneLine_scientific {digits : List Char} (h : OneLine digits) (power : Int) :
    OneLine (scientific digits power) := by
  have hz : '.' ∉ lineBreaks := by decide
  have ht := h.of_subset (List.take_subset 1 digits)
  have hd := h.of_subset (List.drop_subset 1 digits)
  simp only [scientific, oneLine_append]
  refine ⟨⟨ht, ?_⟩, oneLine_powerChars power⟩
  split
  · exact oneLine_nil
  · exact oneLine_cons.2 ⟨hz, hd⟩

theorem oneLine_text (x : Binary64) : OneLine x.text.toList := by
  rw [text, String.toList_ofList, textChars]
  split
  · decide
  · split <;> decide
  · next negative m e _ =>
    have hs : OneLine (if negative then ['-'] else []) := by cases negative <;> decide
    -- the digits are set apart, as the search for them is not to be run
    have hd := oneLine_shortestDigits m e
    revert hd
    generalize shortestDigits m e = shortest
    obtain ⟨digits, power⟩ := shortest
    intro hd
    dsimp only
    split
    · rw [oneLine_append]
      exact ⟨hs, by decide⟩
    · rw [oneLine_append]
      refine ⟨hs, ?_⟩
      split
      · exact oneLine_positional hd _
      · exact oneLine_scientific hd _

end Binary64

/-! ### Dates and times -/

namespace Calendar

theorem oneLine_literalOf {kind : String} {parts : List String} (hk : OneLine kind.toList)
    (h : ∀ part ∈ parts, OneLine part.toList) : OneLine (literalOf kind parts).toList := by
  simp only [literalOf, String.toList_append, oneLine_append]
  exact ⟨⟨⟨⟨oneLine_ofList, hk⟩, oneLine_ofList⟩, oneLine_intercalate oneLine_ofList h⟩,
    oneLine_ofList⟩

theorem oneLine_named {name : String} (h : OneLine name.toList) (n : Int) :
    OneLine (toString name ++ toString n).toList := by
  rw [String.toList_append, oneLine_append]
  exact ⟨h, oneLine_toString_int n⟩

theorem oneLine_spanText (minutes : Int) : OneLine (spanText minutes).toList := by
  have days : OneLine "days=".toList := oneLine_ofList
  have seconds : OneLine "seconds=".toList := oneLine_ofList
  have joined (parts : List String) (h : ∀ part ∈ parts, OneLine part.toList) :
      OneLine (if parts.isEmpty then "0" else ", ".intercalate parts).toList := by
    split
    · exact oneLine_ofList
    · exact oneLine_intercalate oneLine_ofList h
  unfold spanText
  generalize Int.fdiv minutes 1440 = d, Int.fmod minutes 1440 * 60 = s
  simp only [String.toList_append, oneLine_append]
  refine ⟨⟨oneLine_ofList, joined _ (List.forall_mem_append.2 ⟨?_, ?_⟩)⟩, oneLine_ofList⟩
  · split
    · exact List.forall_mem_nil _
    · exact List.forall_mem_singleton.2 (oneLine_named days d)
  · split
    · exact List.forall_mem_nil _
    · exact List.forall_mem_singleton.2 (oneLine_named seconds s)

theorem oneLine_zoneLiteral (ahead : Int) : OneLine (zoneLiteral ahead).toList := by
  rw [zoneLiteral]
  split
  · exact oneLine_ofList
  · rw [String.toList_append, String.toList_append, oneLine_append, oneLine_append]
    exact ⟨⟨oneLine_ofList, oneLine_spanText ahead⟩, oneLine_ofList⟩

theorem Date.oneLine_parts (d : Date) : ∀ part ∈ d.parts, OneLine part.toList := by
  simp [parts, oneLine_decimal]

theorem TimeOfDay.oneLine_parts (t : TimeOfDay) : ∀ part ∈ t.parts, OneLine part.toList := by
  unfold parts
  split
  · simp [oneLine_decimal]
  · split <;> simp [oneLine_decimal]

theorem Date.oneLine_literal (d : Date) : OneLine d.literal.toList :=
  oneLine_literalOf oneLine_ofList d.oneLine_parts

theorem TimeOfDay.oneLine_literal (t : TimeOfDay) : OneLine t.literal.toList :=
  oneLine_literalOf oneLine_ofList t.oneLine_parts

theorem Moment.oneLine_literal (m : Moment) : OneLine m.literal.toList := by
  have zone : ∀ part ∈ (m.ahead.map fun a => "tzinfo=" ++ zoneLiteral a).toList,
      OneLine part.toList := by
    cases m.ahead with
    | none => simp
    | some a =>
      rw [Option.map_some, Option.toList_some, List.forall_mem_singleton, String.toList_append,
        oneLine_append]
      exact ⟨oneLine_ofList, oneLine_zoneLiteral a⟩
  refine oneLine_literalOf oneLine_ofList fun part hp => ?_
  obtain hp | hp := List.mem_append.1 hp
  · exact (List.mem_append.1 hp).elim (m.date.oneLine_parts part) (m.time.oneLine_parts part)
  · exact zone part hp

end Calendar

/-! ### Values -/

namespace Document

theorem oneLine_byteChars {quote : Char} (hq : quote ∉ lineBreaks) (b : UInt8) :
    OneLine (byteChars quote b) := by
  have hm : '\\' ∉ lineBreaks ∧ 'x' ∉ lineBreaks := by decide
  rw [byteChars]
  split
  · exact oneLine_escapeChar hq _
  · simp [hm, oneLine_hex]

theorem oneLine_bytesLiteral (data : List UInt8) : OneLine (bytesLiteral data).toList := by
  have hb : 'b' ∉ lineBreaks := by decide
  have hq := literalQuote_not_mem (data.map fun b => Char.ofNat b.toNat)
  simp only [bytesLiteral, String.toList_ofList, oneLine_append, oneLine_cons]
  exact ⟨⟨hb, hq, oneLine_flatMap fun b _ => oneLine_byteChars hq b⟩, hq, oneLine_nil⟩

theorem oneLine_bracketed {left right : String} {items : List String}
    (hl : OneLine left.toList) (hr : OneLine right.toList) (h : ∀ t ∈ items, OneLine t.toList) :
    OneLine (bracketed left right items).toList := by
  simp only [bracketed, String.toList_append, oneLine_append]
  exact ⟨⟨hl, oneLine_intercalate (by decide) h⟩, hr⟩

namespace Value

mutual

/-- The literal of every value is on one line. -/
theorem oneLine_literal (v : Value) : OneLine v.literal.toList := by
  match v with
  | null => decide
  | bool b => cases b <;> decide
  | int n =>
    rw [literal]
    exact oneLine_toString_int n
  | float x =>
    rw [literal]
    exact x.oneLine_text
  | str s =>
    rw [literal]
    exact Text.oneLine_literal s
  | bytes d =>
    rw [literal]
    exact oneLine_bytesLiteral d
  | date d =>
    rw [literal]
    exact d.oneLine_literal
  | time t =>
    rw [literal]
    exact t.oneLine_literal
  | moment m =>
    rw [literal]
    exact m.oneLine_literal
  | list xs =>
    rw [literal]
    exact oneLine_bracketed (by decide) (by decide) (oneLine_literals xs)
  | tuple xs =>
    rw [literal]
    split <;> exact oneLine_bracketed (by decide) (by decide) (oneLine_literals xs)
  | set xs =>
    rw [literal]
    split
    · decide
    · exact oneLine_bracketed (by decide) (by decide) (oneLine_literals xs)
  | map es =>
    rw [literal]
    exact oneLine_bracketed (by decide) (by decide) (oneLine_entryLiterals es)
  | enclosing _ =>
    rw [literal]
    decide

theorem oneLine_literals (xs : List Value) : ∀ t ∈ literals xs, OneLine t.toList := by
  match xs with
  | [] => simp [literals]
  | x :: xs =>
    rw [literals, List.forall_mem_cons]
    exact ⟨oneLine_literal x, oneLine_literals xs⟩

theorem oneLine_entryLiterals (es : Entries) : ∀ t ∈ entryLiterals es, OneLine t.toList := by
  match es with
  | [] => simp [entryLiterals]
  | (k, v) :: es =>
    rw [entryLiterals, List.forall_mem_cons]
    refine ⟨?_, oneLine_entryLiterals es⟩
    rw [String.toList_append, String.toList_append, oneLine_append, oneLine_append]
    exact ⟨⟨oneLine_literal k, by decide⟩, oneLine_literal v⟩

end

end Value

end Document

end ShellCompletion
