import ShellCompletion.Proofs.Text.Numeral
import ShellCompletion.Shell.Quote

/-! Reading a text as the words of a command line. Gaps separate words, quotations stand for
what is between their marks, and parts that touch are one word, which may be empty. The
reader refuses a quotation that stays open and every character that a shell does not take as
it stands, so that a text it accepts has these words whatever is expanded. The main
statements say that quoted words are read back, and that a quoted list of words is one word
in which the list is read again. -/
namespace ShellCompletion.Shell

/-- A character between words. -/
def isGap (c : Char) : Bool := [' ', '\t', '\n'].contains c

/-- A character outside quotations that a shell does more with than take it as it stands. -/
def isActive (c : Char) : Bool := "|&;<>()$`\\*?[]\x7b\x7d#~=%!".toList.contains c

/-- A character between double quotes that a shell does more with than take it as it stands. -/
def isActiveInDouble (c : Char) : Bool := "$`\\!".toList.contains c

/-- Where the reader of words stands, with what it has of the word that it is in. -/
inductive Standing where
  | gap
  | bare (word : List Char)
  | single (word : List Char)
  | double (word : List Char)
deriving DecidableEq, Repr

/-- Outside quotations, a character that is no gap belongs to the word. -/
def enter (word : List Char) (c : Char) : Option Standing :=
  if c = '\'' then some (.single word)
  else if c = '"' then some (.double word)
  else if isActive c then none
  else some (.bare (word ++ [c]))

/-- The words of a text, the first of which goes on where the reader stands. -/
def readFrom : Standing → List Char → Option (List String)
  | .gap, [] => some []
  | .bare word, [] => some [String.ofList word]
  | .single _, [] | .double _, [] => none
  | .gap, c :: s => if isGap c then readFrom .gap s else (enter [] c).bind fun p => readFrom p s
  | .bare word, c :: s =>
    if isGap c then (readFrom .gap s).map (String.ofList word :: ·)
    else (enter word c).bind fun p => readFrom p s
  | .single word, c :: s =>
    if c = '\'' then readFrom (.bare word) s else readFrom (.single (word ++ [c])) s
  | .double word, c :: s =>
    if c = '"' then readFrom (.bare word) s
    else if isActiveInDouble c then none
    else readFrom (.double (word ++ [c])) s

/-- The words of a text. -/
def readWords (s : String) : Option (List String) := readFrom .gap s.toList

theorem readFrom_single_quoteChar (word : List Char) (c : Char) (s : List Char) :
    readFrom (.single word) (quoteChar c ++ s) = readFrom (.single (word ++ [c])) s := by
  by_cases h : c = '\''
  · -- the apostrophe leaves the quotation, stands between double quotes, and enters again
    subst h
    simp [quoteChar, readFrom, enter, isGap, isActiveInDouble]
  · simp [quoteChar, readFrom, h]

/-- Inside a quotation an escaped text is read as it was. -/
theorem readFrom_single_flatMap (word t s : List Char) :
    readFrom (.single word) (t.flatMap quoteChar ++ s) = readFrom (.single (word ++ t)) s := by
  induction t generalizing word with
  | nil => simp
  | cons c t ih =>
    rw [List.flatMap_cons, List.append_assoc, readFrom_single_quoteChar, ih, List.append_assoc,
      List.singleton_append]

/-- A quoted text is a word so far, which the next character may end. -/
theorem readFrom_gap_quoteChars (t s : List Char) :
    readFrom .gap (quoteChars t ++ s) = readFrom (.bare t) s := by
  have he : readFrom .gap (quoteChars t ++ s) =
      readFrom (.single []) (t.flatMap quoteChar ++ '\'' :: s) := by
    simp [quoteChars, readFrom, enter, isGap]
  rw [he, readFrom_single_flatMap, List.nil_append, readFrom, if_pos rfl]

theorem readFrom_bare_space (word s : List Char) :
    readFrom (.bare word) (' ' :: s) = (readFrom .gap s).map (String.ofList word :: ·) := rfl

/-- Quoted words with spaces between them are read back. -/
theorem readFrom_quoted (ws : List String) :
    readFrom .gap (List.intercalate [' '] (ws.map fun w => quoteChars w.toList)) = some ws := by
  induction ws with
  | nil => rfl
  | cons w ws ih =>
    cases ws with
    | nil =>
      have h := readFrom_gap_quoteChars w.toList []
      simpa [readFrom] using h
    | cons v vs =>
      simp only [List.map_cons, List.intercalate_cons_cons] at ih ⊢
      rw [List.append_assoc, readFrom_gap_quoteChars, List.singleton_append, readFrom_bare_space, ih,
        Option.map_some, String.ofList_toList]

/-- A character that a word goes on with outside quotations. -/
def isBare (c : Char) : Bool := !isGap c && c != '\'' && c != '"' && !isActive c

/-- A text that is a word without being quoted. -/
def IsBareWord (s : String) : Prop := s ≠ "" ∧ ∀ c ∈ s.toList, isBare c = true

theorem enter_of_isBare {c : Char} (h : isBare c = true) (word : List Char) :
    isGap c = false ∧ enter word c = some (.bare (word ++ [c])) := by
  simp only [isBare, Bool.and_eq_true, Bool.not_eq_true', bne_iff_ne, ne_eq] at h
  obtain ⟨⟨⟨hg, hq⟩, hd⟩, ha⟩ := h
  exact ⟨hg, by simp [enter, hq, hd, ha]⟩

theorem readFrom_bare_append {w : List Char} (h : ∀ c ∈ w, isBare c = true) (word s : List Char) :
    readFrom (.bare word) (w ++ s) = readFrom (.bare (word ++ w)) s := by
  induction w generalizing word with
  | nil => simp
  | cons c w ih =>
    rw [List.forall_mem_cons] at h
    obtain ⟨hg, he⟩ := enter_of_isBare h.1 word
    rw [List.cons_append, readFrom, if_neg (by simp [hg]), he, Option.bind_some, ih h.2,
      List.append_assoc, List.singleton_append]

theorem readFrom_gap_append {w : List Char} (hn : w ≠ []) (h : ∀ c ∈ w, isBare c = true)
    (s : List Char) : readFrom .gap (w ++ s) = readFrom (.bare w) s := by
  obtain ⟨c, w, rfl⟩ := List.exists_cons_of_ne_nil hn
  rw [List.forall_mem_cons] at h
  obtain ⟨hg, he⟩ := enter_of_isBare h.1 []
  rw [List.cons_append, readFrom, if_neg (by simp [hg]), he, Option.bind_some,
    readFrom_bare_append h.2]
  rfl

/-- Words without quotes, with spaces between them, are read back. -/
theorem readWords_bare {ws : List String} (h : ∀ w ∈ ws, IsBareWord w) :
    readWords (" ".intercalate ws) = some ws := by
  have hl : readFrom .gap (List.intercalate [' '] (ws.map String.toList)) = some ws := by
    induction ws with
    | nil => rfl
    | cons w ws ih =>
      rw [List.forall_mem_cons] at h
      have hw := readFrom_gap_append (mt String.toList_eq_nil_iff.1 h.1.1) h.1.2
      cases ws with
      | nil => simpa [readFrom] using hw []
      | cons v vs =>
        have ih := ih h.2
        simp only [List.map_cons, List.intercalate_cons_cons] at ih ⊢
        rw [List.append_assoc, hw, List.singleton_append, readFrom_bare_space, ih, Option.map_some,
          String.ofList_toList]
  simpa [readWords, String.toList_intercalate] using hl

theorem isBare_of_isDigit {c : Char} (h : c.isDigit = true) : isBare c = true := by
  have hc (ds : List Char) (hd : ds.any Char.isDigit = false) : ds.contains c = false := by
    rw [← Bool.not_eq_true, List.contains_iff_mem]
    exact fun hm => absurd h (List.any_eq_false.1 hd c hm)
  have hg : isGap c = false := hc _ (by decide)
  have ha : isActive c = false := hc _ (by decide)
  have hq : ¬c = '\'' ∧ ¬c = '"' := by simpa using hc ['\'', '"'] (by decide)
  simp [isBare, hg, ha, hq]

theorem isBareWord_ofList {s : List Char} (h : (!s.isEmpty && s.all isBare) = true) :
    IsBareWord (String.ofList s) := by
  simpa [IsBareWord] using h

theorem isBareWord_toString (n : Nat) : IsBareWord (toString n) := by
  obtain ⟨d, hh, _⟩ := Text.exists_head?_toString n
  exact ⟨fun he => by simp [he] at hh, fun c hc => isBare_of_isDigit (Text.isDigit_of_mem_toString hc)⟩

theorem toList_intercalate_quote (ws : List String) :
    (" ".intercalate (ws.map quote)).toList =
      List.intercalate [' '] (ws.map fun w => quoteChars w.toList) := by
  simp [String.toList_intercalate, Function.comp_def, toList_quote]

/-- Escaping the words of a list once more is escaping the list of quoted words as one text,
for a space is not escaped. -/
theorem embedded_eq_quote (ws : List String) :
    "'" ++ " ".intercalate (ws.map embed) ++ "'" = quote (" ".intercalate (ws.map quote)) := by
  have h : List.intercalate [' '] (ws.map fun w => embedChars w.toList) =
      (List.intercalate [' '] (ws.map fun w => quoteChars w.toList)).flatMap quoteChar := by
    induction ws with
    | nil => rfl
    | cons w ws ih =>
      cases ws with
      | nil => simp [embedChars]
      | cons v vs =>
        simp only [List.map_cons, List.intercalate_cons_cons, List.flatMap_append] at ih ⊢
        rw [ih]
        rfl
  apply String.toList_inj.1
  rw [toList_quote, toList_intercalate_quote, quoteChars, ← h]
  simp [String.toList_intercalate, Function.comp_def, embed]

/-- A command line of quoted words is read as these words. -/
theorem readWords_quoted (argv : List String) :
    readWords (" ".intercalate (argv.map quote)) = some argv := by
  rw [readWords, toList_intercalate_quote]
  exact readFrom_quoted argv

example : readWords (quote "it's" ++ " " ++ quote "") = some ["it's", ""] := by decide

/-- A quoted list of words is read as one word, the command line of the quoted words, and
that word is read as the list. -/
theorem readWords_embedded (ws : List String) :
    readWords ("'" ++ " ".intercalate (ws.map embed) ++ "'") =
        some [" ".intercalate (ws.map quote)] ∧
      readWords (" ".intercalate (ws.map quote)) = some ws := by
  constructor
  · have h := readFrom_quoted [" ".intercalate (ws.map quote)]
    rw [embedded_eq_quote, readWords, toList_quote]
    simpa using h
  · rw [readWords, toList_intercalate_quote]
    exact readFrom_quoted ws

end ShellCompletion.Shell
