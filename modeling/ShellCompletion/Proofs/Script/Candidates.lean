import ShellCompletion.Proofs.Script.Legible

/-! The section of a script that finds the candidates tells what is offered: the flags, for
each option with a value its flags and the source, and for each slot the source. Flags are read
off quoted alternatives of a pattern, sources off the program text and the quoted words that
take candidates from them. Modes that a plan lacks show by the names of those that it has. -/
namespace ShellCompletion.Script

open Shell Text

variable {α κ γ : Type}

/-! ### Sources and patterns -/

/-- The words of a command before what is done with its output. -/
theorem tells_argv : Tells (fun argv : List String =>
    argv.flatMap (fun a => quoteChars a.toList ++ [' ']) ++ "2>/dev/null)\n".toList) id := by
  have ha : Apart (fun a : String => quoteChars a.toList ++ [' '])
      fun _ : List String => "2>/dev/null)\n".toList := by
    intro a _ r s
    simp [quoteChars]
  have h := (tells_quoteChars (c := ' ') (by decide)).flatMap_append (Tells.const _) ha id
  exact h.congr fun x y => by simp

/-- The lines for a command with at least one word tell the words. -/
theorem legible_command : Legible (fun z : String × List String =>
    sourceLines (some (.command (z.1 :: z.2))) ++ [.plain ";;"]) fun z => z.1 :: z.2 := by
  have hw : Legible (fun argv : List String => [⟨0, .code "mapfile -t lines < <(" ::
      (argv.flatMap fun a => [.word a, .code " "]) ++ [.code "2>/dev/null)"]⟩]) id := by
    refine .line (by simp) ?_
    have h := tells_argv.const_append "mapfile -t lines < <(".toList
    simpa [List.flatMap_assoc] using h
  exact ((hw.append_const _).append_const _).comp fun z : String × List String => z.1 :: z.2

/-- The lines for a source tell the source. -/
theorem legible_source : Legible (fun c => sourceLines (some c) ++ [.plain ";;"]) id := by
  intro n c d r s
  match c, d with
  | .builtin j, .builtin k =>
    cases j <;> cases k <;> simp [sourceLines, Line.shown_mk, Line.plain]
  | .command (a :: as), .command (b :: bs) => simpa using legible_command n (a, as) (b, bs) r s
  | .command [], .command [] => simp
  | .command [], .command (b :: bs) => simp [sourceLines, Line.shown_mk, Line.plain]
  | .command (a :: as), .command [] => simp [sourceLines, Line.shown_mk, Line.plain]
  | .builtin j, .command [] => simp [sourceLines, Line.shown_mk, Line.plain]
  | .command [], .builtin k => simp [sourceLines, Line.shown_mk, Line.plain]
  -- the first word of a command is in quotes, the word of the shell is not
  | .builtin j, .command (b :: bs) =>
    simp [sourceLines, Line.shown_mk, Line.plain, quoteChars]
  | .command (a :: as), .builtin k =>
    simp [sourceLines, Line.shown_mk, Line.plain, quoteChars]

theorem opens_source :
    Opens (fun c => sourceLines (some c) ++ [.plain ";;"]) [['m'], [';']] := by
  intro n c
  match c with
  | .builtin j => exact ⟨['m'], by simp, by simp [sourceLines, Line.shown_mk, Line.plain, margin]⟩
  | .command [] => exact ⟨[';'], by simp, by simp [sourceLines, Line.shown_mk, Line.plain, margin]⟩
  | .command (a :: as) =>
    exact ⟨['m'], by simp, by simp [sourceLines, Line.shown_mk, Line.plain, margin]⟩

/-- Quoted flags as alternatives tell the flags: after each stands a space or the bracket. -/
theorem legible_alternatives : LegiblePattern alternatives fun es => es.map (·.literal) := by
  intro es ds r s
  induction es generalizing ds with
  | nil => rcases ds with _ | ⟨d, _ | ⟨d', ds⟩⟩ <;> simp [alternatives, quoteChars]
  | cons e es ih =>
    rcases ds with _ | ⟨d, ds⟩
    · cases es <;> simp [alternatives, quoteChars]
    rcases es with _ | ⟨e', es⟩ <;> rcases ds with _ | ⟨d', ds⟩
    · simp [alternatives, quoteChars_append_cons, String.toList_inj]
    · simp [alternatives, quoteChars_append_cons]
    · simp [alternatives, quoteChars_append_cons]
    · have h : e.literal = d.literal ∧ _ ↔ e.literal = d.literal ∧ _ :=
        and_congr_right fun _ => ih (d' :: ds)
      simpa [alternatives, quoteChars_append_cons, String.toList_inj, and_assoc] using h

theorem legible_slotPattern : LegiblePattern slotPattern id := by
  have hn (key : Option Nat) : ')' ∉ (key.elim "all" toString).toList := by
    cases key with
    | none => decide
    | some n => exact not_mem_toString (by decide) n
  refine Tells.congr (k := fun key : Option Nat => (key.elim "all" toString).toList) ?_ fun k l => ?_
  · have h := (Tells.upTo hn).append_const ['\n']
    simpa [slotPattern] using h
  · rw [String.toList_inj]
    have ha : ∀ n, toString n ≠ "all" := toString_ne (c := 'a') (by decide) (by decide)
    refine ⟨fun h => ?_, fun h => congrArg (Option.elim · "all" toString) h⟩
    match k, l with
    | none, none => rfl
    | none, some n => exact absurd h.symm (ha n)
    | some n, none => exact absurd h (ha n)
    | some m, some n => exact congrArg some (toString_injective h)

/-- What is offered tells its key, the words of its note and the source. -/
theorem legible_offer {pattern : κ → List Piece} {k : κ → α} (h : LegiblePattern pattern k) :
    Legible (fun o : Offer κ => (o.branch pattern).lines) fun o =>
      ((k o.key, o.source), remark? o.note) :=
  (legible_branchLines (h.comp Offer.key) (legible_source.comp Offer.source)
    (opens_source.comp Offer.source) (by decide)).congr fun o o' => by simp; tauto

/-- Lists of pairs are equal when the lists of their parts are. -/
theorem map_pair_inj {μ : Type} {f : α → κ} {g : α → μ} {xs ys : List α} :
    xs.map (fun x => (f x, g x)) = ys.map (fun x => (f x, g x)) ↔
      xs.map f = ys.map f ∧ xs.map g = ys.map g := by
  induction xs generalizing ys with
  | nil => cases ys <;> simp
  | cons x xs ih =>
    cases ys with
    | nil => simp
    | cons y ys =>
      simp only [List.map_cons, List.cons.injEq, Prod.mk.injEq, ih]
      tauto

theorem legible_offers (subject : String) {pattern : κ → List Piece} {k : κ → α}
    (h : LegiblePattern pattern k) (os : γ → List (Offer κ)) :
    Legible (fun p => caseLines subject ((os p).map (Offer.branch pattern))) fun p =>
      ((os p).map (fun o => (k o.key, o.source)), (os p).map fun o => remark? o.note) :=
  (legible_caseLines subject (legible_offer h) os).congr fun p q => by
    rw [Prod.mk.injEq]
    exact map_pair_inj

/-! ### Candidates -/

theorem legible_wordListLine : Legible (fun ss => [⟨0, [.code "mapfile -t lines < <(compgen -W ",
    .wordList ss, .code " -- \"$cur\")"]⟩]) fun ss => " ".intercalate (ss.map quote) := by
  refine .line (by simp) ?_
  have h := (((tells_quoteChars (c := ' ') (by decide)).append_const
    "-- \"$cur\")\n".toList).const_append "mapfile -t lines < <(compgen -W ".toList).comp
      fun ss : List String => " ".intercalate (ss.map quote)
  simpa [chars_wordList] using h

/-- The branch that offers the flags shows their words as one word. -/
theorem legible_flagBranch : Legible (fun p => (flagBranch p).lines) fun p =>
    " ".intercalate ((p.flags.map (·.literal)).map quote) := by
  have hw := legible_wordListLine.comp fun p : Plan => p.flags.map (·.literal)
  have ho : Opens (fun p => (flagBranch p).body ++ [.plain ";;"]) [['m']] :=
    (Opens.line (by simp) fun _ => by simp [margin]).append _
  have hb : Legible (fun p => (flagBranch p).body ++ [.plain ";;"]) _ :=
    (hw.append_const _).append_const _
  exact (legible_branchLines (Tells.const _) hb ho (by decide)).congr fun p q => by simp

/-- The branch of a mode in which candidates are offered by what a word is. -/
def offerMode (mode subject : String) (pattern : κ → List Piece) (os : List (Offer κ)) : Branch where
  pattern := [.code mode]
  body := caseLines subject (os.map (Offer.branch pattern))

theorem legible_offerMode (mode subject : String) {pattern : κ → List Piece} {k : κ → α}
    (h : LegiblePattern pattern k) (os : γ → List (Offer κ)) :
    Legible (fun p => (offerMode mode subject pattern (os p)).lines) fun p =>
      ((os p).map (fun o => (k o.key, o.source)), (os p).map fun o => remark? o.note) := by
  have hb := (legible_offers subject h os).append_const [.plain ";;"]
  have ho := (opens_caseLines subject fun p => (os p).map (Offer.branch pattern)).append
    fun _ => [.plain ";;"]
  exact (legible_branchLines (.const _) hb ho (by decide)).congr fun p q => by simp

def valueMode (p : Plan) : Branch := offerMode "opt_arg" "$prev" alternatives (valueOffers p)

def slotMode (p : Plan) : Branch := offerMode "arg" "$arg_slot" slotPattern (slotOffers p)

theorem candidateLines_eq (p : Plan) : candidateLines p = [.plain "case $mode in"] ++
    ((if p.hasFlags then indent 1 ((flagBranch p).lines ++ (valueMode p).lines) else []) ++
    ((if !p.interface.slots.isEmpty then indent 1 (slotMode p).lines else []) ++
      [.plain "esac"])) := by
  rw [candidateLines, caseLines, modeBranches, valueBranches_eq, slotBranches_eq_map, valueMode,
    slotMode, offerMode, offerMode]
  cases p.hasFlags <;> cases p.interface.slots.isEmpty <;> simp [indent]

/-- Finding the candidates tells whether there are flags and slots, the flags as words, and
what is offered. -/
theorem legible_candidateLines : Legible (fun i => candidateLines (.ofInterface i)) fun i =>
    let p := Plan.ofInterface i
    (p.hasFlags, (" ".intercalate ((p.flags.map (·.literal)).map quote), (behaviour i).values,
        (remarks i).values), !i.slots.isEmpty, (behaviour i).arguments, (remarks i).arguments) := by
  have he : Opens (fun _ : Interface => [.plain "esac"]) [['e']] := opens_plain (by simp)
  have ha := ((opens_branchLines slotMode (u := ['a']) fun p => by
    simp [slotMode, offerMode]).indent 1).comp Plan.ofInterface
  have ho := (((opens_branchLines flagBranch (u := ['o']) fun p => by simp [flagBranch]).append
    fun p => (valueMode p).lines).indent 1).comp Plan.ofInterface
  have hv := legible_offerMode "opt_arg" "$prev" legible_alternatives valueOffers
  have hs := legible_offerMode "arg" "$arg_slot" legible_slotPattern slotOffers
  have h := ((hs.indent 1).comp Plan.ofInterface).optional_append
    (.const [.plain "esac"]) (ha.apart he (by decide)) (b := fun i => !i.slots.isEmpty)
    fun i j hi hj => by
      -- without slots no argument is completed
      simp only [Bool.not_eq_false', List.isEmpty_iff] at hi hj
      rw [slotOffers_eq_nil hi, slotOffers_eq_nil hj]
  have h := (((legible_flagBranch.append hv).indent 1).comp Plan.ofInterface).optional_append h
    (ho.apart (ha.optional_append he _) (by decide)) (b := fun i => (Plan.ofInterface i).hasFlags)
    fun i j hi hj => by
      -- without flags there are no words to offer and no values
      rw [flags_eq_nil hi, flags_eq_nil hj, valueOffers_eq_nil hi, valueOffers_eq_nil hj]
  refine ((h.const_append [.plain "case $mode in"]).congr fun i j => ?_).of_eq fun i =>
    candidateLines_eq _
  simp [behaviour, remarks]

end ShellCompletion.Script
