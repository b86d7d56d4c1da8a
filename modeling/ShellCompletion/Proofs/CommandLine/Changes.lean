import ShellCompletion.Proofs.CommandLine.Reading

/-! Changes of the arguments that are seen in one place of what is understood: debugging asked for
in front of them, arguments added behind them that are no options, and options for the output left
away. -/
namespace ShellCompletion.CommandLine

variable {o o' r : Options} {plain : List Token} {args : List String}

/-- Reading arguments that are no options has nothing to do with the output and with debugging. -/
theorem readPlain_with (o : Options) (output : String) (debug : Bool) (p : List Token) :
    readPlain { o with output, debug } p = { readPlain o p with output, debug } := by
  unfold readPlain takeSource
  split
  · rfl
  · simp only
    split
    · rfl
    · split <;> rfl

theorem readPlain_kept (o : Options) (p : List Token) :
    { readPlain o p with output := o.output, debug := o.debug } = readPlain o p :=
  (readPlain_with o o.output o.debug p).symm

/-! ### Debugging -/

def Options.debugging (o : Options) : Options := { o with debug := true }

theorem readPlain_debugging (o : Options) (p : List Token) :
    readPlain o.debugging p = (readPlain o p).debugging :=
  (readPlain_with o o.output true p).trans (congrArg Options.debugging (readPlain_kept o p))

theorem setFlag_debugging (o : Options) (f : Flag) (a : String) :
    o.debugging.setFlag f a = (o.setFlag f a).debugging := by
  cases f <;> rfl

theorem readItems_debugging (o : Options) (plain : List Token) (is : List Item) :
    readItems o.debugging plain is = (readItems o plain is).debugging := by
  induction is generalizing o plain with
  | nil => exact readPlain_debugging o plain
  | cons i is ih =>
    cases i with
    | positional s => exact ih o _
    | separator => exact ih o _
    | extra s =>
      simp only [readItems, readPlain_debugging]
      exact ih { readPlain o plain with extras := (readPlain o plain).extras ++ [s] } []
    | flag f a =>
      rw [readItems, readPlain_debugging, setFlag_debugging, ih, readItems]

/-- Asking for debugging in front of the arguments is asking for nothing else. -/
theorem parse_cons_debug (args : List String) :
    parse ("--debug" :: args) = (parse args).map Options.debugging := by
  have front : argumentItems ("--debug" :: args) =
      (argumentItems args).map (.flag .debug "" :: ·) := by
    have flag : Token.ofText "--debug" = .option .debug none := by decide
    rw [argumentItems, classify, if_neg (by decide), flag, items_bare (by decide), argumentItems]
  rw [parse_eq, parse_eq, front]
  cases argumentItems args with
  | error e => rfl
  | ok is =>
    have read : readItems {} [] (.flag .debug "" :: is) = (readItems {} [] is).debugging :=
      readItems_debugging {} [] is
    simp only [Except.map, Except.bind, read]
    unfold checked Options.debugging
    simp only
    split <;> rfl

/-! ### More arguments -/

/-- The source has its place, if there is one. -/
def Options.Placed (o : Options) : Prop := o.source.isSome = true → o.sourceSeen = true

theorem placed_readPlain (h : o.Placed) (p : List Token) : (readPlain o p).Placed := by
  by_cases hp : p = []
  · subst hp
    exact h
  · exact fun _ => sourceSeen_readPlain hp

theorem placed_setFlag (h : o.Placed) (f : Flag) (a : String) : (o.setFlag f a).Placed := by
  cases f <;> exact h

/-- Where there is a source, it has been found before or is found now. -/
theorem source_found (h : o.Placed) {p : List Token} (hs : (readPlain o p).source.isSome = true) :
    o.sourceSeen = true ∨ p.dropWhile (· == .separator) ≠ [] := by
  cases unseen : o.sourceSeen with
  | true => exact .inl rfl
  | false =>
    right
    intro none
    have same : (readPlain o p).source = o.source := by
      by_cases hp : p = []
      · subst hp
        rfl
      · rw [readPlain_eq hp]
        simp [takeSource, unseen, none]
    have seen := h (same ▸ hs)
    rw [unseen] at seen
    cases seen

theorem readItems_positionals (o : Options) (plain : List Token) (ss : List String) :
    readItems o plain (ss.map .positional) = readPlain o (plain ++ ss.map .positional) := by
  induction ss generalizing plain with
  | nil => rw [List.map_nil, List.map_nil, List.append_nil, readItems]
  | cons s ss ih => rw [List.map_cons, readItems, ih, List.map_cons, ← List.append_cons]

theorem readItems_append (h : o.Placed) {is : List Item}
    (hs : (readItems o plain is).source.isSome = true) (ss : List String) :
    readItems o plain (is ++ ss.map .positional) =
      { readItems o plain is with extras := (readItems o plain is).extras ++ ss } := by
  induction is generalizing o plain with
  | nil =>
    rw [List.nil_append, readItems_positionals]
    exact readPlain_append (source_found h hs) ss
  | cons i is ih =>
    cases i with
    | positional s => exact ih h hs
    | separator => exact ih h hs
    | extra s => exact ih (placed_readPlain h plain) hs
    | flag f a => exact ih (placed_setFlag (placed_readPlain h plain) f a) hs

/-- An argument that is no option, wherever it stands. -/
def IsPlain (s : String) : Prop := s ≠ "" ∧ s.toList.head? ≠ some '-'

instance (s : String) : Decidable (IsPlain s) :=
  inferInstanceAs (Decidable (s ≠ "" ∧ s.toList.head? ≠ some '-'))

theorem ofText_plain {s : String} (h : IsPlain s) : Token.ofText s = .positional s := by
  unfold Token.ofText
  split
  · next r hr => exact absurd (by rw [hr]; rfl) h.2
  · rfl

theorem understood_plain {ss : List String} (h : ∀ s ∈ ss, IsPlain s) :
    Understood ss (ss.map .positional) := by
  induction ss with
  | nil => exact .nil
  | cons s ss ih =>
    obtain ⟨hs, hss⟩ := List.forall_mem_cons.1 h
    have text : s ≠ "--" := by
      rintro rfl
      exact hs.2 rfl
    exact .positional text (ofText_plain hs) (ih hss)

theorem Understood.append {is : List Item} (h : Understood args is) {ss : List String}
    (hp : ∀ s ∈ ss, IsPlain s) : Understood (args ++ ss) (is ++ ss.map .positional) := by
  induction h with
  | nil => exact understood_plain hp
  | separator ts =>
    rw [List.cons_append, List.cons_append, ← List.map_append]
    exact .separator (ts ++ ss)
  | positional text kind _ ih => exact .positional text kind ih
  | unknown text kind _ ih => exact .unknown text kind ih
  | joined text kind takes _ ih => exact .joined text kind takes ih
  | apart text kind takes text' kind' _ ih => exact .apart text kind takes text' kind' ih
  | bare text kind takes _ ih => exact .bare text kind takes ih

/-- Arguments behind a source are left over if they are no options. -/
theorem parse_append (h : parse args = .ok r) (hs : r.source.isSome = true) {ss : List String}
    (hp : ∀ s ∈ ss, IsPlain s) :
    parse (args ++ ss) = .ok { r with extras := r.extras ++ ss } := by
  obtain ⟨is, understood, rfl, clean⟩ := parse_eq_ok_iff.1 h
  have placed : ({} : Options).Placed := by simp [Options.Placed]
  refine parse_eq_ok_iff.2 ⟨_, understood.append hp, (readItems_append placed hs ss).symm, ?_⟩
  intro s hm
  exact (List.mem_append.1 hm).elim (clean s) fun hm => (hp s hm).2

/-! ### Options for the output -/

/-- The arguments without the options for the output and what these take. -/
def withoutOutput : List String → List String
  | [] => []
  | s :: rest =>
    if s = "--" then s :: rest
    else
      match Token.ofText s with
      | .option .output (some _) => withoutOutput rest
      | .option .output none =>
        match rest with
        | [] => []
        | _ :: rest => withoutOutput rest
      | _ => s :: withoutOutput rest

theorem withoutOutput_cons {s : String} (text : s ≠ "--") (rest : List String) :
    withoutOutput (s :: rest) =
      match Token.ofText s with
      | .option .output (some _) => withoutOutput rest
      | .option .output none => withoutOutput (rest.drop 1)
      | _ => s :: withoutOutput rest := by
  rw [withoutOutput.eq_def]
  simp only [if_neg text]
  cases rest <;> rfl

def Item.isOutput : Item → Bool
  | .flag .output _ => true
  | _ => false

theorem isOutput_flag {f : Flag} (hf : f ≠ .output) (a : String) :
    (Item.flag f a).isOutput = false := by
  cases f with
  | output => exact absurd rfl hf
  | _ => rfl

theorem filter_separator (ss : List String) :
    (Item.separator :: ss.map .positional).filter (!·.isOutput) =
      .separator :: ss.map .positional := by
  simp [Item.isOutput, List.filter_eq_self]

theorem Understood.withoutOutput {is : List Item} (h : Understood args is) :
    Understood (withoutOutput args) (is.filter (!·.isOutput)) := by
  induction h with
  | nil => exact .nil
  | separator ss =>
    rw [CommandLine.withoutOutput.eq_def, filter_separator]
    exact .separator ss
  | positional text kind _ ih =>
    rw [withoutOutput_cons text, kind]
    exact .positional text kind ih
  | unknown text kind _ ih =>
    rw [withoutOutput_cons text, kind]
    exact .unknown text kind ih
  | @joined s f a rest is text kind takes _ ih =>
    rw [withoutOutput_cons text, kind]
    cases f with
    | output => exact ih
    | shell => exact .joined text kind takes ih
    | debug => cases takes
    | help => cases takes
  | @apart s f s' a rest is text kind takes text' kind' _ ih =>
    rw [withoutOutput_cons text, kind]
    cases f with
    | output => exact ih
    | shell =>
      simp only
      rw [withoutOutput_cons text', kind']
      exact .apart text kind takes text' kind' ih
    | debug => cases takes
    | help => cases takes
  | @bare s f rest is text kind takes _ ih =>
    rw [withoutOutput_cons text, kind]
    cases f with
    | output => exact absurd rfl takes
    | shell => exact absurd rfl takes
    | debug => exact .bare text kind takes ih
    | help => exact .bare text kind takes ih

/-- Behind two dashes there are no options. -/
def Tidy : List Item → Prop
  | [] => True
  | .separator :: rest => ∃ ss : List String, rest = ss.map .positional
  | _ :: rest => Tidy rest

theorem Understood.tidy {is : List Item} (h : Understood args is) : Tidy is := by
  induction h with
  | nil => trivial
  | separator ss => exact ⟨ss, rfl⟩
  | positional _ _ _ ih => exact ih
  | unknown _ _ _ ih => exact ih
  | joined _ _ _ _ ih => exact ih
  | apart _ _ _ _ _ _ ih => exact ih
  | bare _ _ _ _ ih => exact ih

/-- The options when the script goes to the standard output. -/
def Options.printing (o : Options) : Options := { o with output := "" }

theorem readPlain_printing (o : Options) (p : List Token) :
    readPlain o.printing p = (readPlain o p).printing :=
  (readPlain_with o "" o.debug p).trans (congrArg Options.printing (readPlain_kept o p))

theorem setFlag_printing (o : Options) {f : Flag} (hf : f ≠ .output) (a : String) :
    o.printing.setFlag f a = (o.setFlag f a).printing := by
  cases f with
  | output => exact absurd rfl hf
  | _ => rfl

/-- Arguments that are no options can be read in two goes. -/
theorem readPlain_positionals (o : Options) (pre ss : List String) :
    readPlain o ((pre ++ ss).map .positional) =
      readPlain (readPlain o (pre.map .positional)) (ss.map .positional) := by
  cases pre with
  | nil => rfl
  | cons p pre =>
    have found : ((p :: pre).map Token.positional).dropWhile (· == .separator) ≠ [] := by
      rw [dropWhile_separator]
      simp
    have texts : (ss.map Token.positional).map Token.text = ss := by
      rw [List.map_map]
      exact List.map_id ss
    rw [List.map_append, readPlain_append (.inr found),
      readPlain_of_seen (sourceSeen_readPlain (by simp)), texts]

theorem readPlain_joined {pre : List String}
    (joined : readPlain o'.printing (pre.map .positional) = o.printing) (ss : List String) :
    readPlain o'.printing ((pre ++ ss).map .positional) =
      (readPlain o (ss.map .positional)).printing := by
  rw [readPlain_positionals, joined, readPlain_printing]

/-- Behind two dashes that are not left over nothing has been read, so nothing is joined. -/
theorem readPlain_joined_separator {pre : List String}
    (joined : readPlain o'.printing (pre.map .positional) = o.printing) (ss : List String)
    (ts : List Token)
    (clean : ∀ s ∈ (readPlain o (ss.map .positional ++ [.separator] ++ ts)).extras,
      s.toList.head? ≠ some '-') :
    readPlain o'.printing ((pre ++ ss).map .positional ++ [.separator] ++ ts) =
      (readPlain o (ss.map .positional ++ [.separator] ++ ts)).printing := by
  cases pre with
  | nil =>
    have same : o'.printing = o.printing := joined
    rw [List.nil_append, same, readPlain_printing]
  | cons p pre =>
    have seen : o.sourceSeen = true := by
      have found : (readPlain o'.printing ((p :: pre).map .positional)).sourceSeen = true :=
        sourceSeen_readPlain (by simp)
      rwa [joined] at found
    rw [readPlain_of_seen seen] at clean
    exact absurd rfl (clean "--" (by simp [Token.text]))

/-- Leaving the output away joins arguments that an option for it stood between. Nothing is
understood differently, unless two dashes come behind: these would belong to the source then, but
they are left over otherwise, which is an error. -/
theorem readItems_printing (is : List Item) (tidy : Tidy is) (o o' : Options)
    (pre ss : List String) (joined : readPlain o'.printing (pre.map .positional) = o.printing)
    (clean : ∀ s ∈ (readItems o (ss.map .positional) is).extras, s.toList.head? ≠ some '-') :
    readItems o'.printing ((pre ++ ss).map .positional) (is.filter (!·.isOutput)) =
      (readItems o (ss.map .positional) is).printing := by
  induction is generalizing o o' pre ss with
  | nil => exact readPlain_joined joined ss
  | cons i is ih =>
    have flush := readPlain_joined joined ss
    cases i with
    | positional s =>
      have snoc (l : List String) :
          (l ++ [s]).map Token.positional = l.map .positional ++ [.positional s] :=
        List.map_append
      have more := ih tidy o o' pre (ss ++ [s]) joined (by rwa [snoc])
      rw [← List.append_assoc, snoc, snoc] at more
      exact more
    | separator =>
      obtain ⟨more, rfl⟩ := tidy
      rw [filter_separator, readItems, readItems_positionals, readItems, readItems_positionals]
      rw [readItems, readItems_positionals] at clean
      exact readPlain_joined_separator joined ss _ clean
    | extra s =>
      have read := ih tidy
        { readPlain o (ss.map .positional) with
          extras := (readPlain o (ss.map .positional)).extras ++ [s] } _ [] [] rfl clean
      rw [List.filter_cons_of_pos (by rfl), readItems, flush]
      exact read
    | flag f a =>
      by_cases hf : f = .output
      · subst hf
        rw [List.filter_cons_of_neg (by simp [Item.isOutput])]
        have read := ih tidy ((readPlain o (ss.map .positional)).setFlag .output a) o' (pre ++ ss) []
          flush clean
        rwa [List.append_nil] at read
      · have read := ih tidy ((readPlain o (ss.map .positional)).setFlag f a) _ [] [] rfl clean
        rw [List.filter_cons_of_pos (by rw [isOutput_flag hf]; rfl), readItems, flush,
          setFlag_printing _ hf]
        exact read

/-- Without the options for the output the same is understood but for the output. -/
theorem parse_withoutOutput (h : parse args = .ok r) :
    parse (withoutOutput args) = .ok r.printing := by
  obtain ⟨is, understood, rfl, clean⟩ := parse_eq_ok_iff.1 h
  have read := readItems_printing is understood.tidy {} {} [] [] rfl clean
  exact parse_eq_ok_iff.2 ⟨_, understood.withoutOutput, read.symm, clean⟩

end ShellCompletion.CommandLine
