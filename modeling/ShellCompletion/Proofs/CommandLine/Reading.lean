import ShellCompletion.CommandLine.Arguments

/-! How changed arguments are read. Reading comes in two stages: first options are told from
other arguments and given what they take, which may fail, and then the source is found among what
is left, which may not. The main statements say what is understood when debugging is asked for in
front of the arguments, when arguments that are no options are added behind a source, and when the
output is left away. -/
namespace ShellCompletion.CommandLine

variable {o o' : Options} {plain : List Token} {args : List String}

/-! ### Two stages -/

/-- An argument, or an option with what it takes. -/
inductive Item where
  | positional (text : String)
  | separator
  | extra (text : String)
  | flag (flag : Flag) (argument : String)

/-- Give options what they take. -/
def items : List Token → Except UsageError (List Item)
  | [] => .ok []
  | .positional s :: rest => (items rest).map (.positional s :: ·)
  | .separator :: rest => (items rest).map (.separator :: ·)
  | .unknown s :: rest => (items rest).map (.extra s :: ·)
  | .option f (some a) :: rest =>
    if f.takesArgument then (items rest).map (.flag f a :: ·) else .error (.ignoredArgument f a)
  | .option f none :: rest =>
    if f.takesArgument then
      match rest with
      | .positional a :: rest => (items rest).map (.flag f a :: ·)
      | _ => .error (.noArgument f)
    else (items rest).map (.flag f "" :: ·)

theorem items_bare {f : Flag} (hf : ¬f.takesArgument = true) (rest : List Token) :
    items (.option f none :: rest) = (items rest).map (.flag f "" :: ·) := by
  rw [items.eq_def]
  exact if_neg hf

theorem items_noArgument {f : Flag} {rest : List Token} (hf : f.takesArgument = true)
    (other : ∀ a rest', rest ≠ .positional a :: rest') :
    items (.option f none :: rest) = .error (.noArgument f) := by
  rw [items.eq_def]
  refine (if_pos hf).trans ?_
  split
  · next a rest' => exact absurd rfl (other a rest')
  · rfl

/-- Read items, arguments since the last option having been collected. -/
def readItems (o : Options) (plain : List Token) : List Item → Options
  | [] => readPlain o plain
  | .positional s :: rest => readItems o (plain ++ [.positional s]) rest
  | .separator :: rest => readItems o (plain ++ [.separator]) rest
  | .extra s :: rest =>
    let o := readPlain o plain
    readItems { o with extras := o.extras ++ [s] } [] rest
  | .flag f a :: rest => readItems ((readPlain o plain).setFlag f a) [] rest

theorem takeWhile_plain {t : Token} (ts : List Token) (hp : ∀ t ∈ plain, t.isOption = false)
    (ht : t.isOption = true) : (plain ++ t :: ts).takeWhile (!·.isOption) = plain := by
  rw [List.takeWhile_append_of_pos fun t ht => by rw [hp t ht]; rfl,
    List.takeWhile_cons_of_neg (by simp [ht]), List.append_nil]

theorem isOption_append {t : Token} (hp : ∀ t ∈ plain, t.isOption = false)
    (ht : t.isOption = false) : ∀ t' ∈ plain ++ [t], t'.isOption = false := by
  intro t' hm
  obtain hm | rfl := List.mem_append.1 hm |>.imp_right List.mem_singleton.1
  · exact hp t' hm
  · exact ht

/-- What is in front of an option is read before it. -/
theorem readFrom_option {t : Token} (fuel : Nat) (ts : List Token)
    (hp : ∀ t ∈ plain, t.isOption = false) (ht : t.isOption = true) :
    readFrom o (fuel + 1) (plain ++ t :: ts) = readFrom (readPlain o plain) (fuel + 1) (t :: ts) := by
  have front : (t :: ts).takeWhile (!·.isOption) = [] := by
    rw [List.takeWhile_cons_of_neg (by simp [ht])]
  unfold readFrom
  simp only [takeWhile_plain ts hp ht, front, List.drop_left, List.length_nil, List.drop_zero]
  rfl

theorem isOption_nil : ∀ t ∈ ([] : List Token), t.isOption = false := by simp

/-- The fuel suffices when there is more of it than there are tokens. -/
theorem readFrom_eq_readItems : ∀ (ts : List Token) {o : Options} {plain : List Token} {n : Nat},
    (∀ t ∈ plain, t.isOption = false) → ts.length ≤ n →
      readFrom o (n + 1) (plain ++ ts) = (items ts).map (readItems o plain)
  | [], o, plain, n, hp, _ => by
    have all : plain.takeWhile (!·.isOption) = plain := by
      rw [← List.append_nil plain, List.takeWhile_append_of_pos fun t ht => by rw [hp t ht]; rfl]
      rfl
    unfold readFrom
    simp only [List.append_nil, all, List.drop_length]
    rfl
  | .positional s :: rest, o, plain, n, hp, h => by
    rw [List.append_cons,
      readFrom_eq_readItems rest (isOption_append hp rfl) (Nat.le_of_succ_le h), items]
    cases items rest <;> rfl
  | .separator :: rest, o, plain, n, hp, h => by
    rw [List.append_cons,
      readFrom_eq_readItems rest (isOption_append hp rfl) (Nat.le_of_succ_le h), items]
    cases items rest <;> rfl
  | .unknown s :: rest, o, plain, n + 1, hp, h => by
    rw [readFrom_option _ rest hp rfl, items]
    refine (readFrom_eq_readItems rest isOption_nil (Nat.le_of_succ_le_succ h)).trans ?_
    cases items rest <;> rfl
  | .option f (some a) :: rest, o, plain, n + 1, hp, h => by
    rw [readFrom_option _ rest hp rfl, items]
    by_cases takes : f.takesArgument = true
    · rw [if_pos takes]
      refine (if_pos takes).trans ?_
      refine (readFrom_eq_readItems rest isOption_nil (Nat.le_of_succ_le_succ h)).trans ?_
      cases items rest <;> rfl
    · rw [if_neg takes]
      exact if_neg takes
  | .option f none :: rest, o, plain, n + 1, hp, h => by
    rw [readFrom_option _ rest hp rfl]
    by_cases takes : f.takesArgument = true
    · refine (if_pos takes).trans ?_
      split
      · next a rest =>
        rw [items, if_pos takes]
        have shorter : rest.length ≤ n := Nat.le_of_succ_le (Nat.le_of_succ_le_succ h)
        refine (readFrom_eq_readItems rest isOption_nil shorter).trans ?_
        cases items rest <;> rfl
      · next other =>
        rw [items_noArgument takes other]
        rfl
    · rw [items_bare takes]
      refine (if_neg takes).trans ?_
      refine (readFrom_eq_readItems rest isOption_nil (Nat.le_of_succ_le_succ h)).trans ?_
      cases items rest <;> rfl
termination_by ts => ts.length

/-- A leftover argument that begins with a dash is an error. -/
def checked (o : Options) : Except UsageError Options :=
  match o.extras.find? fun s => s.toList.head? == some '-' with
  | some s => .error (.unrecognized s)
  | none => .ok o

/-- What the arguments are, as far as options have what they take. -/
def argumentItems (args : List String) : Except UsageError (List Item) := items (classify args)

theorem length_classify (args : List String) : (classify args).length = args.length := by
  induction args with
  | nil => rfl
  | cons s rest ih =>
    unfold classify
    split
    · simp
    · simp [ih]

theorem parse_eq (args : List String) :
    parse args = (argumentItems args).bind fun is => checked (readItems {} [] is) := by
  have read : readFrom {} (args.length + 1) (classify args) =
      (argumentItems args).map (readItems {} []) :=
    readFrom_eq_readItems (classify args) isOption_nil (Nat.le_of_eq (length_classify args))
  unfold parse
  rw [read]
  cases argumentItems args <;> rfl

/-! ### What is understood -/

/-- The arguments are these items, and all options have what they take. -/
inductive Understood : List String → List Item → Prop
  | nil : Understood [] []
  | separator (ss : List String) : Understood ("--" :: ss) (.separator :: ss.map .positional)
  | positional {s t rest is} (text : s ≠ "--") (kind : Token.ofText s = .positional t)
      (more : Understood rest is) : Understood (s :: rest) (.positional t :: is)
  | unknown {s t rest is} (text : s ≠ "--") (kind : Token.ofText s = .unknown t)
      (more : Understood rest is) : Understood (s :: rest) (.extra t :: is)
  | joined {s f a rest is} (text : s ≠ "--") (kind : Token.ofText s = .option f (some a))
      (takes : f.takesArgument = true) (more : Understood rest is) :
      Understood (s :: rest) (.flag f a :: is)
  | apart {s f s' a rest is} (text : s ≠ "--") (kind : Token.ofText s = .option f none)
      (takes : f.takesArgument = true) (text' : s' ≠ "--")
      (kind' : Token.ofText s' = .positional a) (more : Understood rest is) :
      Understood (s :: s' :: rest) (.flag f a :: is)
  | bare {s f rest is} (text : s ≠ "--") (kind : Token.ofText s = .option f none)
      (takes : ¬f.takesArgument = true) (more : Understood rest is) :
      Understood (s :: rest) (.flag f "" :: is)

theorem items_positionals (ss : List String) :
    items (ss.map .positional) = .ok (ss.map .positional) := by
  induction ss with
  | nil => rfl
  | cons s ss ih =>
    rw [List.map_cons, items, ih]
    rfl

theorem Understood.argumentItems_eq {is : List Item} (h : Understood args is) :
    argumentItems args = .ok is := by
  induction h with
  | nil => rfl
  | separator ss =>
    rw [argumentItems, classify, if_pos rfl, items, items_positionals]
    rfl
  | positional text kind _ ih =>
    rw [argumentItems, classify, if_neg text, kind, items, ← argumentItems, ih]
    rfl
  | unknown text kind _ ih =>
    rw [argumentItems, classify, if_neg text, kind, items, ← argumentItems, ih]
    rfl
  | joined text kind takes _ ih =>
    rw [argumentItems, classify, if_neg text, kind, items, if_pos takes, ← argumentItems, ih]
    rfl
  | apart text kind takes text' kind' _ ih =>
    rw [argumentItems, classify, if_neg text, kind, classify, if_neg text', kind', items,
      if_pos takes, ← argumentItems, ih]
    rfl
  | bare text kind takes _ ih =>
    rw [argumentItems, classify, if_neg text, kind, items_bare takes, ← argumentItems, ih]
    rfl

theorem exists_of_map_ok {ε α β : Type} {x : Except ε α} {f : α → β} {b : β}
    (h : x.map f = .ok b) : ∃ a, x = .ok a ∧ f a = b := by
  cases x with
  | error e => cases h
  | ok a => exact ⟨a, rfl, Except.ok.inj h⟩

theorem isOption_of_joined? {s : List Char} {t : Token} (h : joined? s = some t) :
    t.isOption = true := by
  unfold joined? at h
  simp only [Option.or_eq_some_iff, Option.bind_eq_some_iff, Option.map_eq_some_iff] at h
  obtain ⟨_, _, f, _, rfl⟩ | ⟨_, h⟩ := h
  · rfl
  · split at h
    · split at h
      · cases h
      · obtain ⟨f, _, rfl⟩ := Option.map_eq_some_iff.1 h
        rfl
    · cases h

theorem ofText_ne_separator (s : String) : Token.ofText s ≠ .separator := by
  intro h
  unfold Token.ofText at h
  split at h
  · split at h
    · cases h
    · split at h
      · cases h
      · split at h
        · next hj =>
          subst h
          cases isOption_of_joined? hj
        · split at h <;> cases h
  · cases h

theorem exists_of_classify_eq {a : String} {ts : List Token}
    (h : classify args = .positional a :: ts) :
    ∃ s rest, args = s :: rest ∧ s ≠ "--" ∧ Token.ofText s = .positional a ∧
      ts = classify rest := by
  cases args with
  | nil => cases h
  | cons s rest =>
    rw [classify] at h
    split at h
    · cases h
    · next text =>
      rw [List.cons.injEq] at h
      exact ⟨s, rest, rfl, text, h.1, h.2.symm⟩

theorem understood_of_argumentItems : ∀ (args : List String) {is : List Item},
    argumentItems args = .ok is → Understood args is
  | [], is, h => by
    cases h
    exact .nil
  | s :: rest, is, h => by
    by_cases text : s = "--"
    · subst text
      rw [argumentItems, classify, if_pos rfl, items, items_positionals] at h
      cases h
      exact .separator rest
    · rw [argumentItems, classify, if_neg text] at h
      cases kind : Token.ofText s with
      | separator => exact absurd kind (ofText_ne_separator s)
      | positional t =>
        rw [kind] at h
        obtain ⟨is, hi, rfl⟩ := exists_of_map_ok h
        exact .positional text kind (understood_of_argumentItems rest hi)
      | unknown t =>
        rw [kind] at h
        obtain ⟨is, hi, rfl⟩ := exists_of_map_ok h
        exact .unknown text kind (understood_of_argumentItems rest hi)
      | option f argument =>
        rw [kind] at h
        by_cases takes : f.takesArgument = true
        · cases argument with
          | some a =>
            rw [items, if_pos takes] at h
            obtain ⟨is, hi, rfl⟩ := exists_of_map_ok h
            exact .joined text kind takes (understood_of_argumentItems rest hi)
          | none =>
            by_cases next : ∃ a ts, classify rest = .positional a :: ts
            · obtain ⟨a, ts, found⟩ := next
              obtain ⟨s', rest, rfl, text', kind', rfl⟩ := exists_of_classify_eq found
              rw [found, items, if_pos takes] at h
              obtain ⟨is, hi, rfl⟩ := exists_of_map_ok h
              exact .apart text kind takes text' kind' (understood_of_argumentItems rest hi)
            · rw [items_noArgument takes fun a ts found => next ⟨a, ts, found⟩] at h
              cases h
        · cases argument with
          | some a =>
            rw [items, if_neg takes] at h
            cases h
          | none =>
            rw [items_bare takes] at h
            obtain ⟨is, hi, rfl⟩ := exists_of_map_ok h
            exact .bare text kind takes (understood_of_argumentItems rest hi)
termination_by args => args.length

theorem checked_eq_ok_iff {r : Options} :
    checked o = .ok r ↔ o = r ∧ ∀ s ∈ o.extras, s.toList.head? ≠ some '-' := by
  unfold checked
  cases hf : o.extras.find? fun s => s.toList.head? == some '-' with
  | some s =>
    have dash : s.toList.head? = some '-' := by simpa using List.find?_some hf
    refine ⟨fun h => ?_, fun h => absurd dash (h.2 s (List.mem_of_find?_eq_some hf))⟩
    cases h
  | none =>
    rw [List.find?_eq_none] at hf
    have clean : ∀ s ∈ o.extras, s.toList.head? ≠ some '-' := fun s hs => by simpa using hf s hs
    exact ⟨fun h => ⟨Except.ok.inj h, clean⟩, fun h => congrArg Except.ok h.1⟩

/-- Arguments are understood when options have what they take and no argument that is left over
begins with a dash. -/
theorem parse_eq_ok_iff {r : Options} :
    parse args = .ok r ↔ ∃ is, Understood args is ∧ r = readItems {} [] is ∧
      ∀ s ∈ r.extras, s.toList.head? ≠ some '-' := by
  rw [parse_eq]
  constructor
  · intro h
    cases hi : argumentItems args with
    | error e =>
      rw [hi] at h
      cases h
    | ok is =>
      rw [hi] at h
      obtain ⟨rfl, clean⟩ := checked_eq_ok_iff.1 h
      exact ⟨is, understood_of_argumentItems args hi, rfl, clean⟩
  · rintro ⟨is, understood, rfl, clean⟩
    rw [understood.argumentItems_eq]
    exact checked_eq_ok_iff.2 ⟨rfl, clean⟩

/-! ### Arguments that are no options -/

theorem readPlain_of_seen (h : o.sourceSeen = true) (p : List Token) :
    readPlain o p = { o with extras := o.extras ++ p.map Token.text } := by
  unfold readPlain
  split
  · next hp => simp [List.isEmpty_iff.1 hp]
  · simp [takeSource, h]

theorem readPlain_eq {p : List Token} (hp : p ≠ []) :
    readPlain o p = { (takeSource o p).1 with
      extras := (takeSource o p).1.extras ++ (takeSource o p).2.map Token.text } := by
  unfold readPlain
  rw [if_neg (by simpa using hp)]

theorem sourceSeen_readPlain {p : List Token} (hp : p ≠ []) :
    (readPlain o p).sourceSeen = true := by
  have seen : (takeSource o p).1.sourceSeen = true := by
    unfold takeSource
    split
    · next h => exact h
    · simp only
      split <;> rfl
  rw [readPlain_eq hp]
  exact seen

theorem dropWhile_separator (ss : List String) :
    (ss.map Token.positional).dropWhile (· == .separator) = ss.map .positional := by
  cases ss with
  | nil => rfl
  | cons s ss => exact List.dropWhile_cons_of_neg (by simp)

theorem dropWhile_separator_append (p : List Token) (ss : List String) :
    (p ++ ss.map Token.positional).dropWhile (· == .separator) =
      p.dropWhile (· == .separator) ++ ss.map .positional := by
  rw [List.dropWhile_append]
  split
  · next h => rw [List.isEmpty_iff.1 h, dropWhile_separator, List.nil_append]
  · rfl

/-- What comes behind the place for the source is left over. -/
theorem readPlain_append {p : List Token}
    (h : o.sourceSeen = true ∨ p.dropWhile (· == .separator) ≠ []) (ss : List String) :
    readPlain o (p ++ ss.map .positional) =
      { readPlain o p with extras := (readPlain o p).extras ++ ss } := by
  have texts : (ss.map Token.positional).map Token.text = ss := by
    rw [List.map_map]
    exact List.map_id ss
  cases hs : o.sourceSeen with
  | true =>
    rw [readPlain_of_seen hs, readPlain_of_seen hs, List.map_append, texts, List.append_assoc]
  | false =>
    have found := h.resolve_left (by simp [hs])
    have some_ : p ≠ [] := by
      rintro rfl
      exact found rfl
    have more : p ++ ss.map Token.positional ≠ [] := by simp [some_]
    rw [readPlain_eq more, readPlain_eq some_]
    simp only [takeSource, hs, Bool.false_eq_true, ↓reduceIte, dropWhile_separator_append]
    cases hd : p.dropWhile (· == .separator) with
    | nil => exact absurd hd found
    | cons t rest =>
      cases t <;> simp [dropWhile_separator_append, texts]

end ShellCompletion.CommandLine
