import ShellCompletion.Proofs.Logging.Delivery

/-! What is left of the handlers that were active before the program began to log anew. Handlers
have new numbers each time, a logger with a name holds active handlers only, and a record of it
does not go on to the root once it has been prepared. The main statement says that loggers with a
name lose the old handlers for good and the root never does, and that a record is printed once at
the most and added to no file of an old handler, unless the root has been prepared and the record
can get to it. -/
namespace ShellCompletion.World

open Log Files

variable {w w' : World} {name : String} {e : Entry} {first : Nat}

/-! ### New handlers -/

/-- All active handlers are new: their numbers are not below a number that was free once. -/
structure Recent (first : Nat) (w : World) : Prop where
  free : first ≤ w.handlers.length
  active : ∀ k ∈ w.active, first ≤ k

theorem lasts_recent (first : Nat) : Lasts (Recent first) where
  tells ht hw := by
    refine ⟨?_, fun k hk => ?_⟩
    · rw [ht.length]
      exact hw.free
    · rw [ht.active] at hk
      exact hw.active k hk
  equip name level w hw := by
    rw [equip_eq]
    exact ⟨hw.free, hw.active⟩

/-- Beginning to log anew makes all active handlers new. -/
theorem recent_initLogging (filename : String) (forceDebug : Bool)
    (h : first ≤ w.handlers.length) : Recent first (w.initLogging filename forceDebug).2 := by
  obtain ⟨debug, hr⟩ := renewed_initLogging filename forceDebug w
  exact ⟨Nat.le_trans h hr.length_le, fun k hk => Nat.le_trans h (hr.length_le_of_mem hk)⟩

theorem recent_session (steps : List Step) (h : Recent first w) : Recent first (session steps w) :=
  (lasts_recent first).always
    (fun filename forceDebug _ hw => recent_initLogging filename forceDebug hw.free) steps h

theorem Outlets.lt_length (h : Outlets w) : ∀ k ∈ w.active, k < w.handlers.length := by
  intro k hk
  cases h with
  | none active =>
    rw [active] at hk
    cases hk
  | screen active screen =>
    rw [active, List.mem_singleton] at hk
    subst hk
    exact (List.getElem?_eq_some_iff.1 screen).1
  | both active file _ screen =>
    rw [active, List.mem_cons, List.mem_singleton] at hk
    obtain rfl | rfl := hk
    · exact (List.getElem?_eq_some_iff.1 file).1
    · exact (List.getElem?_eq_some_iff.1 screen).1

/-! ### Told once -/

/-- A record has been printed once at the most, and been added to no file but those of handlers
with numbers from some on. -/
structure ToldOnce (e : Entry) (first : Nat) (w w' : World) : Prop where
  printed : w'.errors = w.errors ∨ ∃ f : ScreenFormat, w'.errors = w.errors ++ f.text e ++ "\n"
  written : ∀ p, w'.tree.node? p ≠ w.tree.node? p →
    ∃ k n s, first ≤ k ∧ w.handlers[k]? = some (.file n s) ∧ w.tree.locate n = .ok p

theorem toldOnce_self (e : Entry) (first : Nat) (w : World) : ToldOnce e first w w :=
  ⟨.inl rfl, fun _ h => absurd rfl h⟩

theorem toldOnce_lastResort (e : Entry) (first : Nat) (w : World) :
    ToldOnce e first w (w.lastResort e) := by
  unfold lastResort
  split
  · refine ⟨.inr ⟨⟨false, false⟩, ?_⟩, fun _ h => absurd rfl h⟩
    rw [text_plain, printError]
  · exact toldOnce_self e first w

/-- There is one screen at the most among the active handlers. -/
theorem Outlets.shown_active (h : Outlets w) (e : Entry) :
    String.join (w.active.map (w.shown e)) = "" ∨
      ∃ f : ScreenFormat, String.join (w.active.map (w.shown e)) = f.text e ++ "\n" := by
  cases h with
  | none active => exact .inl (by simp [active, String.join])
  | @screen k f active screen =>
    exact .inr ⟨f, by simp [active, shown_screen screen, String.join]⟩
  | @both j k n f active file _ screen =>
    exact .inr ⟨f, by simp [active, shown_file file, shown_screen screen, String.join]⟩

theorem Delivered.toldOnce (h : Delivered e w w') (outlets : Outlets w)
    (recent : ∀ k ∈ w.active, first ≤ k) : ToldOnce e first w w' := by
  refine ⟨?_, fun p changed => ?_⟩
  · obtain none | ⟨f, one⟩ := outlets.shown_active e
    · left
      rw [h.printed, none, String.append_empty]
    · right
      refine ⟨f, ?_⟩
      rw [h.printed, one, String.append_assoc]
  · by_contra elsewhere
    apply changed
    apply h.elsewhere
    intro k hk n s file located
    exact elsewhere ⟨k, n, s, recent k hk, file, located⟩

/-- What has been told is seen in what has been printed, in the tree and in the handlers. -/
theorem ToldOnce.of_eq {w₁ : World} (h : ToldOnce e first w₁ w') (errors : w₁.errors = w.errors)
    (tree : w₁.tree = w.tree) (handlers : w₁.handlers = w.handlers) : ToldOnce e first w w' := by
  refine ⟨?_, ?_⟩
  · rw [← errors]
    exact h.printed
  · rw [← tree, ← handlers]
    exact h.written

/-! ### What a record reaches -/

/-- A record reaches no handler, the active ones, or those of the root. -/
theorem reached_ancestry (h : Ordered w) (fuel : Nat) (name : String) :
    reached (w.ancestry fuel name) = [] ∨ reached (w.ancestry fuel name) = w.active ∨
      reached (w.ancestry fuel name) = w.root.handlers := by
  have root : reached [w.root] = w.root.handlers := by simp [reached]
  induction fuel generalizing name with
  | zero => exact .inr (.inr root)
  | succ fuel ih =>
    unfold ancestry
    split
    · exact .inr (.inr root)
    · next hn =>
      rw [Bool.not_eq_true] at hn
      cases hl : w.loggers.lookup name with
      | none => exact .inr (.inr root)
      | some l =>
        have found : w.loggerOf name = l := by rw [loggerOf_named hn, hl, Option.getD_some]
        have held : l.handlers = w.handlersOf name := by rw [handlersOf, found]
        cases hp : l.propagate with
        | true =>
          -- a logger that hands its records on has not been prepared, so it has no handlers
          have passes : ¬w.IsFinal name := by simp [IsFinal, found, hp]
          rw [h.unprepared name passes] at held
          simpa only [reached, held, hp, List.nil_append, ↓reduceIte] using
            ih (l.parent.getD rootName)
        | false =>
          simp only [reached, hp, Bool.false_eq_true, ↓reduceIte, List.append_nil, held]
          exact (h.held name hn).imp_right .inl

/-- Records of a logger do not get to the root: it keeps them, or the root has no handler. -/
def KeptFromRoot (w : World) (name : String) : Prop :=
  isRoot name = false ∧ w.IsFinal name ∨ ¬w.IsFinal rootName

theorem reached_of_keptFromRoot (h : Ordered w) (hk : w.KeptFromRoot name) :
    reached (w.chain name) = [] ∨ reached (w.chain name) = w.active := by
  obtain ⟨hn, final⟩ | unprepared := hk
  · rw [reached_chain final]
    exact h.held name hn
  · have none : w.root.handlers = [] := by
      have root := h.unprepared rootName unprepared
      rwa [handlersOf, loggerOf_root (by decide)] at root
    obtain reaches | reaches | reaches := reached_ancestry h (w.loggers.length + 1) name
    · exact .inl reaches
    · exact .inr reaches
    · exact .inl (reaches.trans none)

theorem toldOnce_log (h : Ordered w) (recent : ∀ k ∈ w.active, first ≤ k)
    (hk : w.KeptFromRoot name) (r : Record) :
    ToldOnce ⟨if isRoot name then rootName else name, r, .untold⟩ first w (w.log name r) := by
  have made := tells_makeLogger w name
  have ordered : Ordered (w.makeLogger name) := lasts_ordered.tells made h
  have kept : (w.makeLogger name).KeptFromRoot name := by
    simpa only [KeptFromRoot, made.isFinal] using hk
  have told : ToldOnce ⟨if isRoot name then rootName else name, r, .untold⟩ first
      (w.makeLogger name) (w.log name r) := by
    unfold log tell
    simp only
    generalize (⟨if isRoot name then rootName else name, r, .untold⟩ : Entry) = e
    split
    · exact toldOnce_self e first _
    · obtain none | all := reached_of_keptFromRoot ordered kept
      · rw [none]
        exact toldOnce_lastResort e first _
      · rw [all]
        split
        · exact toldOnce_lastResort e first _
        · obtain ⟨w', given, delivered⟩ := exists_delivered ordered.outlets e
          rw [given]
          exact delivered.toldOnce ordered.outlets (by rwa [made.active])
  apply told.of_eq <;> rw [makeLogger_eq]

/-- Preparing a logger with a name tells so once. -/
theorem toldOnce_getLogger (h : Ordered w) (recent : ∀ k ∈ w.active, first ≤ k)
    (hn : isRoot name = false) (level : Option Level) :
    ToldOnce ⟨name, ⟨.debug, "Logger \"" ++ name ++ "\" initialized"⟩, .untold⟩ first w
      (w.getLogger name level) := by
  have equipped : Ordered (w.equip name level) := lasts_ordered.equip name level h
  have active : (w.equip name level).active = w.active := by rw [equip_eq]
  have told := toldOnce_log equipped (by rwa [active]) (.inl ⟨hn, isFinal_equip_self w name level⟩)
    ⟨.debug, "Logger \"" ++ name ++ "\" initialized"⟩
  rw [hn, if_neg Bool.false_ne_true] at told
  apply told.of_eq <;> rw [equip_eq]

/-! ### Old handlers -/

/-- Of the handlers that were active a logger with a name holds none any more, and the root all
that it held. -/
theorem Ordered.holds_old_iff (h : Ordered w) (filename : String) (forceDebug : Bool)
    (name : String) :
    (∃ k ∈ w.active, k ∈ (w.initLogging filename forceDebug).2.handlersOf name) ↔
      isRoot name = true ∧ ∃ k ∈ w.active, k ∈ w.handlersOf name := by
  obtain ⟨debug, hr⟩ := renewed_initLogging filename forceDebug w
  have h₁ : Ordered { w with debug := debug } := lasts_ordered.run (s := .setDebug debug) rfl h
  cases hn : isRoot name with
  | true =>
    have same : (w.initLogging filename forceDebug).2.handlersOf name = w.handlersOf name :=
      hr.handlersOf_root hn
    simp only [same, true_and]
  | false =>
    have none := h₁.handlersOf_renewed hr hn
    simp [none]

/-- Where all active handlers are new, so are those of loggers, except for the root when it has
been prepared. -/
theorem Ordered.first_le (h : Ordered w) (recent : Recent first w)
    (kept : isRoot name = false ∨ ¬w.IsFinal rootName) : ∀ k ∈ w.handlersOf name, first ≤ k := by
  intro k hk
  cases hn : isRoot name with
  | false =>
    obtain none | all := h.held name hn
    · rw [none] at hk
      cases hk
    · rw [all] at hk
      exact recent.active k hk
  | true =>
    have same : SameLogger name rootName := .inr ⟨hn, by decide⟩
    have passes : ¬w.IsFinal name := by
      rw [same.isFinal_iff]
      exact kept.resolve_left (by simp [hn])
    rw [h.unprepared name passes] at hk
    cases hk

/-- When the program begins to log anew, loggers with a name lose the handlers that were active
before, for good, and the root is the one that keeps those it had. What is told later, about
loggers that are prepared and of loggers that have been, is printed once at the most and added to
the files of new handlers only, except for the root; and if the root was never prepared this
holds of all loggers. -/
theorem init_replaces_handlers (before after : List Step) (filename : String) (forceDebug : Bool)
    (env : Environment) (tree : Tree) (terminal : Bool) :
    let w := session before (launched env tree terminal)
    let renewed := (w.initLogging filename forceDebug).2
    let later := session after renewed
    let steps := before ++ .initLogging filename forceDebug :: after
    (∀ k ∈ w.active, k < w.handlers.length) ∧
    (∀ name, (∃ k ∈ w.active, k ∈ renewed.handlersOf name) ↔
      isRoot name = true ∧ ∃ k ∈ w.active, k ∈ w.handlersOf name) ∧
    (∀ name, isRoot name = false ∨ (∀ s ∈ steps, ¬s.Prepares rootName) →
      ∀ k ∈ later.handlersOf name, w.handlers.length ≤ k) ∧
    (∀ name level, isRoot name = false →
      ToldOnce ⟨name, ⟨.debug, "Logger \"" ++ name ++ "\" initialized"⟩, .untold⟩
        w.handlers.length later (later.getLogger name level)) ∧
    ∀ name r, isRoot name = false ∧ (∃ s ∈ steps, s.Prepares name) ∨
        (∀ s ∈ steps, ¬s.Prepares rootName) →
      ToldOnce ⟨if isRoot name then rootName else name, r, .untold⟩ w.handlers.length later
        (later.log name r) := by
  intro w renewed later steps
  have ordered : Ordered w := ordered_session before env tree terminal
  have whole : later = session steps (launched env tree terminal) := by
    rw [session_append, session_cons]
    rfl
  have orderedLater : Ordered later := whole ▸ ordered_session steps env tree terminal
  have recent : Recent w.handlers.length later :=
    recent_session after (recent_initLogging filename forceDebug (Nat.le_refl _))
  have final (name : String) : later.IsFinal name ↔ ∃ s ∈ steps, s.Prepares name := by
    rw [whole, isFinal_session, or_iff_right (not_isFinal_launched env tree terminal name)]
  have rootPasses (unprepared : ∀ s ∈ steps, ¬s.Prepares rootName) : ¬later.IsFinal rootName := by
    rw [final]
    rintro ⟨s, hs, prepares⟩
    exact unprepared s hs prepares
  refine ⟨ordered.outlets.lt_length, ordered.holds_old_iff filename forceDebug,
    fun name kept => ?_, fun name level hn => ?_, fun name r kept => ?_⟩
  · exact orderedLater.first_le recent (kept.imp_right rootPasses)
  · exact toldOnce_getLogger orderedLater recent.active hn level
  · apply toldOnce_log orderedLater recent.active
    exact kept.imp (fun h => ⟨h.1, (final name).2 h.2⟩) rootPasses

/-- The root, which has been prepared under its empty name, keeps both handlers. -/
theorem init_replaces_handlers_but_of_root :
    let before : List Step :=
      [.initLogging "a.log" false, .getLogger "" none, .getLogger "x" none]
    let w := session before (launched {} (.empty ["w"]) false)
    let renewed := (w.initLogging "" false).2
    w.active = [0, 1] ∧ (∃ k ∈ w.active, k ∈ renewed.handlersOf "root") ∧
      (∀ k ∈ w.active, k ∉ renewed.handlersOf "x") ∧
      ToldOnce ⟨"x", ⟨30, "m"⟩, .untold⟩ 2 renewed (renewed.log "x" ⟨30, "m"⟩) := by
  intro before w renewed
  obtain ⟨_, keeps, new, _, once⟩ :=
    init_replaces_handlers before [] "" false {} (.empty ["w"]) false
  have active : w.active = [0, 1] := by decide +kernel
  have length : w.handlers.length = 2 := by decide +kernel
  have held : w.handlersOf "root" = [0, 1] := by decide +kernel
  have prepared : Step.Prepares (.getLogger "x" none) "x" := ⟨"x", rfl, .inl rfl⟩
  refine ⟨active, (keeps "root").2 ⟨by decide, 0, ?_, ?_⟩, fun k hk old => ?_, ?_⟩
  · simp [show session before (launched {} (.empty ["w"]) false) = w from rfl, active]
  · simp [show session before (launched {} (.empty ["w"]) false) = w from rfl, held]
  · have late := new "x" (.inl (by decide)) k old
    have early : k = 0 ∨ k = 1 := by simpa [active] using hk
    change w.handlers.length ≤ k at late
    omega
  · have told := once "x" ⟨30, "m"⟩ (.inl ⟨by decide, _, by simp [before], prepared⟩)
    rwa [show (session before _).handlers.length = 2 from length] at told

end ShellCompletion.World
