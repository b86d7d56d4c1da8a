import ShellCompletion.Proofs.Logging.Session

/-! Records reach the active handlers once. A handler for a screen prints one line of a record,
and a file that can be read can be added to, so no active handler fails. The main statement is
about a logger with a name that has been prepared, while the program does not begin to log anew:
it holds the active handlers in their order, whatever loggers there are above it and however often
it has been prepared, and a record that is told gives each of them one line. -/
namespace ShellCompletion.World

open Log Files

variable {w : World} {name : String} {e : Entry} {k : Nat} {n : Name} {f : ScreenFormat}

/-- What a handler prints of a record. -/
def shown (w : World) (e : Entry) (k : Nat) : String :=
  match w.handlers[k]? with
  | some (.screen f) => f.text e ++ "\n"
  | _ => ""

/-- A record has been given to the active handlers once, and to nothing else. -/
structure Delivered (e : Entry) (w w' : World) : Prop where
  printed : w'.errors = w.errors ++ String.join (w.active.map (w.shown e))
  written : ∀ k ∈ w.active, ∀ n s, w.handlers[k]? = some (.file n s) →
    ∃ data, w.tree.read n = .ok data ∧
      w'.tree.read n = .ok (data ++ Text.encodeUtf8 (fileText e ++ "\n"))
  elsewhere : ∀ p, (∀ k ∈ w.active, ∀ n s, w.handlers[k]? = some (.file n s) →
    w.tree.locate n ≠ .ok p) → w'.tree.node? p = w.tree.node? p

/-! ### The active handlers -/

theorem shown_screen (hk : w.handlers[k]? = some (.screen f)) :
    w.shown e k = f.text e ++ "\n" := by
  rw [shown, hk]

theorem shown_file {s : Stream} (hk : w.handlers[k]? = some (.file n s)) : w.shown e k = "" := by
  rw [shown, hk]

theorem handle_screen (hk : w.handlers[k]? = some (.screen f)) :
    w.handle e k = (none, w.printError (f.text e)) := by
  rw [handle, hk]

/-- A file that is connected and can be added to stays connected. -/
theorem handle_file {t : Tree} (hk : w.handlers[k]? = some (.file n .connected))
    (hu : w.tree.update n (· ++ Text.encodeUtf8 (fileText e ++ "\n")) = .ok t) :
    w.handle e k = (none, { w with tree := t }) := by
  have same : w.handlers.set k (.file n .connected) = w.handlers := by
    obtain ⟨hlt, hget⟩ := List.getElem?_eq_some_iff.1 hk
    rw [← hget, List.set_getElem_self]
  rw [handle, hk]
  simp only [appendLine, hu, setHandler, same]

theorem handleAll_cons {w' : World} {ks : List Nat} (h : w.handle e k = (none, w')) :
    w.handleAll e (k :: ks) = w'.handleAll e ks := by
  rw [handleAll, h]

/-- The active handlers can all be given a record, and each is given it once. -/
theorem exists_delivered (h : Outlets w) (e : Entry) :
    ∃ w', w.handleAll e w.active = (none, w') ∧ Delivered e w w' := by
  cases h with
  | none active =>
    refine ⟨w, by rw [active]; rfl, ?_, by simp [active], fun _ _ => rfl⟩
    simp [active, String.join]
  | @screen k f active screen =>
    refine ⟨w.printError (f.text e), ?_, ?_, ?_, fun _ _ => rfl⟩
    · rw [active]
      exact handleAll_cons (handle_screen screen)
    · simp [active, shown_screen screen, printError, String.join, String.append_assoc]
    · intro j hj n s file
      rw [active, List.mem_singleton] at hj
      subst hj
      rw [screen] at file
      cases file
  | @both j k n f active file readable screen =>
    obtain ⟨data, hr⟩ := readable
    obtain ⟨t, hu, written, elsewhere⟩ :=
      Tree.update_of_read hr (· ++ Text.encodeUtf8 (fileText e ++ "\n"))
    refine ⟨{ w with tree := t }.printError (f.text e), ?_, ?_, ?_, fun p hp => ?_⟩
    · have first : w.handleAll e [j, k] = handleAll e { w with tree := t } [k] :=
        handleAll_cons (handle_file file hu)
      exact (congrArg (w.handleAll e) active).trans
        (first.trans (handleAll_cons (handle_screen screen)))
    · simp [active, shown_screen screen, shown_file file, printError, String.join,
        String.append_assoc]
    · intro i hi m s hm
      rw [active, List.mem_cons, List.mem_singleton] at hi
      obtain rfl | rfl := hi
      · rw [file, Option.some.injEq, Handler.file.injEq] at hm
        obtain ⟨rfl, -⟩ := hm
        exact ⟨data, hr, written⟩
      · rw [screen] at hm
        cases hm
    · apply elsewhere p
      exact hp j (by simp [active]) n .connected file

/-! ### A prepared logger -/

theorem makeLogger_of_isFinal (h : w.IsFinal name) : w.makeLogger name = w := by
  have known : (w.logger? name).isSome = true := by
    rw [IsFinal, loggerOf] at h
    cases hl : w.logger? name with
    | some l => rfl
    | none =>
      rw [hl] at h
      cases h
  rw [makeLogger, if_pos known]

/-- A record that a prepared logger takes goes to the handlers of that logger. -/
theorem tell_of_isFinal {r : Record} (hn : isRoot name = false) (h : w.IsFinal name)
    (positive : 0 < r.level) (taken : w.effectiveLevel name ≤ r.level)
    (some_ : w.handlersOf name ≠ []) :
    w.tell name r = w.handleAll ⟨name, r, .untold⟩ (w.handlersOf name) := by
  have told : (decide (r.level ≤ 0) || decide (r.level < w.effectiveLevel name)) = false := by
    rw [Bool.or_eq_false_iff, decide_eq_false_iff_not, decide_eq_false_iff_not]
    exact ⟨Int.not_le.2 positive, Int.not_lt.2 taken⟩
  unfold tell
  simp only [makeLogger_of_isFinal h, told, hn, reached_chain h, Bool.false_eq_true, ↓reduceIte]

/-- A logger holds the active handlers, which are these, and keeps its records. -/
structure Attached (name : String) (ks : List Nat) (w : World) : Prop where
  active : w.active = ks
  handlers : w.handlersOf name = ks
  isFinal : w.IsFinal name

theorem lasts_attached (name : String) (ks : List Nat) : Lasts (Attached name ks) where
  tells ht hw :=
    ⟨ht.active.trans hw.active, (ht.handlersOf name).trans hw.handlers, (ht.isFinal name).2 hw.isFinal⟩
  equip other level w hw := by
    refine ⟨?_, ?_, (lasts_isFinal name).equip other level hw.isFinal⟩
    · rw [equip_eq]
      exact hw.active
    · by_cases h : SameLogger name other
      · rw [h.handlersOf_eq, handlersOf_equip_self, hw.active, ← h.handlersOf_eq, hw.handlers]
        simp
      · rw [handlersOf_equip_of_not w level h]
        exact hw.handlers

theorem Ordered.attached (h : Ordered w) (level : Option Level) (hn : isRoot name = false) :
    Attached name w.active (w.getLogger name level) := by
  have told := tells_getLogger name level w
  refine ⟨?_, ?_, ?_⟩
  · rw [told.active, equip_eq]
  · rw [told.handlersOf]
    exact h.handlersOf_equip level hn
  · rw [told.isFinal]
    exact isFinal_equip_self w name level

/-- In every session a logger with a name holds nothing or the active handlers, and these once it
has been prepared. Until the program begins to log anew, a record of it that is told reaches each
of them once. -/
theorem records_reach_active_once (hn : isRoot name = false) (before between : List Step)
    (lasting : ∀ s ∈ between, s.isInit = false) (level : Option Level) (env : Environment)
    (tree : Tree) (terminal : Bool) :
    let w := session before (launched env tree terminal)
    let prepared := w.getLogger name level
    let later := session between prepared
    (w.handlersOf name = [] ∨ w.handlersOf name = w.active) ∧
    (prepared.active = w.active ∧ prepared.handlersOf name = prepared.active) ∧
    (later.active = w.active ∧ later.active.Nodup) ∧
    ∀ r : Record, 0 < r.level → later.effectiveLevel name ≤ r.level →
      reached (later.chain name) = later.active ∧
      (later.tell name r).1 = none ∧
      (later.active ≠ [] → Delivered ⟨name, r, .untold⟩ later (later.log name r)) := by
  intro w prepared later
  have ordered : Ordered w := ordered_session before env tree terminal
  have attached : Attached name w.active prepared := ordered.attached level hn
  have lasts : Attached name w.active later := (lasts_attached name _).session lasting attached
  have outlets : Outlets later := by
    have steps := ordered_session (before ++ .getLogger name level :: between) env tree terminal
    rw [session_append, session_cons] at steps
    exact steps.outlets
  refine ⟨ordered.held name hn, ⟨attached.active, attached.handlers.trans attached.active.symm⟩,
    ⟨lasts.active, outlets.nodup⟩, fun r positive taken => ?_⟩
  have held : later.handlersOf name = later.active := lasts.handlers.trans lasts.active.symm
  refine ⟨(reached_chain lasts.isFinal).trans held, ?_⟩
  obtain ⟨w', told, delivered⟩ := exists_delivered outlets ⟨name, r, .untold⟩
  by_cases idle : later.active = []
  · refine ⟨?_, fun h => absurd idle h⟩
    unfold tell
    simp only [makeLogger_of_isFinal lasts.isFinal, reached_chain lasts.isFinal, held, idle]
    split <;> rfl
  · have tell_eq := tell_of_isFinal hn lasts.isFinal positive taken (held ▸ idle)
    rw [held, told] at tell_eq
    rw [log, tell_eq]
    exact ⟨rfl, fun _ => delivered⟩

/-- A logger below another one in the order of names, each prepared twice. -/
theorem records_reach_active_once_dotted :
    let before : List Step := [.getLogger "a" none, .initLogging "a.log" true, .getLogger "a.b" none]
    let between : List Step := [.getLogger "a" none, .getLogger "a.b" (some 10)]
    let w := session between ((session before (launched {} (.empty ["w"]) false)).getLogger "a.b" none)
    isRoot "a.b" = false ∧ (∀ s ∈ between, s.isInit = false) ∧ w.effectiveLevel "a.b" ≤ 40 ∧
      w.active = [0, 1] ∧ Delivered ⟨"a.b", ⟨40, "m"⟩, .untold⟩ w (w.log "a.b" ⟨40, "m"⟩) := by
  intro before between w
  have named : isRoot "a.b" = false := by decide
  have lasting : ∀ s ∈ between, s.isInit = false := by
    simp [between, Step.isInit]
  have taken : w.effectiveLevel "a.b" ≤ 40 := by decide +kernel
  have active : w.active = [0, 1] := by decide +kernel
  have reaches := records_reach_active_once named before between lasting none {} (.empty ["w"]) false
  refine ⟨named, lasting, taken, active, (reaches.2.2.2 ⟨40, "m"⟩ (by decide) taken).2.2 ?_⟩
  rw [show session between _ = w from rfl, active]
  simp

/-- A level below zero is no level that is told, even of a logger that takes all of its records. -/
theorem record_below_zero_reaches_none :
    let steps : List Step := [.initLogging "" false, .getLogger "x" (some (-5))]
    let w := session steps (launched {} (.empty ["w"]) false)
    isRoot "x" = false ∧ w.effectiveLevel "x" ≤ -3 ∧ w.active = [0] ∧
      ¬Delivered ⟨"x", ⟨-3, "m"⟩, .untold⟩ w (w.log "x" ⟨-3, "m"⟩) := by
  intro steps w
  refine ⟨by decide, by decide +kernel, by decide +kernel, fun h => ?_⟩
  have silent : (w.log "x" ⟨-3, "m"⟩).errors = w.errors := by decide +kernel
  have line : String.join (w.active.map (w.shown ⟨"x", ⟨-3, "m"⟩, .untold⟩)) = "m\n" := by
    decide +kernel
  have printed := h.printed
  rw [silent, line] at printed
  exact absurd (congrArg String.length printed) (by simp)

end ShellCompletion.World
