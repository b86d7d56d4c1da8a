import ShellCompletion.World

/-! Which handlers a record of a logger reaches. A logger that is not there yet looks like a new
one, so making loggers shows in nothing but parents. The main statements say that preparing a
logger gives it the active handlers and no one else anything, that a prepared logger keeps its
records from the loggers above it, and which handlers are left when those that were active are
dropped: a logger with a name loses them, and the root does not. -/
namespace ShellCompletion.World

open Log

variable {w : World} {name other : String} {level : Option Level}

/-- The logger of a name, or a new one. -/
def loggerOf (w : World) (name : String) : Logger := (w.logger? name).getD {}

def handlersOf (w : World) (name : String) : List Nat := (w.loggerOf name).handlers

/-- Are records of a logger kept from the loggers above it? -/
def IsFinal (w : World) (name : String) : Prop := (w.loggerOf name).propagate = false

/-- Two names are of one logger: the root has two. -/
def SameLogger (name other : String) : Prop :=
  name = other ∨ isRoot name = true ∧ isRoot other = true

theorem loggerOf_root (h : isRoot name = true) : w.loggerOf name = w.root := by
  simp [loggerOf, logger?, h]

theorem loggerOf_named (h : isRoot name = false) :
    w.loggerOf name = (w.loggers.lookup name).getD {} := by
  simp [loggerOf, logger?, h]

theorem SameLogger.isRoot_eq (h : SameLogger name other) : isRoot name = isRoot other := by
  obtain rfl | ⟨hn, ho⟩ := h
  · rfl
  · rw [hn, ho]

theorem SameLogger.loggerOf_eq (h : SameLogger name other) :
    w.loggerOf name = w.loggerOf other := by
  obtain rfl | ⟨hn, ho⟩ := h
  · rfl
  · rw [loggerOf_root hn, loggerOf_root ho]

theorem SameLogger.handlersOf_eq (h : SameLogger name other) :
    w.handlersOf name = w.handlersOf other := by
  rw [handlersOf, h.loggerOf_eq, handlersOf]

theorem SameLogger.isFinal_iff (h : SameLogger name other) :
    w.IsFinal name ↔ w.IsFinal other := by
  rw [IsFinal, h.loggerOf_eq, IsFinal]

/-! ### Making a logger -/

theorem lookup_map_snd (f : String → Logger → Logger) (es : List (String × Logger))
    (name : String) :
    (es.map fun e => (e.1, f e.1 e.2)).lookup name = (es.lookup name).map (f name) := by
  induction es with
  | nil => rfl
  | cons e es ih =>
    rw [List.map_cons, List.lookup_cons, List.lookup_cons]
    split
    · next h => rw [beq_iff_eq.1 h, Option.map_some]
    · exact ih

/-- The parent that a logger has when one below it in the order of names is made. -/
def adoptedParent (newcomer name : String) (l : Logger) : Option String :=
  (adopt newcomer (name, l)).2.parent

theorem adopt_eq (newcomer : String) (e : String × Logger) :
    adopt newcomer e = (e.1, { e.2 with parent := adoptedParent newcomer e.1 e.2 }) := by
  unfold adoptedParent adopt
  simp only
  split <;> rfl

/-- Making a logger shows in the parents of loggers only. -/
theorem loggerOf_makeLogger (w : World) (made name : String) :
    ∃ p, (w.makeLogger made).loggerOf name = { w.loggerOf name with parent := p } := by
  unfold makeLogger
  split
  · exact ⟨_, rfl⟩
  · cases h : isRoot name with
    | true =>
      rw [loggerOf_root h, loggerOf_root h]
      exact ⟨_, rfl⟩
    | false =>
      rw [loggerOf_named h, loggerOf_named h, List.lookup_append, funext (adopt_eq made),
        lookup_map_snd fun n l => { l with parent := adoptedParent made n l }]
      cases w.loggers.lookup name with
      | some l => exact ⟨_, rfl⟩
      | none =>
        by_cases hn : name = made
        · subst hn
          simp only [Option.map_none, Option.none_or, List.lookup_cons_self, Option.getD_some]
          exact ⟨_, rfl⟩
        · have hf : (name == made) = false := by simpa using hn
          simp only [Option.map_none, Option.none_or, List.lookup_cons, hf]
          exact ⟨_, rfl⟩

theorem handlersOf_makeLogger (w : World) (made name : String) :
    (w.makeLogger made).handlersOf name = w.handlersOf name := by
  obtain ⟨p, h⟩ := loggerOf_makeLogger w made name
  rw [handlersOf, h, handlersOf]

theorem isFinal_makeLogger (w : World) (made name : String) :
    (w.makeLogger made).IsFinal name ↔ w.IsFinal name := by
  obtain ⟨p, h⟩ := loggerOf_makeLogger w made name
  rw [IsFinal, h, IsFinal]

theorem makeLogger_eq (w : World) (made : String) :
    w.makeLogger made = { w with loggers := (w.makeLogger made).loggers } := by
  unfold makeLogger
  split <;> rfl

@[simp]
theorem active_makeLogger (w : World) (made : String) : (w.makeLogger made).active = w.active := by
  rw [makeLogger_eq]

/-! ### Preparing a logger -/

/-- The program with the logger of a name prepared, before that is told. -/
def equip (w : World) (name : String) (level : Option Level) : World :=
  let w := w.makeLogger name
  let old := w.loggerOf name
  w.setLogger name { old with
    level := level.getD (if w.debug then Level.debug else Level.warning)
    propagate := false
    handlers := old.handlers ++ w.active.filter fun k => !old.handlers.contains k }

theorem prepareLogger_eq (w : World) (name : String) (level : Option Level) :
    w.prepareLogger name level =
      (w.equip name level).tell name ⟨.debug, "Logger \"" ++ name ++ "\" initialized"⟩ :=
  rfl

theorem loggerOf_setLogger_self (w : World) (name : String) (l : Logger) :
    (w.setLogger name l).loggerOf name = l := by
  rw [loggerOf, logger?_setLogger_self, Option.getD_some]

theorem loggerOf_setLogger_of_not (w : World) (l : Logger) (h : ¬SameLogger name other) :
    (w.setLogger other l).loggerOf name = w.loggerOf name := by
  cases hn : isRoot name with
  | true =>
    have ho : ¬isRoot other = true := fun ho => h (.inr ⟨hn, ho⟩)
    rw [loggerOf_root hn, loggerOf_root hn, setLogger, if_neg ho]
  | false =>
    rw [loggerOf_named hn, loggerOf_named hn, setLogger]
    split
    · rfl
    · rw [lookup_putLogger_of_ne w.loggers l fun e => h (.inl e)]

/-- A logger that is prepared has what it had and the active handlers besides. -/
theorem handlersOf_equip_self (w : World) (name : String) (level : Option Level) :
    (w.equip name level).handlersOf name =
      w.handlersOf name ++ w.active.filter fun k => !(w.handlersOf name).contains k := by
  rw [handlersOf, equip, loggerOf_setLogger_self]
  have same := handlersOf_makeLogger w name name
  rw [handlersOf] at same
  simp only [same, active_makeLogger]

theorem isFinal_equip_self (w : World) (name : String) (level : Option Level) :
    (w.equip name level).IsFinal name := by
  rw [IsFinal, equip, loggerOf_setLogger_self]

theorem loggerOf_equip_of_not (w : World) (level : Option Level) (h : ¬SameLogger name other) :
    ∃ p, (w.equip other level).loggerOf name = { w.loggerOf name with parent := p } := by
  obtain ⟨p, hp⟩ := loggerOf_makeLogger w other name
  exact ⟨p, (loggerOf_setLogger_of_not _ _ h).trans hp⟩

theorem handlersOf_equip_of_not (w : World) (level : Option Level)
    (h : ¬SameLogger name other) : (w.equip other level).handlersOf name = w.handlersOf name := by
  obtain ⟨p, hp⟩ := loggerOf_equip_of_not w level h
  rw [handlersOf, hp, handlersOf]

/-- From when it is prepared a logger keeps its records, and no other one does that did not. -/
theorem isFinal_equip (w : World) (name other : String) (level : Option Level) :
    (w.equip other level).IsFinal name ↔ w.IsFinal name ∨ SameLogger name other := by
  by_cases h : SameLogger name other
  · have final := isFinal_equip_self w other level
    simp only [h.isFinal_iff, final, h, or_true]
  · obtain ⟨p, hp⟩ := loggerOf_equip_of_not w level h
    simp only [IsFinal, hp, h, or_false]

theorem equip_eq (w : World) (name : String) (level : Option Level) :
    w.equip name level = { w with
      root := (w.equip name level).root, loggers := (w.equip name level).loggers } := by
  unfold equip setLogger
  simp only
  split <;> rw [makeLogger_eq]

/-! ### Reaching handlers -/

/-- A record of a logger that keeps its records goes to the handlers of that logger. -/
theorem reached_chain (h : w.IsFinal name) : reached (w.chain name) = w.handlersOf name := by
  unfold chain ancestry
  split
  · next hr =>
    rw [handlersOf, loggerOf_root hr]
    simp [reached]
  · next hr =>
    rw [Bool.not_eq_true] at hr
    rw [IsFinal, loggerOf_named hr] at h
    rw [handlersOf, loggerOf_named hr]
    cases hl : w.loggers.lookup name with
    | none =>
      rw [hl] at h
      cases h
    | some l =>
      rw [hl, Option.getD_some] at h
      simp only [reached, h, Bool.false_eq_true, ↓reduceIte, List.append_nil, Option.getD_some]

/-! ### Dropping handlers -/

theorem closeHandler_eq (w : World) (k : Nat) :
    w.closeHandler k = { w with handlers := (w.closeHandler k).handlers } := by
  unfold closeHandler
  split <;> rfl

theorem length_closeHandler (w : World) (k : Nat) :
    (w.closeHandler k).handlers.length = w.handlers.length := by
  unfold closeHandler
  split
  · simp [setHandler]
  · rfl

theorem dropHandler_eq (w : World) (k : Nat) :
    w.dropHandler k = { w with
      loggers := w.loggers.map fun e => (e.1, e.2.dropHandler k)
      handlers := (w.dropHandler k).handlers } := by
  unfold dropHandler
  rw [closeHandler_eq]

theorem loggerOf_dropHandler (w : World) (k : Nat) (hn : isRoot name = false) :
    (w.dropHandler k).loggerOf name = (w.loggerOf name).dropHandler k := by
  rw [loggerOf_named hn, loggerOf_named hn, dropHandler_eq]
  simp only
  rw [lookup_map_snd fun _ l => l.dropHandler k]
  cases w.loggers.lookup name <;> rfl

theorem length_dropHandler (w : World) (k : Nat) :
    (w.dropHandler k).handlers.length = w.handlers.length :=
  length_closeHandler ..

/-- The program with some handlers dropped. -/
def dropHandlers (w : World) (ks : List Nat) : World := ks.foldl dropHandler w

theorem dropHandlers_eq (w : World) (ks : List Nat) :
    ∃ ls hs, w.dropHandlers ks = { w with loggers := ls, handlers := hs } := by
  induction ks generalizing w with
  | nil => exact ⟨_, _, rfl⟩
  | cons k ks ih =>
    obtain ⟨ls, hs, h⟩ := ih (w.dropHandler k)
    refine ⟨ls, hs, h.trans ?_⟩
    rw [dropHandler_eq]

theorem handlersOf_dropHandlers (w : World) (ks : List Nat) (hn : isRoot name = false) :
    (w.dropHandlers ks).handlersOf name = (w.handlersOf name).filter fun k => !ks.contains k := by
  induction ks generalizing w with
  | nil => exact (List.filter_eq_self.2 fun _ _ => rfl).symm
  | cons k ks ih =>
    have first : (w.dropHandler k).handlersOf name = (w.handlersOf name).filter (· != k) := by
      rw [handlersOf, loggerOf_dropHandler w k hn]
      rfl
    refine (ih (w.dropHandler k)).trans ?_
    rw [first, List.filter_filter]
    apply List.filter_congr
    intro j _
    rw [List.contains_cons, Bool.not_or, Bool.and_comm]
    rfl

theorem length_dropHandlers (w : World) (ks : List Nat) :
    (w.dropHandlers ks).handlers.length = w.handlers.length := by
  induction ks generalizing w with
  | nil => rfl
  | cons k ks ih => exact (ih (w.dropHandler k)).trans (length_dropHandler w k)

/-- The root keeps all that it was given: it is not among the loggers with a name. -/
theorem loggerOf_dropHandlers_root (w : World) (ks : List Nat) (hr : isRoot name = true) :
    (w.dropHandlers ks).loggerOf name = w.loggerOf name := by
  obtain ⟨ls, hs, h⟩ := dropHandlers_eq w ks
  rw [loggerOf_root hr, loggerOf_root hr, h]

/-- Dropping handlers shows in the handlers of loggers only. -/
theorem isFinal_dropHandlers (w : World) (ks : List Nat) (name : String) :
    (w.dropHandlers ks).IsFinal name ↔ w.IsFinal name := by
  cases hn : isRoot name with
  | true => rw [IsFinal, loggerOf_dropHandlers_root w ks hn, IsFinal]
  | false =>
    induction ks generalizing w with
    | nil => rfl
    | cons k ks ih =>
      refine (ih (w.dropHandler k)).trans ?_
      rw [IsFinal, loggerOf_dropHandler w k hn]
      rfl

end ShellCompletion.World
