import ShellCompletion.Proofs.Dump.Hosts
import ShellCompletion.Proofs.Logging.Telling

/-! Sessions of a program: steps that switch debugging, begin to log anew, prepare loggers, tell
records, and check, compile and dump documents. What telling and preparing keep is kept from one
beginning to log to the next. The main statement is the invariant of every session: a logger with
a name holds nothing or the active handlers in their order, and these are a file that can be
written to, if there is one, and a screen. -/
namespace ShellCompletion.World

open Document Log Files

variable {w w' : World} {name : String} {P : World → Prop}

/-! ### Steps -/

inductive Step where
  | setDebug (value : Bool)
  | initLogging (filename : String) (forceDebug : Bool)
  | getLogger (name : String) (level : Option Level)
  | log (name : String) (r : Record)
  | validate (document : Value)
  | compile (shell : String) (document : Value)
  | dumpFile (source shell : String) (output : Option String)

namespace Step

/-- A step that fails leaves the program as it is then. -/
def run : Step → World → World
  | setDebug value, w => { w with debug := value }
  | initLogging filename forceDebug, w => (w.initLogging filename forceDebug).2
  | getLogger name level, w => w.getLogger name level
  | log name r, w => w.log name r
  | validate document, w => (w.validate document).2
  | compile shell document, w => (w.compile shell document).2
  | dumpFile source shell output, w => (w.dumpFile source shell output).2

/-- Does the program begin to log anew? -/
def isInit : Step → Bool
  | initLogging _ _ => true
  | _ => false

/-- The logger that a step prepares. -/
def prepared? : Step → Option String
  | getLogger name _ => some name
  | validate _ => some "validate"
  | compile _ _ | dumpFile _ _ _ => some "dump"
  | _ => none

def Prepares (s : Step) (name : String) : Prop := ∃ other ∈ s.prepared?, SameLogger name other

end Step

/-- The program after some steps. -/
def session (steps : List Step) (w : World) : World := steps.foldl (fun w s => s.run w) w

theorem session_cons (s : Step) (steps : List Step) (w : World) :
    session (s :: steps) w = session steps (s.run w) := rfl

theorem session_append (steps steps' : List Step) (w : World) :
    session (steps ++ steps') w = session steps' (session steps w) := List.foldl_append

/-! ### What lasts -/

/-- The property is kept by telling records and by preparing loggers. -/
structure Lasts (P : World → Prop) : Prop where
  tells : ∀ {w w'}, Tells w w' → P w → P w'
  equip : ∀ name level {w}, P w → P (w.equip name level)

/-- Dumping on the host of a program does to the program what telling does. -/
theorem steady_tells : Dump.Steady fun s s' : Logging => Tells s.world s'.world where
  refl s := tells_self s.world
  trans h h' := h.trans h'
  note r s := tells_log s.logger r s.world
  setTree h := tells_tree h

theorem tells_validate (document : Value) (w : World) :
    Tells (w.getLogger "validate" none) (w.validate document).2 := by
  unfold validate
  rcases Interface.examine document with ⟨verdict, records⟩
  exact steady_tells.noteAll records ⟨w.getLogger "validate" none, "validate"⟩

theorem tells_compile (shell : String) (document : Value) (w : World) :
    Tells (w.getLogger "dump" none) (w.compile shell document).2 := by
  unfold compile
  rcases Script.dump shell document with ⟨result, records⟩
  exact steady_tells.noteAll records ⟨w.getLogger "dump" none, "dump"⟩

theorem tells_dumpFile (source shell : String) (output : Option String) (w : World) :
    Tells (w.getLogger "dump" none) (w.dumpFile source shell output).2 :=
  steady_tells.dumpFile source shell output ⟨w.getLogger "dump" none, "dump"⟩

theorem Lasts.getLogger (h : Lasts P) (name : String) (level : Option Level) (hw : P w) :
    P (w.getLogger name level) :=
  h.tells (tells_getLogger name level w) (h.equip name level hw)

/-- What lasts is kept by every step, unless the program begins to log anew. -/
theorem Lasts.run (h : Lasts P) {s : Step} (hs : s.isInit = false) (hw : P w) : P (s.run w) := by
  cases s with
  | setDebug value =>
    have same : Tells w { w with debug := value } :=
      { tells_self w with handlersOf := fun _ => rfl, isFinal := fun _ => Iff.rfl }
    exact h.tells same hw
  | initLogging filename forceDebug => cases hs
  | getLogger name level => exact h.getLogger name level hw
  | log name r => exact h.tells (tells_log name r w) hw
  | validate document =>
    exact h.tells (tells_validate document w) (h.getLogger "validate" none hw)
  | compile shell document =>
    exact h.tells (tells_compile shell document w) (h.getLogger "dump" none hw)
  | dumpFile source shell output =>
    exact h.tells (tells_dumpFile source shell output w) (h.getLogger "dump" none hw)

theorem Lasts.session (h : Lasts P) {steps : List Step} (hs : ∀ s ∈ steps, s.isInit = false)
    (hw : P w) : P (session steps w) := by
  induction steps generalizing w with
  | nil => exact hw
  | cons s steps ih =>
    have first := h.run (hs s List.mem_cons_self) hw
    exact ih (fun s' hs' => hs s' (List.mem_cons_of_mem s hs')) first

/-- What lasts, and is kept when the program begins to log anew, holds in every session. -/
theorem Lasts.always (h : Lasts P)
    (init : ∀ filename forceDebug {w}, P w → P (World.initLogging filename forceDebug w).2)
    (steps : List Step) (hw : P w) : P (World.session steps w) := by
  induction steps generalizing w with
  | nil => exact hw
  | cons s steps ih =>
    rw [session_cons]
    cases hs : s.isInit with
    | false => exact ih (h.run hs hw)
    | true =>
      cases s with
      | initLogging filename forceDebug => exact ih (init filename forceDebug hw)
      | _ => cases hs

/-- A logger that keeps its records keeps them for the rest of the session. -/
theorem lasts_isFinal (name : String) : Lasts fun w => w.IsFinal name where
  tells h hw := (h.isFinal name).2 hw
  equip other level w hw := (isFinal_equip w name other level).2 (.inl hw)

/-! ### Beginning to log anew -/

/-- The program with its active handlers dropped. -/
def bare (w : World) : World := { w.dropHandlers w.active with active := [] }

/-- What the program is when it has begun to log anew: a new screen is active, alone or after a
new file, or nothing is, because the file can not be opened. -/
inductive Renewed (w : World) : World → Prop
  | failed : Renewed w w.bare
  | screen (f : ScreenFormat) : Renewed w (w.bare.addHandler (.screen f))
  | file {n : Name} {t : Tree} (f : ScreenFormat) (update : w.tree.update n id = .ok t) :
      Renewed w (({ w.bare with tree := t }.addHandler (.file n .connected)).addHandler (.screen f))

theorem debug_forced (w : World) (forceDebug : Bool) :
    (if forceDebug then { w with debug := true } else w) =
      { w with debug := if forceDebug then true else w.debug } := by
  split <;> rfl

theorem tree_dropHandlers (w : World) (ks : List Nat) : (w.dropHandlers ks).tree = w.tree := by
  obtain ⟨ls, hs, h⟩ := dropHandlers_eq w ks
  rw [h]

theorem renewed_initLogging (filename : String) (forceDebug : Bool) (w : World) :
    ∃ debug, Renewed { w with debug := debug } (w.initLogging filename forceDebug).2 := by
  refine ⟨if forceDebug then true else w.debug, ?_⟩
  unfold initLogging
  rw [debug_forced]
  generalize { w with debug := if forceDebug then true else w.debug } = w₁
  simp only
  split
  · exact .screen _
  · split
    · exact .failed
    · next t hu =>
      generalize absoluteName _ filename = n at hu ⊢
      rw [show (w₁.active.foldl dropHandler w₁).tree = w₁.tree from
        tree_dropHandlers w₁ w₁.active] at hu
      exact .file _ hu

section

variable (h : Renewed w w')
include h

theorem Renewed.handlersOf_named (hn : isRoot name = false) :
    w'.handlersOf name = (w.handlersOf name).filter fun k => !w.active.contains k := by
  have dropped := handlersOf_dropHandlers w w.active hn
  cases h with
  | failed => exact dropped
  | screen => exact dropped
  | file => exact dropped

theorem Renewed.handlersOf_root (hr : isRoot name = true) :
    w'.handlersOf name = w.handlersOf name := by
  have kept := congrArg Logger.handlers (loggerOf_dropHandlers_root w w.active hr)
  cases h with
  | failed => exact kept
  | screen => exact kept
  | file => exact kept

theorem Renewed.isFinal (name : String) : w'.IsFinal name ↔ w.IsFinal name := by
  have dropped := isFinal_dropHandlers w w.active name
  cases h with
  | failed => exact dropped
  | screen => exact dropped
  | file => exact dropped

/-- Handlers have new numbers. -/
theorem Renewed.length_le : w.handlers.length ≤ w'.handlers.length := by
  have dropped : w.bare.handlers.length = w.handlers.length := length_dropHandlers w w.active
  cases h with
  | failed => exact Nat.le_of_eq dropped.symm
  | screen => simp [addHandler, dropped]
  | file => simp [addHandler, dropped]

theorem Renewed.length_le_of_mem {k : Nat} (hk : k ∈ w'.active) : w.handlers.length ≤ k := by
  have dropped : w.bare.handlers.length = w.handlers.length := length_dropHandlers w w.active
  cases h with
  | failed => cases hk
  | screen =>
    have : k = w.bare.handlers.length := by simpa [addHandler, bare] using hk
    omega
  | file =>
    have : k = w.bare.handlers.length ∨ k = w.bare.handlers.length + 1 := by
      simpa [addHandler, bare] using hk
    omega

end

theorem prepares_iff {s : Step} {other : String} (h : s.prepared? = some other) :
    s.Prepares name ↔ SameLogger name other := by
  simp [Step.Prepares, h]

theorem not_prepares {s : Step} (h : s.prepared? = none) : ¬s.Prepares name := by
  simp [Step.Prepares, h]

/-- A step makes the logger keep its records that it prepares, and no other one. -/
theorem isFinal_run (s : Step) (w : World) (name : String) :
    (s.run w).IsFinal name ↔ w.IsFinal name ∨ s.Prepares name := by
  have got (other : String) (level : Option Level) :
      (w.getLogger other level).IsFinal name ↔ w.IsFinal name ∨ SameLogger name other :=
    ((tells_getLogger other level w).isFinal name).trans (isFinal_equip w name other level)
  cases s with
  | setDebug value => exact (or_iff_left (not_prepares rfl)).symm
  | initLogging filename forceDebug =>
    obtain ⟨debug, hr⟩ := renewed_initLogging filename forceDebug w
    have kept : (w.initLogging filename forceDebug).2.IsFinal name ↔ w.IsFinal name :=
      hr.isFinal name
    exact kept.trans (or_iff_left (not_prepares rfl)).symm
  | getLogger other level =>
    rw [prepares_iff rfl]
    exact got other level
  | log other r =>
    have told := (tells_log other r w).isFinal name
    exact told.trans (or_iff_left (not_prepares rfl)).symm
  | validate document =>
    rw [prepares_iff rfl]
    exact ((tells_validate document w).isFinal name).trans (got "validate" none)
  | compile shell document =>
    rw [prepares_iff rfl]
    exact ((tells_compile shell document w).isFinal name).trans (got "dump" none)
  | dumpFile source shell output =>
    rw [prepares_iff rfl]
    exact ((tells_dumpFile source shell output w).isFinal name).trans (got "dump" none)

theorem isFinal_session (steps : List Step) (w : World) (name : String) :
    (session steps w).IsFinal name ↔ w.IsFinal name ∨ ∃ s ∈ steps, s.Prepares name := by
  induction steps generalizing w with
  | nil => simp [session]
  | cons s steps ih =>
    rw [session_cons, ih, isFinal_run, or_assoc]
    simp only [List.mem_cons, exists_eq_or_imp]

/-! ### The invariant -/

/-- The active handlers: none, a screen, or a screen after a file that can be written to. -/
inductive Outlets (w : World) : Prop
  | none (active : w.active = [])
  | screen {k : Nat} {f : ScreenFormat} (active : w.active = [k])
      (screen : w.handlers[k]? = some (.screen f))
  | both {j k : Nat} {n : Name} {f : ScreenFormat} (active : w.active = [j, k])
      (file : w.handlers[j]? = some (.file n .connected))
      (readable : ∃ data, w.tree.read n = .ok data)
      (screen : w.handlers[k]? = some (.screen f))

/-- The invariant of a session. -/
structure Ordered (w : World) : Prop where
  outlets : Outlets w
  held : ∀ name, isRoot name = false → w.handlersOf name = [] ∨ w.handlersOf name = w.active
  unprepared : ∀ name, ¬w.IsFinal name → w.handlersOf name = []

theorem Outlets.tells (h : Outlets w) (ht : Tells w w') : Outlets w' := by
  cases h with
  | none active => exact .none (ht.active.trans active)
  | screen active screen => exact .screen (ht.active.trans active) (ht.stays _ _ screen id)
  | both active file readable screen =>
    exact .both (ht.active.trans active) (ht.stays _ _ file id) (ht.tree.exists_read readable)
      (ht.stays _ _ screen id)

/-- Active handlers are of different kinds. -/
theorem Outlets.nodup (h : Outlets w) : w.active.Nodup := by
  cases h with
  | none active => simp [active]
  | screen active => simp [active]
  | @both j k n f active file _ screen =>
    have hjk : j ≠ k := by
      rintro rfl
      rw [file] at screen
      cases screen
    simp [active, hjk]

theorem Renewed.outlets (h : Renewed w w') : Outlets w' := by
  cases h with
  | failed => exact .none rfl
  | screen f =>
    refine .screen (f := f) rfl ?_
    simp [addHandler, bare]
  | @file n t f update =>
    refine .both (n := n) (f := f) rfl ?_ (Tree.exists_read_of_update update) ?_
    · simp [addHandler, bare]
    · simp [addHandler, bare]

/-- A logger with a name that is prepared holds the active handlers, no matter what it held. -/
theorem Ordered.handlersOf_equip (h : Ordered w) (level : Option Level)
    (hn : isRoot name = false) : (w.equip name level).handlersOf name = w.active := by
  rw [handlersOf_equip_self]
  obtain he | he := h.held name hn
  · rw [he, List.nil_append]
    exact List.filter_eq_self.2 fun _ _ => rfl
  · rw [he, List.filter_eq_nil_iff.2 fun k hk => by simp [hk], List.append_nil]

theorem lasts_ordered : Lasts Ordered where
  tells ht hw := by
    refine ⟨hw.outlets.tells ht, fun name hn => ?_, fun name hf => ?_⟩
    · rw [ht.handlersOf, ht.active]
      exact hw.held name hn
    · rw [ht.handlersOf]
      exact hw.unprepared name (mt (ht.isFinal name).2 hf)
  equip other level w hw := by
    have outlets : Outlets (w.equip other level) := by
      rw [equip_eq]
      cases hw.outlets with
      | none active => exact .none active
      | screen active screen => exact .screen active screen
      | both active file readable screen => exact .both active file readable screen
    have active : (w.equip other level).active = w.active := by rw [equip_eq]
    refine ⟨outlets, fun name hn => ?_, fun name hf => ?_⟩
    · rw [active]
      by_cases h : SameLogger name other
      · rw [h.handlersOf_eq]
        exact .inr (hw.handlersOf_equip level (h.isRoot_eq ▸ hn))
      · rw [handlersOf_equip_of_not w level h]
        exact hw.held name hn
    · rw [isFinal_equip, not_or] at hf
      rw [handlersOf_equip_of_not w level hf.2]
      exact hw.unprepared name hf.1

/-- Once the program has begun to log anew, no logger with a name has a handler. -/
theorem Ordered.handlersOf_renewed (h : Ordered w) (hr : Renewed w w')
    (hn : isRoot name = false) : w'.handlersOf name = [] := by
  rw [hr.handlersOf_named hn]
  obtain he | he := h.held name hn
  · rw [he, List.filter_nil]
  · rw [he]
    exact List.filter_eq_nil_iff.2 fun k hk => by simp [hk]

theorem ordered_initLogging (filename : String) (forceDebug : Bool) {w : World} (h : Ordered w) :
    Ordered (w.initLogging filename forceDebug).2 := by
  obtain ⟨debug, hr⟩ := renewed_initLogging filename forceDebug w
  have h₁ : Ordered { w with debug := debug } :=
    lasts_ordered.run (s := .setDebug debug) rfl h
  refine ⟨hr.outlets, fun name hn => .inl (h₁.handlersOf_renewed hr hn), fun name hf => ?_⟩
  cases hn : isRoot name with
  | true =>
    rw [hr.handlersOf_root hn]
    exact h₁.unprepared name (mt (hr.isFinal name).2 hf)
  | false => exact h₁.handlersOf_renewed hr hn

/-- A program that has just started, on a terminal or not. -/
def launched (env : Environment) (tree : Tree) (terminal : Bool) : World :=
  { start env tree with terminal }

theorem not_isFinal_launched (env : Environment) (tree : Tree) (terminal : Bool) (name : String) :
    ¬(launched env tree terminal).IsFinal name := by
  cases hn : isRoot name with
  | true =>
    rw [IsFinal, loggerOf_root hn]
    simp [launched, start]
  | false =>
    rw [IsFinal, loggerOf_named hn]
    simp [launched, start]

theorem ordered_launched (env : Environment) (tree : Tree) (terminal : Bool) :
    Ordered (launched env tree terminal) := by
  have none (name : String) : (launched env tree terminal).handlersOf name = [] := by
    cases hn : isRoot name with
    | true =>
      rw [handlersOf, loggerOf_root hn]
      rfl
    | false =>
      rw [handlersOf, loggerOf_named hn]
      rfl
  exact ⟨.none rfl, fun name _ => .inl (none name), fun name _ => none name⟩

/-- The invariant holds in every session. -/
theorem ordered_session (steps : List Step) (env : Environment) (tree : Tree) (terminal : Bool) :
    Ordered (session steps (launched env tree terminal)) :=
  lasts_ordered.always ordered_initLogging steps (ordered_launched env tree terminal)

end ShellCompletion.World
