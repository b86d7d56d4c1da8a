import ShellCompletion.Proofs.Files.Keeping
import ShellCompletion.Proofs.Logging.Routing

/-! What telling a record changes. A handler prints a line, or adds one to its file, or fails at
that, and a logger may be made on the way. The main statements say that no logger gets or loses a
handler and that what was there in the tree is kept, of a record given to any logger, and what a
record that goes to screens only changes besides: nothing but what has been printed. -/
namespace ShellCompletion

open Log Files

/-- Is a handler one for a file that is closed? -/
def Handler.IsClosed : Handler → Prop
  | .file _ .closed => True
  | _ => False

namespace World

variable {w w' w'' : World}

/-- What is the same after records have been told, and after files have been changed by other
steps of a program. -/
structure Tells (w w' : World) : Prop where
  environment : w'.environment = w.environment
  tree : w.tree.Keeps w'.tree
  terminal : w'.terminal = w.terminal
  output : w'.output = w.output
  active : w'.active = w.active
  handlersOf : ∀ name, w'.handlersOf name = w.handlersOf name
  isFinal : ∀ name, w'.IsFinal name ↔ w.IsFinal name
  length : w'.handlers.length = w.handlers.length
  stays : ∀ (k : Nat) (h : Handler), w.handlers[k]? = some h → ¬h.IsClosed →
    w'.handlers[k]? = some h

theorem tells_self (w : World) : Tells w w :=
  ⟨rfl, Tree.keeps_self _, rfl, rfl, rfl, fun _ => rfl, fun _ => Iff.rfl, rfl, fun _ _ h _ => h⟩

theorem Tells.trans (h : Tells w w') (h' : Tells w' w'') : Tells w w'' where
  environment := h'.environment.trans h.environment
  tree := h.tree.trans h'.tree
  terminal := h'.terminal.trans h.terminal
  output := h'.output.trans h.output
  active := h'.active.trans h.active
  handlersOf name := (h'.handlersOf name).trans (h.handlersOf name)
  isFinal name := (h'.isFinal name).trans (h.isFinal name)
  length := h'.length.trans h.length
  stays k handler hk hc := h'.stays k handler (h.stays k handler hk hc) hc

theorem tells_makeLogger (w : World) (name : String) : Tells w (w.makeLogger name) := by
  have hh := handlersOf_makeLogger w name
  have hf := isFinal_makeLogger w name
  rw [makeLogger_eq] at hh hf ⊢
  exact ⟨rfl, Tree.keeps_self _, rfl, rfl, rfl, hh, hf, rfl, fun _ _ h _ => h⟩

theorem tells_printError (w : World) (text : String) : Tells w (w.printError text) :=
  ⟨rfl, Tree.keeps_self _, rfl, rfl, rfl, fun _ => rfl, fun _ => Iff.rfl, rfl, fun _ _ h _ => h⟩

theorem tells_tree {t : Tree} (h : w.tree.Keeps t) : Tells w { w with tree := t } :=
  ⟨rfl, h, rfl, rfl, rfl, fun _ => rfl, fun _ => Iff.rfl, rfl, fun _ _ h _ => h⟩

/-- Connecting a handler for a file does not show in the other ones. -/
theorem tells_connect {k : Nat} {n : Name} {s : Stream} (hk : w.handlers[k]? = some (.file n s))
    (hs : s ≠ .lost) : Tells w (w.setHandler k (.file n .connected)) := by
  refine ⟨rfl, Tree.keeps_self _, rfl, rfl, rfl, fun _ => rfl, fun _ => Iff.rfl,
    List.length_set .., fun j h hj hc => ?_⟩
  simp only [setHandler, List.getElem?_set]
  split
  · next hkj =>
    subst hkj
    rw [hk, Option.some.injEq] at hj
    subst hj
    -- a file that is neither lost nor closed is connected already
    cases s with
    | closed => exact absurd trivial hc
    | connected => exact if_pos (List.getElem?_eq_some_iff.1 hk).1
    | lost => exact absurd rfl hs
  · exact hj

/-! ### One handler -/

/-- What a handler does with a record. -/
inductive Handled (e : Entry) (w : World) (k : Nat) : Option Fault × World → Prop
  /-- There is no such handler, or its file is lost. -/
  | ignored : Handled e w k (none, w)
  | printed {f : ScreenFormat} (screen : w.handlers[k]? = some (.screen f)) :
      Handled e w k (none, w.printError (f.text e))
  | written {n : Name} {s : Stream} {t : Tree} (file : w.handlers[k]? = some (.file n s))
      (found : s ≠ .lost)
      (update : w.tree.update n (· ++ Text.encodeUtf8 (fileText e ++ "\n")) = .ok t) :
      Handled e w k (none, { w with tree := t }.setHandler k (.file n .connected))
  | failed {n : Name} {s : Stream} {f : Fault} (file : w.handlers[k]? = some (.file n s))
      (update : w.tree.update n (· ++ Text.encodeUtf8 (fileText e ++ "\n")) = .error f) :
      Handled e w k (some f, w)

theorem handled_write {e : Entry} {k : Nat} {n : Name} {s : Stream}
    (hk : w.handlers[k]? = some (.file n s)) (hs : s ≠ .lost) :
    Handled e w k (match w.appendLine n (fileText e) with
      | (none, w) => (none, w.setHandler k (.file n .connected))
      | (some f, w) => (some f, w)) := by
  unfold appendLine
  cases hu : w.tree.update n (· ++ Text.encodeUtf8 (fileText e ++ "\n")) with
  | ok t => exact .written hk hs hu
  | error f => exact .failed hk hu

theorem handled_handle (e : Entry) (w : World) (k : Nat) : Handled e w k (w.handle e k) := by
  unfold handle
  cases hk : w.handlers[k]? with
  | none => exact .ignored
  | some h =>
    cases h with
    | screen f => exact .printed hk
    | file n s =>
      cases s with
      | lost => exact .ignored
      | closed => exact handled_write hk (by simp)
      | connected => exact handled_write hk (by simp)

theorem Handled.tells {e : Entry} {k : Nat} {attempt : Option Fault × World}
    (h : Handled e w k attempt) : Tells w attempt.2 := by
  cases h with
  | ignored => exact tells_self w
  | printed => exact tells_printError w _
  | written file found update =>
    exact (tells_tree (Tree.keeps_of_update update)).trans (tells_connect file found)
  | failed => exact tells_self w

/-! ### Telling -/

theorem tells_handleAll (e : Entry) (w : World) (ks : List Nat) :
    Tells w (w.handleAll e ks).2 := by
  induction ks generalizing w with
  | nil => exact tells_self w
  | cons k ks ih =>
    have first := (handled_handle e w k).tells
    unfold handleAll
    split
    · next h =>
      rw [h] at first
      exact first.trans (ih _)
    · next h =>
      rw [h] at first
      exact first

theorem tells_lastResort (e : Entry) (w : World) : Tells w (w.lastResort e) := by
  unfold lastResort
  split
  · exact tells_printError w _
  · exact tells_self w

/-- Telling a record gives no logger a handler and takes none from it, whatever becomes of the
record. -/
theorem tells_tell (name : String) (r : Record) (w : World) : Tells w (w.tell name r).2 := by
  have made := tells_makeLogger w name
  unfold tell
  simp only
  split
  · exact made
  · split
    · exact made.trans (tells_lastResort _ _)
    · exact made.trans (tells_handleAll _ _ _)

theorem tells_log (name : String) (r : Record) (w : World) : Tells w (w.log name r) :=
  tells_tell name r w

theorem tells_getLogger (name : String) (level : Option Level) (w : World) :
    Tells (w.equip name level) (w.getLogger name level) := by
  rw [getLogger, prepareLogger_eq]
  exact tells_tell ..

/-! ### Screens -/

/-- All handlers are for screens. -/
def OnScreens (w : World) : Prop := ∀ h ∈ w.handlers, ∃ f, h = .screen f

theorem OnScreens.not_isClosed (h : w.OnScreens) {handler : Handler} (hm : handler ∈ w.handlers) :
    ¬handler.IsClosed := by
  obtain ⟨f, rfl⟩ := h handler hm
  exact id

/-- What stays keeps all handlers where none is closed. -/
theorem Tells.handlers_eq (h : Tells w w') (hs : w.OnScreens) : w'.handlers = w.handlers := by
  apply List.ext_getElem?
  intro k
  cases hk : w.handlers[k]? with
  | some handler => exact h.stays k handler hk (hs.not_isClosed (List.mem_of_getElem? hk))
  | none =>
    rw [List.getElem?_eq_none_iff] at hk ⊢
    exact h.length ▸ hk

theorem Tells.onScreens (h : Tells w w') (hs : w.OnScreens) : w'.OnScreens := by
  rw [OnScreens, h.handlers_eq hs]
  exact hs

theorem tree_handleAll (hs : w.OnScreens) (e : Entry) (ks : List Nat) :
    (w.handleAll e ks).2.tree = w.tree := by
  induction ks generalizing w with
  | nil => rfl
  | cons k ks ih =>
    have file {n : Name} {s : Stream} : w.handlers[k]? ≠ some (.file n s) := by
      intro hk
      obtain ⟨f, hf⟩ := hs _ (List.mem_of_getElem? hk)
      cases hf
    have first := handled_handle e w k
    unfold handleAll
    generalize w.handle e k = attempt at first ⊢
    cases first with
    | ignored => exact ih hs
    | printed => exact ih ((tells_printError w _).onScreens hs)
    | written h => exact absurd h file
    | failed h => exact absurd h file

theorem tree_lastResort (e : Entry) (w : World) : (w.lastResort e).tree = w.tree := by
  unfold lastResort
  split <;> rfl

/-- A record that can only reach screens leaves the files alone. -/
theorem tree_log (hs : w.OnScreens) (name : String) (r : Record) :
    (w.log name r).tree = w.tree := by
  have made : (w.makeLogger name).tree = w.tree := by rw [makeLogger_eq]
  unfold log tell
  simp only
  split
  · exact made
  · split
    · exact (tree_lastResort ..).trans made
    · exact (tree_handleAll ((tells_makeLogger w name).onScreens hs) _ _).trans made

end World

end ShellCompletion
