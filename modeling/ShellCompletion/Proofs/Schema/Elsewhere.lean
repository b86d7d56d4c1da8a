import ShellCompletion.Proofs.Schema.Moved
import ShellCompletion.Proofs.Schema.Places

/-! What is told of a mapping that is checked at some place. Places are written by their keys and
element numbers, and the document as a whole has other names in advice and in warnings. The main
statement says that a check at a place tells what a check at the root does, with all places
written below that place. This is not so of fields with an empty name that have fields of their
own: their mapping is written as if it were the document, but only at the root. -/
namespace ShellCompletion.Schema

open Document

/-! ### What is told -/

/-- The advice about a missing field, up to the place at its end. -/
def adviceStem (field : String) : Option Kind → String
  | some .str => "Add " ++ field ++ ": \"value\" to "
  | some .bool => "Add " ++ field ++ ": true/false to "
  | some .list => "Add " ++ field ++ ": [\"item\"] to "
  | _ => "Add '" ++ field ++ "' to "

/-- Advice that writes the place of a mapping by `write`. -/
def Problem.adviceBy (write : Path → String) : Problem → String
  | .missing field kind inside => adviceStem field kind ++ write inside
  | p => p.suggestion

/-- The text of a warning that writes the place of a mapping by `write`. -/
def Warning.textBy (write : Path → String) (w : Warning) : String :=
  "[" ++ write w.inside ++ "] Unknown option '" ++ w.key ++ "'" ++
    match w.meant with
    | some name => " (did you mean '" ++ name ++ "'?)"
    | none => " - will be ignored"

/-- What is told of findings: the place, the message and the advice of each violation, and the
text of each warning. -/
def Findings.told (f : Findings) : List (String × String × String) × List String :=
  (f.violations.map (·.told), f.warnings.map (·.text))

/-- What is told of findings when the places of violations, those in advice and those in warnings
are written by given functions. -/
def Findings.toldBy (place advised warned : Path → String) (f : Findings) :
    List (String × String × String) × List String :=
  (f.violations.map fun v => (place v.path, v.message, v.problem.adviceBy advised),
    f.warnings.map (·.textBy warned))

/-- The place of a mapping inside one that is called `p`: the root of the latter is `p` itself. -/
def Path.within (p : String) (q : Path) : String :=
  if q.text.isEmpty then p else p ++ "." ++ q.text

theorem Problem.adviceBy_textOr (p : Problem) :
    p.adviceBy (Path.textOr "the top level") = p.suggestion := by
  cases p with
  | missing field kind inside =>
    rcases kind with _ | kind
    · rfl
    · cases kind <;> rfl
  | _ => rfl

theorem Warning.textBy_textOr (w : Warning) : w.textBy (Path.textOr rootName) = w.text := by
  obtain ⟨inside, key, meant⟩ := w
  cases meant <;> simp only [textBy, text, String.append_assoc]

/-! ### Places below another one -/

namespace Path

theorem text_append (q r : Path) : text (q ++ r) = r.foldl step q.text := List.foldl_append

theorem text_single_key (name : String) : text [.key name] = name := by simp [text, step]

/-- The place is written below any other one as at the root, after a point. -/
def Shows (q : Path) : Prop := ∀ p : String, p ≠ "" → text (.key p :: q) = p ++ "." ++ q.text

theorem shows_key (name : String) : Shows [.key name] := by
  intro p hp
  simp [text, step, hp]

theorem shows_key_item (name : String) (i : Nat) :
    Shows [.key name, .item i] ∧ text [.key name, .item i] ≠ "" := by
  have ht (q : Path) : text (q ++ [.item i]) = q.text ++ "[" ++ toString i ++ "]" := by
    rw [text_append, List.foldl_cons, List.foldl_nil]
    rfl
  have hn := ht [.key name]
  rw [text_single_key, List.singleton_append] at hn
  refine ⟨fun p hp => ?_, by simp [hn]⟩
  have hk := ht [.key p, .key name]
  rw [shows_key name p hp, text_single_key] at hk
  simpa only [hn, List.cons_append, List.nil_append, String.append_assoc] using hk

/-- Once something is written, all further steps are written in the same way. -/
theorem Shows.append {q : Path} (h : q.Shows) (hq : q.text ≠ "") (r : Path) :
    (q ++ r).Shows ∧ (q ++ r).text ≠ "" := by
  have ht : (q ++ r).text.toList = q.text.toList ++ r.flatMap Step.chars := by
    rw [text_append, toList_foldl_step hq]
  refine ⟨fun p hp => String.toList_injective ?_, fun hn => ?_⟩
  · rw [← List.cons_append, text_append, h p hp, toList_foldl_step (by simp [hp])]
    simp only [String.toList_append, ht, List.append_assoc]
  · rw [hn] at ht
    exact hq (String.toList_eq_nil_iff.1 (List.append_eq_nil_iff.1 ht.symm).1)

/-- The place of a mapping is the root, or it is written both at the root and below others. -/
def Nests (q : Path) : Prop := q = [] ∨ q.Shows ∧ q.text ≠ ""

theorem Nests.key {q : Path} (h : q.Nests) (name : String) : (q.key name).Shows := by
  rcases h with rfl | ⟨hs, hq⟩
  · exact shows_key name
  · exact (hs.append hq _).1

theorem Nests.key_item {q : Path} (h : q.Nests) (name : String) (i : Nat) :
    ((q.key name).item i).Shows := by
  rcases h with rfl | ⟨hs, hq⟩
  · exact (shows_key_item name i).1
  · rw [Path.key, Path.item, List.append_assoc]
    exact (hs.append hq _).1

/-- The place of a mapping below one that is called `p`, under any other name for the root. -/
theorem Nests.textOr_key {q : Path} (h : q.Nests) {p : String} (hp : p ≠ "") (root : String) :
    textOr root (.key p :: q) = q.within p := by
  rcases h with rfl | ⟨hs, hq⟩
  · simp [textOr, within, text_single_key, hp, text_nil]
  · simp [textOr, within, hs p hp, hq]

end Path

/-! ### Checks below another place -/

theorem Problem.message_moved (problem : Problem) (outer : Path) :
    (problem.moved outer).message = problem.message := by
  cases problem <;> rfl

theorem Problem.suggestion_moved {problem : Problem}
    (h : ∀ field kind inside, problem = .missing field kind inside → inside.Nests) {p : String}
    (hp : p ≠ "") : (problem.moved [.key p]).suggestion = problem.adviceBy (Path.within p) := by
  rw [← adviceBy_textOr]
  cases problem with
  | missing field kind inside =>
    have hi := (h field kind inside rfl).textOr_key hp "the top level"
    simp only [moved, adviceBy, List.singleton_append, hi]
  | _ => rfl

theorem Violation.told_moved {v : Violation} (hs : v.path.Shows)
    (h : ∀ field kind inside, v.problem = .missing field kind inside → inside.Nests) {p : String}
    (hp : p ≠ "") : (v.moved [.key p]).told =
      (p ++ "." ++ v.path.text, v.message, v.problem.adviceBy (Path.within p)) := by
  have hne : (v.moved [.key p]).path ≠ [] := List.cons_ne_nil _ _
  have hplace : (v.moved [.key p]).place = p ++ "." ++ v.path.text := by
    rw [place, if_neg hne, ← hs p hp]
    rfl
  rw [told, hplace, message, message, suggestion, moved, Problem.message_moved,
    Problem.suggestion_moved h hp]

theorem Warning.text_moved {w : Warning} (h : w.inside.Nests) {p : String} (hp : p ≠ "") :
    (w.moved [.key p]).text = w.textBy (Path.within p) := by
  have hi := h.textOr_key hp rootName
  rw [← textBy_textOr]
  simp only [textBy, moved, List.singleton_append, hi]

/-- No mapping under the empty key of the root is checked: its place would be written as the
root's. -/
def RootAlone (fields : List Field) (es : Entries) : Prop :=
  ∀ f ∈ fields, ∀ inner gs, f.type = .mapOf inner → es.get f.name = .map gs → f.name ≠ ""

variable {fields last : List Field} {es gs : Entries} {p : String}

theorem Leads.nests {q : Path} (h : Leads fields es q last gs) (hr : RootAlone fields es) :
    q.Nests := by
  cases h with
  | here => exact .inl rfl
  | @map _ inner _ f name _ fs _ q mem named type value rest =>
    subst named
    have hn := hr f mem inner fs type value
    exact .inr ((Path.shows_key f.name).append (by rwa [Path.text_single_key]) q)
  | @item _ inner _ f name _ fs _ q xs i =>
    have hs := Path.shows_key_item name i
    exact .inr (hs.1.append hs.2 q)

theorem nests_of_mem_visits (hr : RootAlone fields es) {m : Visit} (h : m ∈ visits fields [] es) :
    m.place.Nests := (leads_of_mem_visits h).nests hr

/-- The places that a violation tells: its own, and that of a mapping without a required field. -/
theorem shows_of_mem_violations (hr : RootAlone fields es) {v : Violation}
    (h : v ∈ (checkMap fields [] es).violations) : v.path ≠ [] ∧ v.path.Shows ∧
      ∀ field kind inside, v.problem = .missing field kind inside → inside.Nests := by
  obtain ⟨m, hm, f, _, hv⟩ := exists_reports_of_mem_checkMap h
  have ht := nests_of_mem_visits hr hm
  refine ⟨?_, ?_, ?_⟩
  · rcases hv.path_eq with h | ⟨i, h⟩ <;> simp [h, Path.key, Path.item]
  · rcases hv.path_eq with h | ⟨i, h⟩ <;> rw [h]
    · exact ht.key f.name
    · exact ht.key_item f.name i
  · cases hv with
    | missing null required =>
      rintro _ _ _ ⟨⟩
      exact ht
    | _ => nofun

theorem nests_of_mem_warnings (hr : RootAlone fields es) {w : Warning}
    (h : w ∈ (checkMap fields [] es).warnings) : w.inside.Nests := by
  rw [checkMap_warnings_eq, List.mem_flatMap] at h
  obtain ⟨m, hm, h⟩ := h
  obtain ⟨e, _, he⟩ := List.mem_filterMap.1 h
  dsimp only at he
  split at he
  · cases he
  · cases he
    exact nests_of_mem_visits hr hm

theorem told_eq_toldBy (hr : RootAlone fields es) : (checkMap fields [] es).told =
    (checkMap fields [] es).toldBy Path.text (Path.textOr "the top level") (Path.textOr rootName) := by
  refine Prod.ext (List.map_congr_left fun v hv => ?_) (List.map_congr_left fun w _ => ?_)
  · rw [Violation.told, Violation.place, if_neg (shows_of_mem_violations hr hv).1,
      Problem.adviceBy_textOr]
    rfl
  · rw [Warning.textBy_textOr]

theorem told_moved_eq_toldBy (hr : RootAlone fields es) (hp : p ≠ "") :
    ((checkMap fields [] es).moved [.key p]).told =
      (checkMap fields [] es).toldBy (fun q => p ++ "." ++ q.text) (Path.within p)
        (Path.within p) := by
  rw [Findings.told, Findings.moved, List.map_map, List.map_map]
  refine Prod.ext (List.map_congr_left fun v hv => ?_) (List.map_congr_left fun w hw => ?_)
  · obtain ⟨_, hs, hm⟩ := shows_of_mem_violations hr hv
    exact Violation.told_moved hs hm hp
  · exact Warning.text_moved (nests_of_mem_warnings hr hw) hp

/-- A check of a mapping at a place `p` finds the same as one at the root, in the same order and
with the same messages, or comes upon the same fault. All places are written below `p`: those of
violations after `p` and a point, and those of mappings likewise, where the root is `p` itself. -/
theorem told_elsewhere (hr : RootAlone fields es) (hp : p ≠ "") :
    (check fields (.ofText "") es).map Findings.told = (check fields [] es).map (Findings.toldBy
        Path.text (Path.textOr "the top level") (Path.textOr rootName)) ∧
      (check fields (.ofText p) es).map Findings.told = (check fields [] es).map (Findings.toldBy
        (fun q => p ++ "." ++ q.text) (Path.within p) (Path.within p)) := by
  have hr0 : Path.ofText "" = [] := rfl
  have hrp : Path.ofText p = [.key p] ++ [] := by simp [Path.ofText, hp]
  rw [hr0, hrp, check_append]
  cases hc : check fields [] es with
  | error fault => exact ⟨rfl, rfl⟩
  | ok found =>
    obtain rfl : checkMap fields [] es = found := by
      rw [check] at hc
      split at hc
      · cases hc
      · exact Except.ok.inj hc
    exact ⟨congrArg Except.ok (told_eq_toldBy hr), congrArg Except.ok (told_moved_eq_toldBy hr hp)⟩

/-- A required field of a mapping in a list, an element of another type and two unknown keys, at
the root and at a place. -/
theorem told_elsewhere_nested :
    let fields : List Field := [
      { name := "opts", type := .listOfMaps [{ name := "name", required := true }] },
      { name := "flags", type := .listOf .str }]
    let es : Entries := [(.str "opts", .list [.map [(.str "nmae", .str "-a")]]),
      (.str "flags", .list [.int 1]), (.str "x", .null)]
    RootAlone fields es ∧
      (check fields (.ofText "") es).map Findings.told = .ok (
        [("opts[0].name", "Missing required field", "Add name: \"value\" to opts[0]"),
          ("flags[0]", "Expected str, got int", "")],
        ["[opts[0]] Unknown option 'nmae' (did you mean 'name'?)",
          "[<document>] Unknown option 'x' - will be ignored"]) ∧
      (check fields (.ofText "a.b") es).map Findings.told = .ok (
        [("a.b.opts[0].name", "Missing required field", "Add name: \"value\" to a.b.opts[0]"),
          ("a.b.flags[0]", "Expected str, got int", "")],
        ["[a.b.opts[0]] Unknown option 'nmae' (did you mean 'name'?)",
          "[a.b] Unknown option 'x' - will be ignored"]) := by
  intro fields es
  have hn : ∀ f ∈ fields, f.name ≠ "" := by decide
  have hr : RootAlone fields es := fun f hf _ _ _ _ => hn f hf
  obtain ⟨h0, hp⟩ := told_elsewhere hr (show "a.b" ≠ "" by decide)
  exact ⟨hr, h0.trans (by decide +kernel), hp.trans (by decide +kernel)⟩

/-- The mapping under an empty key is written as the root there, but not below another place. -/
theorem told_unnamed :
    let fields : List Field := [
      { name := "", type := .mapOf [{ name := "x", type := .one (.basic .int) }] }]
    let es : Entries := [(.str "", .map [(.str "x", .str "s")])]
    let message := "Expected int, got str"
    (check fields (.ofText "") es).map Findings.told = .ok ([("x", message, "")], []) ∧
      (check fields (.ofText "p") es).map Findings.told = .ok ([("p..x", message, "")], []) ∧
      (check fields (.ofText "p") es).map Findings.told ≠ (check fields [] es).map (Findings.toldBy
        (fun q => "p" ++ "." ++ q.text) (Path.within "p") (Path.within "p")) := by
  intro fields es message
  have hp : (check fields (.ofText "p") es).map Findings.told = .ok ([("p..x", message, "")], []) := by
    decide +kernel
  have hq : (check fields [] es).map (Findings.toldBy (fun q => "p" ++ "." ++ q.text)
      (Path.within "p") (Path.within "p")) = .ok ([("p.x", message, "")], []) := by
    decide +kernel
  refine ⟨by decide +kernel, hp, fun h => ?_⟩
  rw [hp, hq] at h
  exact absurd (Except.ok.inj h) (by decide +kernel)

end ShellCompletion.Schema
