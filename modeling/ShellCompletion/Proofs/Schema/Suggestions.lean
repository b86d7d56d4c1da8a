import ShellCompletion.Proofs.Text.Closest
import ShellCompletion.Schema.Check

/-! What is suggested for an unknown key. The names of the fields of a mapping are a set, of which
any listing may be looked through. The main statement says that the suggestion is the best of the
names, so that neither it nor the warnings of a mapping tell in which order and how often the
names were listed. -/
namespace ShellCompletion.Schema

open Document Text

/-- Warnings for the keys of a mapping that are none of some names, as these are listed. -/
def unknownAmong (names : List String) (path : Path) (es : Entries) : List Warning :=
  es.filterMap fun (k, _) =>
    if names.any fun name => k.isKey name then none
    else some ⟨path, k.plainText, (closest k.plainText names).filter (!·.isEmpty)⟩

theorem unknownKeys_eq_unknownAmong (fields : List Field) (path : Path) (es : Entries) :
    unknownKeys fields path es = unknownAmong (fields.map (·.name)) path es := by
  simp only [unknownKeys, unknownAmong, meantField?, List.any_map]
  rfl

theorem unknownAmong_eq_of_mem_iff {known listed : List String} (h : ∀ w, w ∈ listed ↔ w ∈ known)
    (path : Path) (es : Entries) : unknownAmong listed path es = unknownAmong known path es := by
  refine List.filterMap_congr fun e _ => ?_
  have ha : (listed.any fun name => e.1.isKey name) = known.any fun name => e.1.isKey name := by
    rw [Bool.eq_iff_iff, List.any_eq_true, List.any_eq_true]
    simp only [h]
  dsimp only
  rw [ha, closest_eq_of_mem_iff h]

/-- The suggestion for a key is the name that is most alike, of equally alike ones the greatest,
and there is none just when no name is alike by six tenths. It is the same for all listings of the
names, and so are the warnings for a mapping. How alike a name is, is the share of the characters
that are matched along the longest common runs. -/
theorem suggestions_optimal (key : String) (known : List String) :
    (∀ w, ∃ n, (∀ k, Matching (tooUsual key.toList) w.toList key.toList k ↔ k = n) ∧
      ratio key w = (Similarity.ofMatched n w.toList key.toList).value) ∧
    (closest key known = none ↔ ∀ w ∈ known, ratio key w < 3 / 5) ∧
    (∀ w, closest key known = some w ↔
      w ∈ known ∧ 3 / 5 ≤ ratio key w ∧ ∀ v ∈ known, toLex (ratio key v, v) ≤ toLex (ratio key w, w)) ∧
    (∀ listed : List String, (∀ w, w ∈ listed ↔ w ∈ known) →
      closest key listed = closest key known) ∧
    ∀ (fields : List Field) (path : Path) (es : Entries),
      (∀ w, w ∈ known ↔ ∃ f ∈ fields, f.name = w) →
        (unknownAmong known path es).map (·.text) = (unknownKeys fields path es).map (·.text) := by
  refine ⟨ratio_eq_of_matching key, closest_eq_none_iff, fun w => closest_eq_some_iff,
    fun listed h => closest_eq_of_mem_iff h key, fun fields path es h => ?_⟩
  rw [unknownKeys_eq_unknownAmong, unknownAmong_eq_of_mem_iff (fun w => ?_)]
  rw [h w, List.mem_map]

/-- Two names that are equally alike, in either order and with one of them repeated. -/
theorem suggestions_optimal_tied :
    let known := ["abd", "abe"]
    let listed := ["abe", "abd", "abe"]
    let fields : List Field := [{ name := "abe" }, { name := "abd" }]
    let warned := ["[<document>] Unknown option 'abc' (did you mean 'abe'?)"]
    closest "abc" known = some "abe" ∧ closest "abc" listed = closest "abc" known ∧
      (unknownAmong known [] [(.str "abc", .null)]).map (·.text) = warned ∧
      (unknownKeys fields [] [(.str "abc", .null)]).map (·.text) = warned := by
  intro known listed fields warned
  obtain ⟨_, _, _, hl, hf⟩ := suggestions_optimal "abc" known
  have hk := hf fields [] [(.str "abc", .null)] (by simp [known, fields, or_comm, eq_comm])
  have hw : (unknownKeys fields [] [(.str "abc", .null)]).map (·.text) = warned := by decide +kernel
  refine ⟨by decide +kernel, hl listed (by simp [known, listed]), hk.trans hw, hw⟩

end ShellCompletion.Schema
