import ShellCompletion.Proofs.Interface.Unread
import ShellCompletion.Proofs.Schema.Distinct
import ShellCompletion.Proofs.Schema.Located

/-! Violations of a document by what is told of them. The main statement says that no violation is
told twice, and that the place that is told can be read and followed to something in the document,
unless the document is no mapping or has no name. -/
namespace ShellCompletion.Interface

open Document Schema

/-- Something that can be pointed at: an element of a list, or a value that is not null. -/
def Points (document : Value) (place : String) : Prop :=
  ∃ p x, Path.read? place = some p ∧ follow? document p = some x ∧
    (x.isNull = false ∨ ∃ q i, p = Path.item q i)

theorem areWords_documentFields : areWords documentFields = true := by decide

theorem name_of_required : ∀ f ∈ documentFields, f.required = true → f.name = "name" := by decide

theorem optional_inner :
    ∀ f ∈ documentFields, allMeet (fun g => !g.required) f.inner = true := by decide

/-- Of all fields only the name of the document is required. -/
theorem root_of_required {es : Entries} {m : Visit} (hm : m ∈ visits documentFields [] es)
    {f : Field} (hf : f ∈ m.fields) (hr : f.required = true) :
    m = ⟨documentFields, [], es⟩ ∧ f.name = "name" := by
  have hl := leads_of_mem_visits hm
  obtain ⟨last, place, gs⟩ := m
  dsimp only at hl hf
  have ho {g : Field} (hg : g ∈ documentFields) {inner : List Field} {fs : Entries} {p : Path}
      (ht : g.type = .mapOf inner ∨ g.type = .listOfMaps inner)
      (hl : Leads inner fs p last gs) : False := by
    have hi := hl.allMeet (Field.inner_eq ht ▸ optional_inner g hg)
    have hn := test_of_mem_of_allMeet hi hf
    simp [hr] at hn
  cases hl with
  | here => exact ⟨rfl, name_of_required f hf hr⟩
  | map mem named type value rest => exact (ho mem (.inl type) rest).elim
  | item mem named type value element rest => exact (ho mem (.inr type) rest).elim

theorem place_eq_text {v : Violation} (h : v.path.IsPlain) : v.place = v.path.text := by
  obtain ⟨⟨name, q, hp⟩, _⟩ := h
  rw [Violation.place, hp, if_neg (List.cons_ne_nil _ _)]

variable {es : Entries}

theorem isPlain_of_mem_violations {v : Violation} (h : v ∈ violations (.map es)) :
    v.path.IsPlain := by
  rw [violations_map] at h
  obtain ⟨m, hm, f, hf, hr⟩ := exists_reports_of_mem_checkMap h
  exact isPlain_of_reports areWords_documentFields hm hf hr

theorem nodup_told (es : Entries) : ((violations (.map es)).map (·.told)).Nodup := by
  have hr : ((violations (.map es)).map (·.report)).Nodup := by
    rw [violations_map]
    exact nodup_report_checkMap lookByName_documentFields [] es
  -- the place that is told tells the path, as the path is plain
  refine List.Nodup.map_on (fun v hv w hw h => ?_) (.of_map _ hr)
  have hp : v.path.text = w.path.text := by
    rw [← place_eq_text (isPlain_of_mem_violations hv),
      ← place_eq_text (isPlain_of_mem_violations hw)]
    exact congrArg Prod.fst h
  refine List.inj_on_of_nodup_map hr hv hw (Prod.ext ?_ (congrArg (·.2.1) h))
  exact Path.text_injective (isPlain_of_mem_violations hv) (isPlain_of_mem_violations hw) hp

/-- A violation points at something, or says that the document has no name. -/
theorem points_or_missing {v : Violation} (h : v ∈ violations (.map es)) :
    Points (.map es) v.place ∨ (v.place = "name" ∧ v.message = "Missing required field" ∧
      (es.get "name").isNull = true) := by
  have hp := isPlain_of_mem_violations h
  rw [violations_map] at h
  obtain ⟨m, hm, f, hf, hr⟩ := exists_reports_of_mem_checkMap h
  rcases follow?_of_reports hm hr with ⟨hn, hq, rfl⟩ | ⟨x, hx, hv⟩
  · obtain ⟨rfl, hname⟩ := root_of_required hm hf hq
    rw [hname] at hn ⊢
    exact .inr ⟨rfl, rfl, hn⟩
  · refine .inl ⟨v.path, x, ?_, hx, hv⟩
    rw [place_eq_text hp, Path.read?_text hp]

/-- No two violations of a rejected document are told alike. Those of a mapping are at places that
can be followed to an element of a list or to a value that is not null, apart from the name of the
document when there is none; what is no mapping has one violation, at the document as a whole. -/
theorem violations_located {document : Value} {vs : List Violation}
    (h : (validate document).1 = .rejected vs) :
    (vs.map (·.told)).Nodup ∧
      (∀ es : Entries, document = .map es → ∀ v ∈ vs, v.place ≠ rootName ∧
        (Points document v.place ∨ (v.place = "name" ∧ v.message = "Missing required field" ∧
          (es.get "name").isNull = true))) ∧
      (document.isMap = false → ∃ v, vs = [v] ∧ v.place = rootName) := by
  have hvs : violations document = vs := by rw [violations, h]
  have hroot : Path.read? rootName = none := by decide
  obtain ⟨es, rfl⟩ | ⟨hn, hv⟩ := eq_map_or_validate_eq document
  · rw [← hvs]
    refine ⟨nodup_told es, ?_, fun h => by cases h⟩
    rintro _ ⟨⟩ v hv
    have hp := points_or_missing hv
    refine ⟨fun hr => ?_, hp⟩
    rw [hr] at hp
    rcases hp with ⟨p, x, hp, _⟩ | ⟨hp, _⟩
    · rw [hroot] at hp
      cases hp
    · exact absurd hp (by decide)
  · rw [hv] at h
    cases h
    exact ⟨by simp, fun es h => absurd h (hn es), fun _ => ⟨_, rfl, rfl⟩⟩

/-- Two empty flags of one option, two arguments that repeat an index, and no name: five reports,
all different, and the place of the second flag's list is read and followed to that list. -/
theorem violations_located_repeated :
    let flags : List Value := [.str "", .str "-a", .str ""]
    let document : Value := .map [(.str "opts", .list [.map [(.str "short", .list flags)]]),
      (.str "args", .list (List.replicate 3 (.map [(.str "index", .int 1)])))]
    ((violations document).map (·.told)).Nodup ∧ (violations document).length = 5 ∧
      (violations document).map Violation.place =
        ["name", "opts[0].short", "opts[0].short", "args", "args"] ∧
      Path.read? "opts[0].short" = some [.key "opts", .item 0, .key "short"] ∧
      follow? document [.key "opts", .item 0, .key "short"] = some (.list flags) := by
  intro flags document
  have hv : (validate document).1 = .rejected (violations document) := by decide +kernel
  exact ⟨(violations_located hv).1, by decide +kernel, by decide +kernel, by decide, rfl⟩

end ShellCompletion.Interface
