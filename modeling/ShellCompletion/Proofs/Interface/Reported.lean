import ShellCompletion.Proofs.Interface.Unread
import ShellCompletion.Proofs.Schema.Complaints

/-! Which faults of lists and mappings are reported: an index that an earlier argument declares,
an empty flag, and a source of candidates that is both built in and a command. The main statement
says that each of them is reported just when the list or the mapping has no fault inside it. So
faults elsewhere hide nothing, but one bad argument hides that two others share an index, one flag
that is no text hides all empty flags beside it, and a bad half of a source hides that it has
two. -/
namespace ShellCompletion.Interface

open Document Schema Grammar

variable {es : Entries}

/-- The lists of flags of a document, with their places. -/
inductive FlagsAt (es : Entries) : Path → List Value → Prop
  | option {xs fs : List Value} {i : Nat} {os : Entries} (options : es.get "opts" = .list xs)
      (element : xs[i]? = some (.map os)) (flags : os.get "short" = .list fs) :
      FlagsAt es [.key "opts", .item i, .key "short"] fs
  | slot {xs fs : List Value} {i : Nat} {ss ls : Entries} (slots : es.get "args" = .list xs)
      (element : xs[i]? = some (.map ss)) (lift : ss.get "skip_if" = .map ls)
      (flags : ls.get "has_opt_any" = .list fs) :
      FlagsAt es [.key "args", .item i, .key "skip_if", .key "has_opt_any"] fs

/-- The sources of candidates of a document, with their places. -/
inductive SourceAt (es : Entries) : Path → Entries → Prop
  | option {xs : List Value} {i : Nat} {os vs cs : Entries} (options : es.get "opts" = .list xs)
      (element : xs[i]? = some (.map os)) (value : os.get "value" = .map vs)
      (source : vs.get "comp" = .map cs) :
      SourceAt es [.key "opts", .item i, .key "value", .key "comp"] cs
  | slot {xs : List Value} {i : Nat} {ss cs : Entries} (slots : es.get "args" = .list xs)
      (element : xs[i]? = some (.map ss)) (source : ss.get "comp" = .map cs) :
      SourceAt es [.key "args", .item i, .key "comp"] cs

/-- A list of flags is the value of a field that takes texts and refuses empty ones. -/
theorem FlagsAt.exists_visit {p : Path} {fs : List Value} (h : FlagsAt es p fs) :
    ∃ m ∈ visits documentFields [] es, ∃ name,
      { name, type := .listOf .str, rule := some .noEmptyElements } ∈ m.fields ∧
        p = m.place.key name ∧ m.entries.get name = .list fs := by
  cases h with
  | @option xs fs i os options element flags =>
    have hl : Leads documentFields es [.key "opts", .item i] optionFields os :=
      .item (f := documentFields[3]) (List.getElem_mem _) rfl rfl options element (.here ..)
    exact ⟨⟨_, _, _⟩, mem_visits_iff.2 ⟨_, rfl, hl⟩, "short", List.mem_cons_self, rfl, flags⟩
  | @slot xs fs i ss ls slots element lift flags =>
    have hl : Leads documentFields es [.key "args", .item i, .key "skip_if"]
        [{ name := "has_opt_any", type := .listOf .str, rule := some .noEmptyElements }] ls :=
      .item (f := documentFields[4]) (List.getElem_mem _) rfl rfl slots element
        (.map (f := slotFields[3]) (List.getElem_mem _) rfl rfl lift (.here ..))
    exact ⟨⟨_, _, _⟩, mem_visits_iff.2 ⟨_, rfl, hl⟩, "has_opt_any", List.mem_cons_self, rfl, flags⟩

theorem SourceAt.exists_visit {p : Path} {cs : Entries} (h : SourceAt es p cs) :
    ∃ m ∈ visits documentFields [] es, sourceField ∈ m.fields ∧ p = m.place.key "comp" ∧
      m.entries.get "comp" = .map cs := by
  cases h with
  | @option xs i os vs cs options element value source =>
    have hl : Leads documentFields es [.key "opts", .item i, .key "value"]
        [{ name := "name" }, sourceField] vs :=
      .item (f := documentFields[3]) (List.getElem_mem _) rfl rfl options element
        (.map (f := optionFields[2]) (List.getElem_mem _) rfl rfl value (.here ..))
    exact ⟨⟨_, _, _⟩, mem_visits_iff.2 ⟨_, rfl, hl⟩, by simp, rfl, source⟩
  | @slot xs i ss cs slots element source =>
    have hl : Leads documentFields es [.key "args", .item i] slotFields ss :=
      .item (f := documentFields[4]) (List.getElem_mem _) rfl rfl slots element (.here ..)
    exact ⟨⟨_, _, _⟩, mem_visits_iff.2 ⟨_, rfl, hl⟩, by simp, rfl, source⟩

/-- What a rule complains of is reported just when the value of its field is of the right type. -/
theorem broken_mem_violations_iff {m : Visit} (hm : m ∈ visits documentFields [] es) {f : Field}
    (hf : f ∈ m.fields) {v : Value} (hv : m.entries.get f.name = v) (hn : v.isNull = false)
    {r : Rule} (hr : f.rule = some r) {c : Complaint} (hc : c ∈ r.complaints v) :
    ⟨m.place.key f.name, .broken c⟩ ∈ violations (.map es) ↔ f.Types v := by
  subst hv
  rw [violations_map, broken_mem_iff lookByName_documentFields hm hf hn]
  exact and_iff_left ⟨r, hr, hc⟩

/-- A repeated index is reported just when all arguments are in the grammar. -/
theorem repeatedIndex_mem_violations_iff {xs : List Value} (hxs : es.get "args" = .list xs)
    {i j : Nat} {k : SlotKey} (hij : i < j) (hi : indexAt? xs i = some k)
    (first : ∀ l < i, indexAt? xs l ≠ some k) (hj : indexAt? xs j = some k) :
    ⟨[.key "args"], .broken (.repeatedIndex j k.literal i)⟩ ∈ violations (.map es) ↔
      ∀ x ∈ xs, MapOf SlotEntries x := by
  have hc : .repeatedIndex j k.literal i ∈ repeatedIndices [] 0 xs :=
    repeatedIndex_mem_iff.2 ⟨k, hj, firstPlace?_take hij hi first, rfl⟩
  have hf : ⟨"args", .listOfMaps slotFields, false, none, some .distinctSlots⟩ ∈ documentFields := by
    simp [documentFields]
  have ht : Field.Types ⟨"args", .listOfMaps slotFields, false, none, some .distinctSlots⟩
      (.list xs) ↔ ∀ x ∈ xs, MapOf SlotEntries x := by
    rw [types_listOfMaps]
    simp [ListOf, MapOf, fits_slotFields_iff]
  exact (broken_mem_violations_iff (mem_visits_self ..) hf hxs rfl rfl hc).trans ht

/-- An empty flag is reported just when all flags of its list are texts. -/
theorem emptyElement_mem_violations_iff {p : Path} {fs : List Value} (h : FlagsAt es p fs) {k : Nat}
    (hk : fs[k]? = some (.str "")) :
    ⟨p, .broken (.emptyElement k)⟩ ∈ violations (.map es) ↔ ∀ x ∈ fs, IsText x := by
  obtain ⟨m, hm, name, hf, rfl, hv⟩ := h.exists_visit
  have hc : .emptyElement k ∈ emptyElements 0 fs :=
    mem_emptyElements_iff.2 ⟨k, hk, by rw [Nat.zero_add]⟩
  have ht : Field.Types { name, type := .listOf .str, rule := some .noEmptyElements } (.list fs) ↔
      ∀ x ∈ fs, IsText x := by
    simp [Field.Types, admits_str_iff]
  exact (broken_mem_violations_iff hm hf hv rfl rfl hc).trans ht

/-- That a source has two halves is reported just when each of them is in the grammar. -/
theorem twoSources_mem_violations_iff {p : Path} {cs : Entries} (h : SourceAt es p cs)
    (hb : cs.get "builtin" ≠ .null) (hc : cs.get "cmd" ≠ .null) :
    ⟨p, .broken .twoSources⟩ ∈ violations (.map es) ↔
      IsBuiltin (cs.get "builtin") ∧ IsCommand (cs.get "cmd") := by
  obtain ⟨m, hm, hf, rfl, hv⟩ := h.exists_visit
  have hbn : (cs.get "builtin").isNull = false := by simpa [← Value.isNull_iff] using hb
  have hcn : (cs.get "cmd").isNull = false := by simpa [← Value.isNull_iff] using hc
  have hs : .twoSources ∈ sourceComplaints cs := by simp [sourceComplaints, hbn, hcn]
  have hf' : Fits [{ name := "builtin", choices := some [.str "files", .str "directories"] },
      { name := "cmd", type := .listOf .str, rule := some .notEmptyList }] cs ↔
        IsBuiltin (cs.get "builtin") ∧ IsCommand (cs.get "cmd") := by
    rw [fits_cons rfl builtinField_iff, fits_cons rfl commandField_iff]
    simp [Fits, Grammar.Optional, hb, hc]
  have ht : sourceField.Types (.map cs) ↔
      IsBuiltin (cs.get "builtin") ∧ IsCommand (cs.get "cmd") := by
    rw [sourceField, types_mapOf]
    simp [MapOf, hf']
  exact (broken_mem_violations_iff hm hf hv rfl rfl hs).trans ht

/-- A fault of a list or a mapping is reported just when nothing is wrong inside it, whatever is
wrong elsewhere: a repeated index when all arguments are in the grammar, an empty flag when all
flags of its list are texts, and a source with two halves when each half may stand alone. -/
theorem faults_of_containers_reported (es : Entries) :
    (∀ xs i j k, es.get "args" = .list xs → i < j → indexAt? xs i = some k →
        (∀ l < i, indexAt? xs l ≠ some k) → indexAt? xs j = some k →
      (⟨[.key "args"], .broken (.repeatedIndex j k.literal i)⟩ ∈ violations (.map es) ↔
        ∀ x ∈ xs, MapOf SlotEntries x)) ∧
      (∀ p fs k, FlagsAt es p fs → fs[k]? = some (.str "") →
        (⟨p, .broken (.emptyElement k)⟩ ∈ violations (.map es) ↔ ∀ x ∈ fs, IsText x)) ∧
      ∀ p cs, SourceAt es p cs → cs.get "builtin" ≠ .null → cs.get "cmd" ≠ .null →
        (⟨p, .broken .twoSources⟩ ∈ violations (.map es) ↔
          IsBuiltin (cs.get "builtin") ∧ IsCommand (cs.get "cmd")) :=
  ⟨fun _ _ _ _ hxs hij hi first hj => repeatedIndex_mem_violations_iff hxs hij hi first hj,
    fun _ _ _ h hk => emptyElement_mem_violations_iff h hk,
    fun _ _ h hb hc => twoSources_mem_violations_iff h hb hc⟩

/-- An argument whose name is no text hides that the next one has its index, a flag that is no
text hides an empty flag, and a wrong word for a builtin source hides that there is a command;
the empty flag of the second option is reported. -/
theorem faults_of_containers_reported_hidden :
    let source : Entries := [(.str "builtin", .str "sockets"), (.str "cmd", .list [.str "ls"])]
    let xs : List Value := [.map [(.str "index", .int 1), (.str "name", .int 3)],
      .map [(.str "index", .int 1), (.str "comp", .map source)]]
    let os : List Value := [.map [(.str "short", .list [.int 1, .str ""])],
      .map [(.str "short", .list [.str "-a", .str ""])]]
    let es : Entries := [(.str "name", .str "t"), (.str "opts", .list os), (.str "args", .list xs)]
    ⟨[.key "args"], .broken (.repeatedIndex 1 "1" 0)⟩ ∉ violations (.map es) ∧
      ⟨[.key "opts", .item 0, .key "short"], .broken (.emptyElement 1)⟩ ∉ violations (.map es) ∧
      ⟨[.key "opts", .item 1, .key "short"], .broken (.emptyElement 1)⟩ ∈ violations (.map es) ∧
      ⟨[.key "args", .item 1, .key "comp"], .broken .twoSources⟩ ∉ violations (.map es) := by
  intro source xs os es
  obtain ⟨hr, he, ht⟩ := faults_of_containers_reported es
  have hr := hr xs 0 1 (.number 1) rfl Nat.zero_lt_one rfl (by simp) rfl
  have he0 := he _ _ 1 (.option (i := 0) rfl rfl rfl) rfl
  have he1 := he _ _ 1 (.option (i := 1) rfl rfl rfl) rfl
  have hb : source.get "builtin" = .str "sockets" := rfl
  have hc : source.get "cmd" = .list [.str "ls"] := rfl
  have ht := ht _ source (.slot (i := 1) rfl rfl rfl) (by simp [hb]) (by simp [hc])
  refine ⟨mt hr.1 fun h => ?_, mt he0.1 fun h => ?_, he1.2 ?_, mt ht.1 fun h => ?_⟩
  · obtain ⟨_, ha, hs⟩ := h _ List.mem_cons_self
    cases ha
    rcases hs.name with hn | ⟨_, hn⟩ <;> cases hn
  · obtain ⟨_, hn⟩ := h _ List.mem_cons_self
    cases hn
  · simp [IsText]
  · simpa [IsBuiltin, hb] using h.1

end ShellCompletion.Interface
