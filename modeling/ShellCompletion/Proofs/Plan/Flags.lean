import ShellCompletion.Proofs.Plan.Slots

/-! The flags of a plan. Each flag that is declared has one entry, in the order of the first
declarations, and its entry has the first option that declares it. The main statement says this
of every interface, however often a flag is declared, and that the flags of the options, one
option after the other, are all flags again. -/
namespace ShellCompletion

section KeepFirst

variable {α β : Type} [BEq β] [LawfulBEq β] (key : α → β)

/-- The keys that are kept are the first ones of their kind, less those that were seen. -/
theorem map_keepFirst (seen : List β) (xs : List α) :
    (keepFirst key seen xs).map key =
      ((xs.map key).filter fun b => !seen.contains b).eraseDups := by
  induction xs generalizing seen with
  | nil => rfl
  | cons x xs ih =>
    rw [keepFirst, List.map_cons]
    cases hx : seen.contains (key x) with
    | true => rw [if_pos rfl, ih, List.filter_cons_of_neg (by simpa using hx)]
    | false =>
      have hp : (fun b => !List.contains (key x :: seen) b) =
          fun b => !b == key x && !seen.contains b := by
        funext b
        simp [Bool.not_or]
      rw [if_neg Bool.false_ne_true, List.map_cons, ih,
        List.filter_cons_of_pos (by simpa using hx), List.eraseDups_cons, List.filter_filter, hp]

/-- What is kept is the first of its key. -/
theorem find?_of_mem_keepFirst {seen : List β} {xs : List α} {x : α}
    (h : x ∈ keepFirst key seen xs) : xs.find? (fun y => key y == key x) = some x := by
  induction xs generalizing seen with
  | nil => simp [keepFirst] at h
  | cons y ys ih =>
    have hs := (nodup_map_keepFirst key seen (y :: ys)).2 x h
    rw [keepFirst] at h
    split at h
    · next hy =>
      have hne : (key y == key x) = false :=
        beq_eq_false_iff_ne.2 fun he => hs (he ▸ List.contains_iff_mem.1 hy)
      rw [List.find?_cons_of_neg (by simp [hne]), ih h]
    · rcases List.mem_cons.1 h with rfl | h
      · exact List.find?_cons_of_pos (beq_self_eq_true (key x))
      · have hk := (nodup_map_keepFirst key (key y :: seen) ys).2 x h
        have hne : (key y == key x) = false :=
          beq_eq_false_iff_ne.2 fun he => hk (he ▸ List.mem_cons_self)
        rw [List.find?_cons_of_neg (by simp [hne]), ih h]

end KeepFirst

/-! ### Lists in the order of places -/

section

variable {α : Type} (place : α → Nat) {xs : List α}

theorem filter_lt_succ (h : xs.Pairwise fun x y => place x ≤ place y) (n : Nat) :
    (xs.filter fun x => place x < n + 1) =
      (xs.filter fun x => place x < n) ++ xs.filter fun x => place x == n := by
  induction xs with
  | nil => rfl
  | cons x xs ih =>
    obtain ⟨hx, h⟩ := List.pairwise_cons.1 h
    have ih := ih h
    rcases Nat.lt_trichotomy (place x) n with hn | hn | hn
    · rw [List.filter_cons_of_pos (by simp; omega), List.filter_cons_of_pos (by simpa using hn),
        List.filter_cons_of_neg (by simp; omega), ih, List.cons_append]
    · -- all that follow stand at this place or a later one
      have hl : (xs.filter fun y => place y < n) = [] := by
        rw [List.filter_eq_nil_iff]
        intro y hy
        have := hx y hy
        simp
        omega
      rw [List.filter_cons_of_pos (by simp; omega), List.filter_cons_of_neg (by simp; omega),
        List.filter_cons_of_pos (by simpa using hn), ih, hl, List.nil_append, List.nil_append]
    · rw [List.filter_cons_of_neg (by simp; omega), List.filter_cons_of_neg (by simp; omega),
        List.filter_cons_of_neg (by simp; omega), ih]

/-- A list in the order of places is put together from its parts at each place. -/
theorem flatMap_filter_place (h : xs.Pairwise fun x y => place x ≤ place y) (n : Nat) :
    ((List.range n).flatMap fun k => xs.filter fun x => place x == k) =
      xs.filter fun x => place x < n := by
  induction n with
  | zero => simp
  | succ n ih =>
    rw [List.range_succ, List.flatMap_append, ih, filter_lt_succ place h]
    simp

end

namespace Plan

/-! ### Declarations -/

theorem mem_declarations_iff {options : List OptionSpec} {e : FlagEntry} :
    e ∈ declarations options ↔ options[e.place]? = some e.option ∧ e.literal ∈ e.option.flags := by
  simp only [declarations, List.mem_flatten, List.mem_mapIdx]
  constructor
  · rintro ⟨_, ⟨k, hk, rfl⟩, he⟩
    obtain ⟨f, hf, rfl⟩ := List.mem_map.1 he
    exact ⟨List.getElem?_eq_getElem hk, hf⟩
  · rintro ⟨ho, hf⟩
    obtain ⟨hk, ho⟩ := List.getElem?_eq_some_iff.1 ho
    exact ⟨_, ⟨e.place, hk, rfl⟩, List.mem_map.2 ⟨e.literal, ho ▸ hf, by rw [ho]⟩⟩

theorem map_literal_declarations (options : List OptionSpec) :
    (declarations options).map (·.literal) = options.flatMap (·.flags) := by
  have hm : (options.mapIdx fun k o => o.flags.map fun f => FlagEntry.mk f k o).map
      (List.map (·.literal)) = options.map (·.flags) := by
    apply List.ext_getElem?
    intro k
    simp [Function.comp_def]
  rw [declarations, List.map_flatten, hm, List.flatMap_def]

theorem declarations_in_order (options : List OptionSpec) :
    (declarations options).Pairwise fun d e => d.place ≤ e.place := by
  rw [declarations, List.pairwise_flatten]
  constructor
  · intro l hl
    obtain ⟨k, hk, rfl⟩ := List.mem_mapIdx.1 hl
    exact List.pairwise_map.2 (List.pairwise_of_forall fun _ _ => Nat.le_refl k)
  · rw [List.pairwise_iff_getElem]
    intro j k hj hk hjk d hd e he
    rw [List.getElem_mapIdx] at hd he
    obtain ⟨_, _, rfl⟩ := List.mem_map.1 hd
    obtain ⟨_, _, rfl⟩ := List.mem_map.1 he
    exact Nat.le_of_lt hjk

/-! ### Flags -/

variable (i : Interface)

theorem map_literal_flags : (ofInterface i).flags.map (·.literal) = i.flags.eraseDups := by
  have hk := map_keepFirst FlagEntry.literal [] (declarations i.options)
  rw [map_literal_declarations] at hk
  simpa [ofInterface, Interface.flags] using hk

theorem nodup_literal_flags : ((ofInterface i).flags.map (·.literal)).Nodup :=
  (nodup_map_keepFirst FlagEntry.literal [] _).1

theorem flags_in_order : (ofInterface i).flags.Pairwise fun d e => d.place ≤ e.place :=
  (declarations_in_order i.options).sublist (keepFirst_sublist _ _ _)

/-- The entry of a flag is its first declaration. -/
theorem find?_declarations {e : FlagEntry} (h : e ∈ (ofInterface i).flags) :
    (declarations i.options).find? (·.literal == e.literal) = some e :=
  find?_of_mem_keepFirst FlagEntry.literal h

theorem mem_declarations {e : FlagEntry} (h : e ∈ (ofInterface i).flags) :
    e ∈ declarations i.options :=
  List.mem_of_find?_eq_some (find?_declarations i h)

theorem place_lt {e : FlagEntry} (h : e ∈ (ofInterface i).flags) : e.place < i.options.length :=
  (List.getElem?_eq_some_iff.1 (mem_declarations_iff.1 (mem_declarations i h)).1).1

/-- No option before that of the entry declares the flag. -/
theorem not_mem_of_lt_place {e : FlagEntry} (h : e ∈ (ofInterface i).flags) {k : Nat}
    (hk : k < e.place) {o : OptionSpec} (ho : i.options[k]? = some o) : e.literal ∉ o.flags := by
  intro hf
  obtain ⟨_, before, after, hd, hb⟩ := List.find?_eq_some_iff_append.1 (find?_declarations i h)
  have hm : ⟨e.literal, k, o⟩ ∈ declarations i.options := mem_declarations_iff.2 ⟨ho, hf⟩
  have hp := declarations_in_order i.options
  rw [hd] at hm hp
  -- the declaration would come before the first one of its flag
  rcases List.mem_append.1 hm with hm | hm
  · simpa using hb _ hm
  · rcases List.mem_cons.1 hm with he | hm
    · rw [← he] at hk
      exact Nat.lt_irrefl k hk
    · have hle : e.place ≤ k := (List.pairwise_cons.1 (List.pairwise_append.1 hp).2.1).1 _ hm
      omega

/-- The option of the entry is the first that declares the flag. -/
theorem find?_option {e : FlagEntry} (h : e ∈ (ofInterface i).flags) :
    i.options.find? (·.flags.contains e.literal) = some e.option := by
  obtain ⟨ho, hf⟩ := mem_declarations_iff.1 (mem_declarations i h)
  obtain ⟨hk, ho⟩ := List.getElem?_eq_some_iff.1 ho
  refine List.find?_eq_some_iff_getElem.2
    ⟨List.contains_iff_mem.2 hf, e.place, hk, ho, fun k hlt => ?_⟩
  simpa using not_mem_of_lt_place i h hlt (List.getElem?_eq_getElem (Nat.lt_trans hlt hk))

theorem mem_flagsFor_iff {e : FlagEntry} {k : Nat} :
    e ∈ (ofInterface i).flagsFor k ↔ e ∈ (ofInterface i).flags ∧ e.place = k := by
  simp [flagsFor]

/-- The flags of the options, one option after the other, are all flags. -/
theorem flatMap_flagsFor :
    (List.range i.options.length).flatMap (ofInterface i).flagsFor = (ofInterface i).flags := by
  have h := flatMap_filter_place FlagEntry.place (flags_in_order i) i.options.length
  rw [List.filter_eq_self.2 fun e he => by simpa using place_lt i he] at h
  exact h

theorem hasFlags_eq : (ofInterface i).hasFlags = i.hasFlags := by
  have hl := map_literal_flags i
  rw [hasFlags, Interface.hasFlags_eq]
  cases hp : (ofInterface i).flags <;> cases hi : i.flags <;>
    simp_all [List.eraseDups_cons]

/-- The flags of a plan are those declared, each once and in the order of the first
declarations. Each stands for the first option that declares it, which says whether a value
follows, and is among the flags of that option alone. -/
theorem flags_resolved :
    (ofInterface i).flags.map (·.literal) = i.flags.eraseDups ∧
      (∀ e ∈ (ofInterface i).flags,
        i.options[e.place]? = some e.option ∧ e.literal ∈ e.option.flags ∧
          (∀ k < e.place, ∀ o, i.options[k]? = some o → e.literal ∉ o.flags) ∧
          (e.takesValue = true ↔ e.option.value ≠ none)) ∧
      (List.range i.options.length).flatMap (ofInterface i).flagsFor = (ofInterface i).flags ∧
      (∀ e ∈ (ofInterface i).flags, ∃! k, k < i.options.length ∧ e ∈ (ofInterface i).flagsFor k) ∧
      ((ofInterface i).hasFlags = true ↔ i.hasFlags = true) ∧
      (i.hasFlags = true ↔ i.flags ≠ []) := by
  refine ⟨map_literal_flags i, fun e he => ?_, flatMap_flagsFor i, fun e he => ?_, ?_, ?_⟩
  · obtain ⟨ho, hf⟩ := mem_declarations_iff.1 (mem_declarations i he)
    refine ⟨ho, hf, fun k hk o => not_mem_of_lt_place i he hk, ?_⟩
    rw [FlagEntry.takesValue, OptionSpec.takesValue, Option.isSome_iff_ne_none]
  · refine ⟨e.place, ⟨place_lt i he, (mem_flagsFor_iff i).2 ⟨he, rfl⟩⟩, fun k hk => ?_⟩
    exact ((mem_flagsFor_iff i).1 hk.2).2.symm
  · rw [hasFlags_eq]
  · simp [Interface.hasFlags_eq]

/-- A flag that comes twice within one option, across options, and between equal options. -/
theorem flags_resolved_repeated :
    let valued : OptionSpec := { flags := ["-a", "-b", "-a"], value := some {} }
    let i : Interface := { name := "demo", options := [{ flags := ["-a"] }, valued, valued] }
    let p := ofInterface i
    p.flags = [⟨"-a", 0, { flags := ["-a"] }⟩, ⟨"-b", 1, valued⟩] ∧
      p.flags.map (·.literal) = i.flags.eraseDups ∧
      (∃! k, k < 3 ∧ ⟨"-b", 1, valued⟩ ∈ p.flagsFor k) ∧ p.flagsFor 2 = [] := by
  intro valued i p
  have hf : p.flags = [⟨"-a", 0, { flags := ["-a"] }⟩, ⟨"-b", 1, valued⟩] := by decide
  obtain ⟨hl, _, _, hu, _⟩ := flags_resolved i
  exact ⟨hf, hl, hu _ (hf ▸ by simp), by decide⟩

end Plan

end ShellCompletion
