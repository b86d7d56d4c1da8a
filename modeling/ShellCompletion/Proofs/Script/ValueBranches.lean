import ShellCompletion.Proofs.Script.Branches
import ShellCompletion.Proofs.Script.SlotBranches
import ShellCompletion.Proofs.Script.Tables

/-! The branches for the values of flags. Options share flags, and the first that declares a flag
decides on its value; the flags that are left to an option are the alternatives of its branch. The
main statement says of every text which branches list it as a flag: the one with the source of the
first option that declares it, if there is one, and no other. -/
namespace ShellCompletion.Script

open Shell

/-- The quoted texts that are the alternatives of a pattern. -/
def alternatives? : List Piece → Option (List String)
  | [.word w] => some [w]
  | .word w :: .code s :: ps => if s = " | " then (alternatives? ps).map (w :: ·) else none
  | _ => none

theorem alternatives?_alternatives {es : List FlagEntry} (h : es ≠ []) :
    alternatives? (alternatives es) = some (es.map (·.literal)) := by
  induction es with
  | nil => exact absurd rfl h
  | cons e es ih =>
    cases es with
    | nil => rfl
    | cons f fs =>
      simp only [alternatives, alternatives?, if_true, ih (List.cons_ne_nil f fs)]
      rfl

/-- The flags that a branch is for. -/
def flagsOf (b : Branch) : List String := (alternatives? b.pattern).getD []

/-! ### Offers -/

theorem valueOffer?_eq_some_iff {p : Plan} {k : Nat} {o : OptionSpec}
    {offer : Offer (List FlagEntry)} : valueOffer? p k o = some offer ↔
      ∃ v, o.value = some v ∧ v.source = some offer.source ∧
      offer.note = v.name ∧ offer.key = p.flagsFor k ∧ offer.key ≠ [] := by
  simp only [valueOffer?, Option.bind_eq_bind, Option.bind_eq_some_iff]
  refine exists_congr fun v => and_congr_right fun _ => ?_
  constructor
  · rintro ⟨c, hc, h⟩
    split at h
    · exact nomatch h
    · next hn =>
      cases h
      exact ⟨hc, rfl, rfl, by simpa using hn⟩
  · rintro ⟨hc, hn, hk, hne⟩
    refine ⟨offer.source, hc, ?_⟩
    rw [if_neg (by simpa [← hk] using hne), ← hn, ← hk]

section

variable (i : Interface)

/-- The option that an offer is for, with its place. -/
theorem exists_of_mem_valueOffers {offer : Offer (List FlagEntry)}
    (h : offer ∈ valueOffers (.ofInterface i)) : ∃ k o, i.options[k]? = some o ∧
      valueOffer? (.ofInterface i) k o = some offer := by
  simp only [valueOffers, List.mem_filterMap, List.mem_mapIdx, id] at h
  obtain ⟨_, ⟨k, hk, rfl⟩, h⟩ := h
  exact ⟨k, _, List.getElem?_eq_getElem hk, h⟩

theorem eq_of_literal_eq {d e : FlagEntry} (hd : d ∈ (Plan.ofInterface i).flags)
    (he : e ∈ (Plan.ofInterface i).flags) (h : d.literal = e.literal) : d = e :=
  List.inj_on_of_nodup_map (Plan.nodup_literal_flags i) hd he h

/-- The one offer with a flag is that of the option which the flag stands for. -/
theorem filter_valueOffers {e : FlagEntry} (he : e ∈ (Plan.ofInterface i).flags) :
    (valueOffers (.ofInterface i)).filter (fun o => (o.key.map (·.literal)).contains e.literal) =
      (valueOffer? (.ofInterface i) e.place e.option).toList := by
  have hz : valueOffers (.ofInterface i) =
      i.options.zipIdx.filterMap fun z => valueOffer? (.ofInterface i) z.2 z.1 := by
    rw [valueOffers, List.mapIdx_eq_zipIdx_map, List.filterMap_map]
    rfl
  have hn : i.options.zipIdx.Nodup := by
    refine List.Nodup.of_map Prod.snd ?_
    rw [List.zipIdx_map_snd]
    exact List.nodup_range' ..
  have ho := (Plan.mem_declarations_iff.1 (Plan.mem_declarations i he)).1
  have hx : (e.option, e.place) ∈ i.options.zipIdx := by
    rw [List.mem_zipIdx_iff_getElem?]
    exact ho
  rw [hz]
  refine filter_filterMap_of_nodup hn hx fun z hm o hzo => ?_
  obtain ⟨_, _, _, _, hk, _⟩ := valueOffer?_eq_some_iff.1 hzo
  rw [List.contains_iff_mem, List.mem_map, hk]
  constructor
  · rintro ⟨d, hd, hl⟩
    obtain ⟨hd, hp⟩ := (Plan.mem_flagsFor_iff i).1 hd
    rw [eq_of_literal_eq i hd he hl] at hp
    rw [List.mem_zipIdx_iff_getElem?, ← hp, ho] at hm
    exact Prod.ext (Option.some.inj hm).symm hp.symm
  · rintro rfl
    exact ⟨e, (Plan.mem_flagsFor_iff i).2 ⟨he, rfl⟩, rfl⟩

/-- A flag of an offer is declared, and its first option has the source of the offer. -/
theorem exists_of_mem_key {offer : Offer (List FlagEntry)} {f : String}
    (h : offer ∈ valueOffers (.ofInterface i)) (hf : f ∈ offer.key.map (·.literal)) :
    ∃ o v, i.options.find? (·.flags.contains f) = some o ∧ o.value = some v ∧
      v.source = some offer.source := by
  obtain ⟨k, o, ho, h⟩ := exists_of_mem_valueOffers i h
  obtain ⟨v, hv, hc, _, hk, _⟩ := valueOffer?_eq_some_iff.1 h
  obtain ⟨e, he, rfl⟩ := List.mem_map.1 hf
  obtain ⟨he, rfl⟩ := (Plan.mem_flagsFor_iff i).1 (hk ▸ he)
  have hd := (Plan.mem_declarations_iff.1 (Plan.mem_declarations i he)).1
  rw [ho, Option.some.injEq] at hd
  exact ⟨o, v, hd ▸ Plan.find?_option i he, hv, hc⟩

/-- A flag whose first option has a source has one offer, and once. -/
theorem exists_filter_valueOffers {f : String} {o : OptionSpec} {v : ValueSpec} {c : Source}
    (ho : i.options.find? (·.flags.contains f) = some o) (hv : o.value = some v)
    (hc : v.source = some c) : ∃ offer : Offer (List FlagEntry), offer.source = c ∧
      (valueOffers (.ofInterface i)).filter (fun o => (o.key.map (·.literal)).contains f) = [offer] ∧
      (offer.key.map (·.literal)).count f = 1 ∧
      ∃ e ∈ (Plan.ofInterface i).flags, e.literal = f ∧ e.option = o := by
  have hfo : f ∈ o.flags := by simpa using List.find?_some ho
  have hf : f ∈ (Plan.ofInterface i).flags.map (·.literal) := by
    rw [Plan.map_literal_flags, List.mem_eraseDups]
    exact List.mem_flatMap.2 ⟨o, List.mem_of_find?_eq_some ho, hfo⟩
  obtain ⟨e, he, rfl⟩ := List.mem_map.1 hf
  rw [Plan.find?_option i he, Option.some.injEq] at ho
  subst ho
  have hm : e ∈ (Plan.ofInterface i).flagsFor e.place := (Plan.mem_flagsFor_iff i).2 ⟨he, rfl⟩
  let offer : Offer (List FlagEntry) := ⟨(Plan.ofInterface i).flagsFor e.place, v.name, c⟩
  have hs : valueOffer? (.ofInterface i) e.place e.option = some offer :=
    valueOffer?_eq_some_iff.2 ⟨v, hv, hc, rfl, rfl, List.ne_nil_of_mem hm⟩
  have hn : (offer.key.map (·.literal)).Nodup :=
    (Plan.nodup_literal_flags i).sublist (List.filter_sublist.map _)
  refine ⟨offer, rfl, ?_, List.count_eq_one_of_mem hn (List.mem_map_of_mem hm), e, he, rfl, rfl⟩
  rw [filter_valueOffers i he, hs]
  rfl

/-! ### Branches -/

/-- What the branch of an offer is read as. -/
def offerBranch (offer : Offer (List FlagEntry)) : Branch :=
  (offer.branch alternatives).asRead

theorem inMode_prev_eq : inMode "opt_arg" "$prev" (readLines (text i)) =
    (valueOffers (.ofInterface i)).map offerBranch := by
  rw [inMode_prev, valueBranches_eq, List.map_map]
  rfl

theorem alternatives?_offerBranch {offer : Offer (List FlagEntry)}
    (h : offer ∈ valueOffers (.ofInterface i)) :
    alternatives? (offerBranch offer).pattern = some (offer.key.map (·.literal)) := by
  obtain ⟨_, _, _, h⟩ := exists_of_mem_valueOffers i h
  obtain ⟨_, _, _, _, _, hn⟩ := valueOffer?_eq_some_iff.1 h
  exact alternatives?_alternatives hn

theorem flagsOf_offerBranch {offer : Offer (List FlagEntry)}
    (h : offer ∈ valueOffers (.ofInterface i)) :
    flagsOf (offerBranch offer) = offer.key.map (·.literal) := by
  rw [flagsOf, alternatives?_offerBranch i h, Option.getD_some]

/-- A flag whose first option has a source has one branch, with that source. -/
theorem exists_filter_branches {f : String} {o : OptionSpec} {v : ValueSpec} {c : Source}
    (ho : i.options.find? (·.flags.contains f) = some o) (hv : o.value = some v)
    (hc : v.source = some c) :
    ∃ b, (inMode "opt_arg" "$prev" (readLines (text i))).filter (fun b => f ∈ flagsOf b) = [b] ∧
      (flagsOf b).count f = 1 ∧ b.body = readLines (joined (sourceLines (some c))) ∧
      (f, true) ∈ assignments valueTable (readLines (text i)) := by
  obtain ⟨offer, rfl, hs, hn, e, he, hl, heo⟩ := exists_filter_valueOffers i ho hv hc
  have hm : offer ∈ valueOffers (.ofInterface i) :=
    List.mem_of_mem_filter (hs ▸ List.mem_singleton_self offer)
  refine ⟨offerBranch offer, ?_, ?_, (readLines_joined (readable_sourceLines _)).symm, ?_⟩
  · have hf : (valueOffers (.ofInterface i)).filter (fun o => f ∈ flagsOf (offerBranch o)) =
        [offer] := by
      rw [← hs]
      exact List.filter_congr fun o ho => by rw [flagsOf_offerBranch i ho, List.contains_eq_mem]
    rw [inMode_prev_eq, List.filter_map]
    exact congrArg (List.map offerBranch) hf
  · rw [flagsOf_offerBranch i hm, hn]
  · rw [assignments_values]
    refine List.mem_map.2 ⟨e, he, ?_⟩
    rw [hl, FlagEntry.takesValue, OptionSpec.takesValue, heo, hv, Option.isSome_some]

/-- A flag of a branch is declared, and its first option has a source. -/
theorem exists_of_mem_flagsOf {b : Branch} {f : String}
    (hb : b ∈ inMode "opt_arg" "$prev" (readLines (text i))) (hf : f ∈ flagsOf b) :
    ∃ o v c, i.options.find? (·.flags.contains f) = some o ∧ o.value = some v ∧
      v.source = some c := by
  rw [inMode_prev_eq] at hb
  obtain ⟨offer, hm, rfl⟩ := List.mem_map.1 hb
  rw [flagsOf_offerBranch i hm] at hf
  obtain ⟨o, v, h⟩ := exists_of_mem_key i hm hf
  exact ⟨o, v, offer.source, h⟩

/-- The pattern of a branch is one or more quoted flags. -/
theorem exists_alternatives {b : Branch}
    (hb : b ∈ inMode "opt_arg" "$prev" (readLines (text i))) :
    ∃ fs, alternatives? b.pattern = some fs ∧ fs ≠ [] := by
  rw [inMode_prev_eq] at hb
  obtain ⟨offer, hm, rfl⟩ := List.mem_map.1 hb
  obtain ⟨_, _, _, h⟩ := exists_of_mem_valueOffers i hm
  obtain ⟨_, _, _, _, _, hn⟩ := valueOffer?_eq_some_iff.1 h
  exact ⟨_, alternatives?_offerBranch i hm, mt List.map_eq_nil_iff.1 hn⟩

end

/-- The branches for the values of flags are exact. A text is a flag of a branch just when it is
declared and the first option that declares it has a value with a source. There is one such branch
then, which has the flag once and the lines of that source, and the flag is marked as one that a
value follows. The pattern of every branch is one or more quoted flags. -/
theorem valueBranches_exact (i : Interface) (f : String) :
    let r := readLines (text i)
    let bs := inMode "opt_arg" "$prev" r
    ((∃ b ∈ bs, f ∈ flagsOf b) ↔ ∃ o v c, i.options.find? (·.flags.contains f) = some o ∧
        o.value = some v ∧ v.source = some c) ∧
      (∀ o v c, i.options.find? (·.flags.contains f) = some o → o.value = some v →
        v.source = some c → ∃ b, bs.filter (fun b => f ∈ flagsOf b) = [b] ∧
          (flagsOf b).count f = 1 ∧ b.body = readLines (joined (sourceLines (some c))) ∧
          (f, true) ∈ assignments valueTable r) ∧
      ∀ b ∈ bs, ∃ fs, alternatives? b.pattern = some fs ∧ fs ≠ [] := by
  intro r bs
  refine ⟨⟨?_, ?_⟩, fun o v c => exists_filter_branches i, fun b => exists_alternatives i⟩
  · rintro ⟨b, hb, hf⟩
    exact exists_of_mem_flagsOf i hb hf
  · rintro ⟨o, v, c, ho, hv, hc⟩
    obtain ⟨b, hb, _⟩ := exists_filter_branches i ho hv hc
    have hm : b ∈ bs.filter (fun b => f ∈ flagsOf b) := hb ▸ List.mem_singleton_self b
    exact ⟨b, (List.mem_filter.1 hm).1, by simpa using (List.mem_filter.1 hm).2⟩

/-- Of two options that share a flag the first has it; a value without a source has no branch. -/
theorem valueBranches_exact_shared :
    let value (kind : Builtin) : Option ValueSpec := some { source := some (.builtin kind) }
    let i : Interface := { name := "demo", options := [
      { flags := ["-a", "-b", "-a"], value := value .files },
      { flags := ["-b", "-c"], value := value .directories },
      { flags := ["-d"], value := some {} }] }
    let bs := inMode "opt_arg" "$prev" (readLines (text i))
    (∃ b, bs.filter (fun b => "-b" ∈ flagsOf b) = [b] ∧ (flagsOf b).count "-b" = 1 ∧
        b.body = readLines (joined (sourceLines (some (.builtin .files))))) ∧
      ¬∃ b ∈ bs, "-d" ∈ flagsOf b := by
  intro value i bs
  have hd : i.options.find? (·.flags.contains "-d") = some { flags := ["-d"], value := some {} } := by
    decide
  obtain ⟨b, hb, hn, hl, _⟩ := (valueBranches_exact i "-b").2.1 _ _ _ rfl rfl rfl
  refine ⟨⟨b, hb, hn, hl⟩, fun h => ?_⟩
  obtain ⟨o, v, c, ho, hv, hc⟩ := (valueBranches_exact i "-d").1.1 h
  rw [hd, Option.some.injEq] at ho
  subst ho
  cases hv
  exact nomatch hc

end ShellCompletion.Script
