import ShellCompletion.Proofs.Script.Behaviour
import ShellCompletion.Proofs.Text.Joined
import ShellCompletion.Proofs.Text.Numeral

/-! Sections of a script tell what they are written of. For each section there is a key that
its text fixes, whatever stands after it: truth words, quoted texts, numbers and the words of
comments, in the order in which they are written. -/
namespace ShellCompletion.Script

open Shell Text

variable {α κ : Type}

/-! ### Single lines -/

theorem opens_plain {u : List Char} {text : α → String} (h : ∀ x, u <+: (text x).toList) :
    Opens (fun x => [.plain (text x)]) [u] :=
  .line (by simp) fun x => by simpa [margin] using h x

theorem tells_boolWord : Tells (fun b => (boolWord b).toList ++ ['\n']) id := by
  intro b c r s
  cases b <;> cases c <;> simp [boolWord]

theorem legible_boolLine (start : String) :
    Legible (fun b => [.plain (start ++ boolWord b)]) id := by
  refine .line (by simp) ?_
  simpa using tells_boolWord.const_append start.toList

/-- A line that ends with a quoted text. -/
theorem legible_wordLine (start : String) :
    Legible (fun s => [⟨0, [.code start, .word s]⟩]) id := by
  refine .line (by simp) ?_
  simpa using (tells_quoteChars (c := '\n') (by decide)).const_append start.toList

/-- An entry of a table tells its flag and its value. -/
theorem legible_entryLine (table : String) :
    Legible (fun e : String × Bool => [entryLine table e.1 (boolWord e.2)]) fun e => (e.1, e.2) := by
  refine .line (by simp) ?_
  have hq : Tells (fun e : String × Bool => quoteChars e.1.toList ++ [']']) (·.1) :=
    (tells_quoteChars (by decide)).comp Prod.fst
  have hv : Tells (fun e : String × Bool => ['='] ++ ((boolWord e.2).toList ++ ['\n'])) (·.2) :=
    (tells_boolWord.const_append ['=']).comp Prod.snd
  have h := (hq.append hv).const_append (table.toList ++ ['['])
  simpa using h

theorem opens_entryLine (table : String) {u : List Char} (h : u <+: table.toList)
    (flag value : α → String) : Opens (fun x => [entryLine table (flag x) (value x)]) [u] :=
  .line (by simp) fun x => by simpa [margin] using h.trans (List.prefix_append _ _)

/-- Words in brackets tell the words. -/
theorem legible_bracketed (start : String) {words : α → List String}
    (h : ∀ x, ∀ w ∈ words x, IsWord w ∧ ')' ∉ w.toList) :
    Legible (fun x => [.plain (start ++ " ".intercalate (words x) ++ ")")]) words := by
  refine .line (by simp) ?_
  have hb : ∀ x, ')' ∉ (" ".intercalate (words x)).toList := fun x =>
    not_mem_intercalate (by decide) fun w hw => (h x w hw).2
  have ht := ((Tells.upTo hb).append_const ['\n']).const_append start.toList
  refine Tells.congr (k := fun x => (" ".intercalate (words x)).toList) ?_ fun x y => ?_
  · simpa using ht
  · rw [String.toList_inj]
    exact intercalate_space_inj (fun w hw => (h x w hw).1) fun w hw => (h y w hw).1

theorem isWord_toString (n : Nat) : IsWord (toString n) := by
  refine ⟨fun h => ?_, not_mem_toString (by decide) n⟩
  exact Nat.toDigits_ne_nil (by rw [← toList_toString, h]; rfl)

/-! ### Tables and tests -/

theorem legible_slotCount : Legible (fun slots : List Slot => [.plain
    ("local -a args_required=(" ++ " ".intercalate (slots.map fun _ => "true") ++ ")")])
    List.length := by
  refine (legible_bracketed "local -a args_required=(" fun slots w hw => ?_).congr fun ss ts => ?_
  · obtain ⟨_, _, rfl⟩ := List.mem_map.1 hw
    exact ⟨⟨by decide, by decide⟩, by decide⟩
  · simp [List.map_const', List.replicate_inj]

theorem legible_ordinals : Legible (fun slots : List Slot => [.plain
    ("local -a explicit_slots=(" ++ ordinals slots ++ ")")]) fun slots => slots.map (·.ordinal) := by
  refine (legible_bracketed "local -a explicit_slots=(" fun slots w hw => ?_).congr fun ss ts => ?_
  · obtain ⟨s, _, rfl⟩ := List.mem_map.1 hw
    exact ⟨isWord_toString s.ordinal, not_mem_toString (by decide) s.ordinal⟩
  · have hm (us : List Slot) :
        us.map (fun s => toString s.ordinal) = (us.map (·.ordinal)).map toString := by simp
    rw [hm, hm]
    exact List.map_inj_right fun _ _ => toString_injective

/-- The comments on slots, their number, and those in order. -/
theorem legible_slotTables : Legible (fun p : Plan => p.slots.map (fun s => .comment (slotNote s)) ++
      ([.plain ("local -a args_required=(" ++ " ".intercalate (p.slots.map fun _ => "true") ++ ")")] ++
        [.plain ("local -a explicit_slots=(" ++ ordinals p.explicitOrder ++ ")")]))
    fun p => (p.slots.map fun s => Text.collapse (slotNote s), p.slots.length,
      p.explicitOrder.map (·.ordinal)) := by
  have ht := (legible_slotCount.comp Plan.slots).append (legible_ordinals.comp Plan.explicitOrder)
  have ho : Opens (fun p : Plan => [.plain
      ("local -a args_required=(" ++ " ".intercalate (p.slots.map fun _ => "true") ++ ")")]) [['l']] :=
    opens_plain (by simp)
  exact ((legible_comment 0).comp slotNote).map_append ht
    (((opens_comment 0).comp slotNote).apart (ho.append _) (by decide)) Plan.slots

/-- A table of flags with their values, up to a blank line. -/
theorem legible_table (table : String) (ht : ['s'] <+: table.toList) (value : FlagEntry → Bool)
    {g : Plan → List Line} {k : Plan → κ} (hg : Legible (fun p => .blank :: g p) k) :
    Legible (fun p => p.flags.map (fun e => entryLine table e.literal (boolWord (value e))) ++
      .blank :: g p) fun p => (p.flags.map fun e => (e.literal, value e), k p) :=
  ((legible_entryLine table).comp fun e : FlagEntry => (e.literal, value e)).map_append hg
    ((opens_entryLine table ht _ _).apart_blank (by decide)) Plan.flags

/-- The flags with what they take fix the flags, and whether there are any. -/
theorem literals_eq_of_flags_eq {p q : Plan} (h : p.flags.map (fun e => (e.literal, e.takesValue)) =
    q.flags.map fun e => (e.literal, e.takesValue)) :
    p.flags.map (·.literal) = q.flags.map (·.literal) := by
  have hl := congrArg (List.map Prod.fst) h
  rwa [List.map_map, List.map_map] at hl

theorem hasFlags_eq_of_literals_eq {p q : Plan}
    (h : p.flags.map (·.literal) = q.flags.map (·.literal)) : p.hasFlags = q.hasFlags := by
  have hl := congrArg List.isEmpty h
  rwa [List.isEmpty_map, List.isEmpty_map, ← Bool.not_inj_iff] at hl

/-- The variables that describe an interface tell whether two dashes end the options, how flags
begin, the flags with what they take, and the slots. -/
theorem legible_stateLines : Legible stateLines fun p =>
    (p.interface.doubleDash, p.interface.flagMark, p.flags.map (fun e => (e.literal, e.takesValue)),
      p.slots.map (fun s => Text.collapse (slotNote s)), p.slots.length,
      p.explicitOrder.map (·.ordinal)) := by
  have hd := (legible_boolLine "local use_doubledash=").comp fun p : Plan => p.interface.doubleDash
  have hh := (legible_boolLine "local has_short_opts=").comp Plan.hasFlags
  have hm := (legible_wordLine "local short_opt_prefix=").comp fun p : Plan => p.interface.flagMark
  have hs := legible_slotTables.const_append [.blank]
  have hu := legible_table "short_opts_used" (by decide) (fun _ => false) hs
  have hv := legible_table "short_opts_requires_value" (by decide) FlagEntry.takesValue
    (hu.const_append [.blank, .plain "declare -A short_opts_used=()"])
  have h := hd.append (hh.append (hm.append
    (hv.const_append [.blank, .plain "declare -A short_opts_requires_value=()"])))
  refine (h.congr fun p q => ?_).of_eq fun p => ?_
  · -- the table of flags in use repeats the flags
    have hr (hf : p.flags.map (fun e => (e.literal, e.takesValue)) =
        q.flags.map fun e => (e.literal, e.takesValue)) :
        p.hasFlags = q.hasFlags ∧
          p.flags.map (fun e => (e.literal, false)) = q.flags.map fun e => (e.literal, false) := by
      have hl := literals_eq_of_flags_eq hf
      have hu := congrArg (List.map fun f => (f, false)) hl
      rw [List.map_map, List.map_map] at hu
      exact ⟨hasFlags_eq_of_literals_eq hl, hu⟩
    simp only [Prod.mk.injEq]
    tauto
  · rw [stateLines]
    simp only [List.append_assoc]
    rfl

/-- The scan tells the flags that it looks for. -/
theorem legible_scanBody : Legible scanBody fun p => p.flags.map (·.literal) := by
  have hl : Legible (fun e : FlagEntry => [entryLine "short_opts_used" e.literal "true"])
      fun e => (e.literal, true) :=
    (legible_entryLine "short_opts_used").comp fun e : FlagEntry => (e.literal, true)
  have hb : Legible (fun e => (usedBranch e).lines) fun e => e.literal :=
    (legible_branchLines (LegiblePattern.word.comp FlagEntry.literal) (hl.append_const [.plain ";;"])
      ((opens_entryLine "short_opts_used" (u := ['s']) (by decide) _ _).append _)
      (by decide)).congr fun d e => by simp
  have hc := legible_caseLines "$\x7bCOMP_WORDS[word_i]\x7d" hb Plan.flags
  exact (hc.const_append _).append_const _

theorem legible_scanLines : Legible scanLines fun p => p.flags.map (·.literal) :=
  ((legible_scanBody.indent 2).const_append _).append_const _

theorem legible_liftLines : Legible (fun z : Nat × String => liftLines z.1 z.2) id := by
  have hf : Legible (fun f : String =>
      [⟨0, [.code "if $\x7bshort_opts_used[", .word f, .code "]-false\x7d; then"]⟩]) id := by
    refine .line (by simp) ?_
    have h := ((tells_quoteChars (c := ']') (by decide)).append_const
      "-false\x7d; then\n".toList).const_append "if $\x7bshort_opts_used[".toList
    simpa using h
  have ho : Legible (fun n : Nat => [⟨1, [.code ("args_required[" ++ toString n ++ "]=false")]⟩])
      id := by
    refine .line (by simp) ?_
    have hn : ∀ n : Nat, ']' ∉ (toString n).toList := not_mem_toString (by decide)
    have h := ((Tells.upTo hn).append_const "=false\n".toList).const_append "args_required[".toList
    refine Tells.congr (k := fun n : Nat => (toString n).toList) ?_ fun m n => ?_
    · simpa using h
    · rw [String.toList_inj]
      exact ⟨toString_injective, fun h => congrArg _ h⟩
  exact ((hf.comp Prod.snd).append ((ho.comp Prod.fst).append_const [.plain "fi"])).congr
    fun y z => by simp [Prod.ext_iff, and_comm]

theorem opens_liftLines : Opens (fun z : Nat × String => liftLines z.1 z.2) [['i']] := by
  have h : Opens (fun z : Nat × String => [Line.mk 0
      [.code "if $\x7bshort_opts_used[", .word z.2, .code "]-false\x7d; then"]]) [['i']] :=
    .line (by simp) fun z => by simp [margin]
  exact h.append _

end ShellCompletion.Script
