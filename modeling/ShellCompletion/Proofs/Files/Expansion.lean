import ShellCompletion.Files.Tree

/-! Names of files without the character zero. A source and an environment that do not hold it
give a name that does not, and of such a name no operation complains that it holds one. The last
section says of which names the home directory is not known. -/
namespace ShellCompletion.Files

/-- A text without the character zero. -/
def NulFree (s : String) : Prop := '\x00' ∉ s.toList

/-- No variable has the character zero in its value, and no home directory has it. -/
structure NulFreeValues (env : Environment) : Prop where
  values : ∀ v ∈ env.values, NulFree v.2
  ownHome : ∀ home ∈ env.ownHome, NulFree home
  homes : ∀ user ∈ env.homes, NulFree user.2

theorem nulFree_of_lookup {values : List (String × String)} (h : ∀ v ∈ values, NulFree v.2)
    {name v : String} (hv : values.lookup name = some v) : NulFree v := by
  obtain ⟨before, after, rfl, _⟩ := List.lookup_eq_some_iff.1 hv
  exact h (name, v) (by simp)

/-! ### Expansion -/

theorem nul_not_mem_expandFrom {env : Environment} (he : NulFreeValues env) (fuel : Nat)
    (s : List Char) (hs : '\x00' ∉ s) : '\x00' ∉ expandFrom env fuel s := by
  induction fuel generalizing s with
  | zero => exact hs
  | succ fuel ih =>
    cases s with
    | nil => simp [expandFrom]
    | cons c r =>
      have hr : '\x00' ∉ r := fun h => hs (List.mem_cons_of_mem c h)
      have here (r' : List Char) (h : '\x00' ∉ r') : '\x00' ∉ c :: r' := by simp_all
      unfold expandFrom
      split
      · split
        · exact here _ (ih r hr)
        · next name size _ =>
          have hd := ih (r.drop size) fun h => hr (List.mem_of_mem_drop h)
          have ht : '\x00' ∉ '$' :: r.take size := by
            simpa using fun h => hr (List.mem_of_mem_take h)
          rw [List.mem_append, not_or]
          refine ⟨?_, hd⟩
          split
          · next v hv => exact nulFree_of_lookup he.values hv
          · exact ht
      · exact here _ (ih r hr)

theorem nulFree_expandVariables {env : Environment} (he : NulFreeValues env) {s : String}
    (hs : NulFree s) : NulFree (expandVariables env s) := by
  rw [NulFree, expandVariables, String.toList_ofList]
  exact nul_not_mem_expandFrom he _ _ hs

/-! ### Names -/

theorem splitSlashes_cons (c : Char) (s : List Char) :
    splitSlashes (c :: s) = if c == '/' then [] :: splitSlashes s
      else match splitSlashes s with
        | p :: ps => (c :: p) :: ps
        | [] => [[c]] := rfl

/-- The characters of the parts of a text are characters of the text. -/
theorem mem_of_mem_splitSlashes {s p : List Char} (hp : p ∈ splitSlashes s) {c : Char}
    (hc : c ∈ p) : c ∈ s := by
  induction s generalizing p with
  | nil => simp_all [splitSlashes]
  | cons d s ih =>
    rw [splitSlashes_cons] at hp
    split at hp
    · rcases List.mem_cons.1 hp with rfl | hp
      · simp at hc
      · exact List.mem_cons_of_mem d (ih hp hc)
    · cases hs : splitSlashes s with
      | nil => simp_all
      | cons q qs =>
        rw [hs] at hp ih
        rcases List.mem_cons.1 hp with rfl | hp
        · rcases List.mem_cons.1 hc with rfl | hc
          · exact List.mem_cons_self
          · exact List.mem_cons_of_mem d (ih List.mem_cons_self hc)
        · exact List.mem_cons_of_mem d (ih (List.mem_cons_of_mem q hp) hc)

theorem hasNul_eq_false_iff {n : Name} : n.hasNul = false ↔ ∀ p ∈ n.parts, NulFree p := by
  simp [Name.hasNul, NulFree]

theorem hasNul_ofText {s : String} (hs : NulFree s) : (Name.ofText s).hasNul = false := by
  rw [hasNul_eq_false_iff]
  intro part hp
  obtain ⟨chars, hc, rfl⟩ := List.mem_map.1 hp
  rw [NulFree, String.toList_ofList]
  exact fun h => hs (mem_of_mem_splitSlashes (List.mem_filter.1 hc).1 h)

theorem nulFree_dropEndSlashes {s : String} (hs : NulFree s) : NulFree (dropEndSlashes s) := by
  rw [NulFree, dropEndSlashes, String.toList_ofList, List.mem_reverse]
  exact fun h => hs (List.mem_reverse.1 ((List.dropWhile_sublist _).subset h))

/-! ### The home directory -/

/-- A name that begins with the home directory of a user. -/
def homeName (user : List Char) (rest : List String) : Name :=
  ⟨"", String.ofList ('~' :: user) :: rest⟩

/-- The home directory of a user is not known, or begins with a tilde again. -/
def UserUnknown (env : Environment) (user : List Char) : Prop :=
  ∀ home, homeOf? env (String.ofList user) = some home →
    (dropEndSlashes home).toList.head? = some '~'

/-- A name begins with a home directory that is not known. -/
def HomeUnknown (env : Environment) (n : Name) : Prop :=
  ∃ user rest, n = homeName user rest ∧ UserUnknown env user

theorem homeUnknown_homeName_iff {env : Environment} {user : List Char} {rest : List String} :
    HomeUnknown env (homeName user rest) ↔ UserUnknown env user := by
  refine ⟨?_, fun h => ⟨user, rest, rfl, h⟩⟩
  rintro ⟨user', rest', h, hu⟩
  simp only [homeName, Name.mk.injEq, List.cons.injEq, true_and] at h
  have h := congrArg String.toList h.1
  simp only [String.toList_ofList, List.cons.injEq, true_and] at h
  exact h ▸ hu

theorem expandHome_homeName (env : Environment) {user : List Char} (hu : '\x00' ∉ user)
    (rest : List String) :
    expandHome env (homeName user rest) =
      match homeOf? env (String.ofList user) with
      | none => .error .unknown
      | some h =>
        let home := dropEndSlashes h
        if home.toList.head? == some '~' then .error .unknown
        else
          let base := Name.ofText (if home.isEmpty then "/" else home)
          .ok { base with parts := base.parts ++ rest } := by
  have hc : user.contains '\x00' = false := by simpa using hu
  cases hh : homeOf? env (String.ofList user) <;>
    simp only [expandHome, homeName, String.toList_ofList, hc, hh, Bool.false_eq_true, ↓reduceIte]

/-- Any other name stays as it is. -/
theorem expandHome_of_ne {env : Environment} {n : Name} (h : ∀ user rest, n ≠ homeName user rest) :
    expandHome env n = .ok n := by
  obtain ⟨root, parts⟩ := n
  unfold expandHome
  split
  · next first rest hr hp =>
    split
    · next user hf =>
      refine absurd ?_ (h user rest)
      simp only at hr hp
      rw [hr, hp, homeName, ← hf, String.ofList_toList]
    · rfl
  · rfl

theorem nul_not_mem_user {user : List Char} {rest : List String}
    (h : (homeName user rest).hasNul = false) : '\x00' ∉ user := by
  have := hasNul_eq_false_iff.1 h (String.ofList ('~' :: user)) (by simp [homeName])
  rw [NulFree, String.toList_ofList] at this
  exact fun h => this (List.mem_cons_of_mem _ h)

theorem nulFree_of_homeOf? {env : Environment} (he : NulFreeValues env) {user home : String}
    (h : homeOf? env user = some home) : NulFree home := by
  unfold homeOf? at h
  split at h
  · obtain hv | ⟨_, own⟩ := Option.or_eq_some_iff.1 h
    · exact nulFree_of_lookup he.values hv
    · exact he.ownHome home own
  · exact nulFree_of_lookup he.homes h

theorem hasNul_append {root : String} {parts rest : List String} (hp : ∀ p ∈ parts, NulFree p)
    (hr : ∀ p ∈ rest, NulFree p) : Name.hasNul ⟨root, parts ++ rest⟩ = false :=
  hasNul_eq_false_iff.2 fun p h => (List.mem_append.1 h).elim (hp p) (hr p)

/-- Of a name without the character zero, the home directory is found, which gives a name
without it, or it is not known. -/
theorem expandHome_cases {env : Environment} (he : NulFreeValues env) {n : Name}
    (hn : n.hasNul = false) :
    (∃ m, expandHome env n = .ok m ∧ m.hasNul = false) ∧ ¬HomeUnknown env n ∨
      expandHome env n = .error .unknown ∧ HomeUnknown env n := by
  by_cases h : ∃ user rest, n = homeName user rest
  · obtain ⟨user, rest, rfl⟩ := h
    rw [expandHome_homeName env (nul_not_mem_user hn), homeUnknown_homeName_iff]
    cases hh : homeOf? env (String.ofList user) with
    | none => exact .inr ⟨rfl, by simp [UserUnknown, hh]⟩
    | some home =>
      have known : UserUnknown env user ↔ (dropEndSlashes home).toList.head? = some '~' := by
        simp [UserUnknown, hh]
      simp only [beq_iff_eq, known]
      split
      · next ht => exact .inr ⟨rfl, ht⟩
      · next ht =>
        refine .inl ⟨⟨_, rfl, hasNul_append (hasNul_eq_false_iff.1 (hasNul_ofText ?_)) ?_⟩, ht⟩
        · split
          · simp [NulFree]
          · exact nulFree_dropEndSlashes (nulFree_of_homeOf? he hh)
        · exact fun p hp => hasNul_eq_false_iff.1 hn p (List.mem_cons_of_mem _ hp)
  · have h' : ∀ user rest, n ≠ homeName user rest := fun user rest hn => h ⟨user, rest, hn⟩
    exact .inl ⟨⟨n, expandHome_of_ne h', hn⟩, fun ⟨user, rest, hn, _⟩ => h' user rest hn⟩

/-! ### Operations on files -/

namespace Tree

theorem locate_ne_error_nul (t : Tree) {n : Name} (hn : n.hasNul = false) :
    t.locate n ≠ .error .nul := by
  intro h
  obtain h | ⟨_, h⟩ := fault_of_locate h
  · simp at h
  · rw [hn] at h
    cases h

/-- Reading a file complains of the character zero only if its name holds it. -/
theorem read_ne_error_nul (t : Tree) {n : Name} (hn : n.hasNul = false) :
    t.read n ≠ .error .nul := by
  have hl := t.locate_ne_error_nul hn
  unfold read
  cases h : t.locate n with
  | error f => simpa [h, bind, Except.bind] using hl
  | ok p =>
    simp only [bind, Except.bind]
    split <;> simp [throw, throwThe, MonadExceptOf.throw, pure, Except.pure]

end Tree

end ShellCompletion.Files
