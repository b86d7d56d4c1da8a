import ShellCompletion.Dump
import ShellCompletion.Proofs.Document.Yaml.Defects
import ShellCompletion.Proofs.Files.Expansion
import ShellCompletion.Proofs.Load.Reading

/-! How loading ends. It gives a document, or it ends in one of the two errors that it declares,
or an error escapes that it does not declare. The main statement says what escapes: that the
home directory in the name of the source is not known, and the defects of texts in YAML. -/
namespace ShellCompletion.Load

open Document Files Host Dump

/-- A document, or one of the two errors that loading declares. -/
inductive Declared : Except LoadError Value → Prop
  | document (v : Value) : Declared (.ok v)
  | unreadable {e : LoadError}
      (name : (DumpError.load e).declared? = some ("DocumentIOError", 3)) : Declared (.error e)
  | malformed {e : LoadError}
      (name : (DumpError.load e).declared? = some ("MalformedDocumentError", 2)) :
      Declared (.error e)

theorem declared_error_iff {e : LoadError} :
    Declared (.error e) ↔ (DumpError.load e).declared? = some ("DocumentIOError", 3) ∨
      (DumpError.load e).declared? = some ("MalformedDocumentError", 2) := by
  constructor
  · rintro (_ | h | h)
    · exact .inl h
    · exact .inr h
  · rintro (h | h)
    · exact .unreadable h
    · exact .malformed h

instance (result : Except LoadError Value) : Decidable (Declared result) :=
  match result with
  | .ok v => .isTrue (.document v)
  | .error _ => decidable_of_iff _ declared_error_iff.symm

/-- An error escapes from loading. -/
inductive Escapes (env : Environment) (t : Tree) (source : String) : LoadError → Prop
  /-- The home directory at the beginning of the name is not known. -/
  | home (unknown : HomeUnknown env (.ofText (expandVariables env source))) :
      Escapes env t source (.home .unknown)
  /-- The text of the file is in YAML, and has a defect. -/
  | defect {n : Name} {bytes : List UInt8} {d : Yaml.Defect}
      (named : sourceName env source = .ok n) (read : t.read n = .ok bytes)
      (format : Format.ofName n = .yaml) (defective : Yaml.ofBytes bytes = .error (.defect d))
      (arises : Yaml.Arises bytes d) : Escapes env t source (.malformed n (.yaml (.defect d)))

theorem defect?_eq_some_iff {e : ParseError} {d : Yaml.Defect} :
    e.defect? = some d ↔ e = .yaml (.defect d) := by
  cases e with
  | yaml e => cases e <;> simp [ParseError.defect?]
  | _ => simp [ParseError.defect?]

theorem parse_eq_defect_iff {format : Format} {bytes : List UInt8} {d : Yaml.Defect} :
    parse format bytes = .error (.yaml (.defect d)) ↔
      format = .yaml ∧ Yaml.ofBytes bytes = .error (.defect d) := by
  cases format <;> rw [parse, mapError_eq_error_iff] <;> simp

/-! ### What is declared -/

theorem declared_unreadable {n : Name} {f : Files.Fault} (h : f ≠ .nul) :
    Declared (.error (.unreadable n f)) := by
  refine .unreadable ?_
  cases f with
  | nul => exact absurd rfl h
  | _ => rfl

theorem declared_malformed_iff {n : Name} {e : ParseError} :
    Declared (.error (.malformed n e)) ↔ e.defect? = none := by
  simp only [declared_error_iff, DumpError.declared?]
  cases e.defect? <;> simp

section

variable {env : Environment} {t : Tree} {source : String}

theorem not_declared_of_escapes {e : LoadError} (h : Escapes env t source e) :
    ¬Declared (.error e) := by
  cases h with
  | home unknown => simp [declared_error_iff, DumpError.declared?]
  | defect named read format defective arises =>
    rw [declared_malformed_iff, defect?_eq_some_iff.2 rfl]
    simp

/-! ### What escapes -/

/-- The home directory in the name of a source is found, or it is not known. -/
theorem sourceName_cases (hs : NulFree source) (he : NulFreeValues env) :
    (∃ n, sourceName env source = .ok n ∧ n.hasNul = false) ∧
        ¬HomeUnknown env (.ofText (expandVariables env source)) ∨
      sourceName env source = .error .unknown ∧
        HomeUnknown env (.ofText (expandVariables env source)) :=
  expandHome_cases he (hasNul_ofText (nulFree_expandVariables he hs))

theorem documentOf_of_escapes (hs : NulFree source) (he : NulFreeValues env) {e : LoadError}
    (h : Escapes env t source e) : documentOf env t source = .error e := by
  cases h with
  | home unknown =>
    obtain ⟨_, known⟩ | ⟨hn, _⟩ := sourceName_cases hs he
    · exact absurd unknown known
    · exact documentOf_homeless hn
  | defect named read format defective arises =>
    rw [documentOf_of_read named read]
    exact parseNamed_error (parse_eq_defect_iff.2 ⟨format, defective⟩)

theorem escapes_of_not_declared (hs : NulFree source) (he : NulFreeValues env)
    (h : ¬Declared (documentOf env t source)) : ∃ e, Escapes env t source e := by
  obtain ⟨⟨n, hn, nulFree⟩, _⟩ | ⟨_, unknown⟩ := sourceName_cases hs he
  · cases hr : t.read n with
    | error f =>
      -- the one fault of a file that is not declared needs a zero in its name
      rw [documentOf_unreadable hn hr] at h
      have hf : f ≠ .nul := fun hf => t.read_ne_error_nul nulFree (hf ▸ hr)
      exact absurd (declared_unreadable hf) h
    | ok bytes =>
      rw [documentOf_of_read hn hr] at h
      cases hp : parse (Format.ofName n) bytes with
      | ok v =>
        rw [parseNamed_ok hp] at h
        exact absurd (.document v) h
      | error e =>
        rw [parseNamed_error hp, declared_malformed_iff] at h
        obtain ⟨d, hd⟩ := Option.ne_none_iff_exists'.1 h
        rw [defect?_eq_some_iff.1 hd] at hp
        obtain ⟨format, defective⟩ := parse_eq_defect_iff.1 hp
        exact ⟨_, .defect hn hr format defective (Yaml.arises_of_ofBytes defective)⟩
  · exact ⟨_, .home unknown⟩

end

/-- A tree whose only file holds a date whose month does not exist. -/
def noSuchMonth : Trace where
  environment := {}
  tree := { nodes := [([], .directory), (["t.yaml"],
      .file [0x32, 0x30, 0x30, 0x31, 0x2D, 0x31, 0x33, 0x2D, 0x30, 0x31])]
            here := [] }

end ShellCompletion.Load
