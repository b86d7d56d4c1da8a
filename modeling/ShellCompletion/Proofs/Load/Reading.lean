import ShellCompletion.Load
import ShellCompletion.Proofs.Host

/-! Loading in two stages: the file that a source names is read, and its content is parsed. The
main statement says that loading is the one after the other, with notes in between. -/
namespace ShellCompletion.Load

open Document Files Host

theorem mapError_eq_ok_iff {ε ε' α : Type} {x : Except ε α} {f : ε → ε'} {a : α} :
    x.mapError f = .ok a ↔ x = .ok a := by
  cases x with
  | ok b =>
    change Except.ok b = .ok a ↔ _
    simp
  | error e => exact ⟨fun h => (nomatch h), fun h => (nomatch h)⟩

theorem mapError_eq_error_iff {ε ε' α : Type} {x : Except ε α} {f : ε → ε'} {e' : ε'} :
    x.mapError f = .error e' ↔ ∃ e, x = .error e ∧ f e = e' := by
  cases x with
  | ok a => exact ⟨fun h => (nomatch h), fun ⟨_, h, _⟩ => (nomatch h)⟩
  | error e =>
    change Except.error (f e) = .error e' ↔ _
    simp

theorem mapError_bind {ε ε' α β : Type} (x : Except ε α) (g : α → Except ε β) (f : ε → ε') :
    (x >>= g).mapError f = x.mapError f >>= fun a => (g a).mapError f := by
  cases x <;> rfl

/-- The name of the file that a source names, and its content. -/
def readSource (env : Environment) (t : Tree) (source : String) :
    Except LoadError (Name × List UInt8) := do
  let n ← (sourceName env source).mapError .home
  let bytes ← (t.read n).mapError (.unreadable n)
  return (n, bytes)

/-- The document in the content of a file. -/
def parseNamed (file : Name × List UInt8) : Except LoadError Value :=
  (parse (Format.ofName file.1) file.2).mapError (.malformed file.1)

/-- The document that a source names. -/
def documentOf (env : Environment) (t : Tree) (source : String) : Except LoadError Value := do
  parseNamed (← readSource env t source)

section

variable {env : Environment} {t : Tree} {source : String} {n : Name}

theorem documentOf_homeless {e : HomeError} (hn : sourceName env source = .error e) :
    documentOf env t source = .error (.home e) := by
  rw [documentOf, readSource, hn]
  rfl

theorem readSource_of_named (hn : sourceName env source = .ok n) :
    readSource env t source = (do
      let bytes ← (t.read n).mapError (.unreadable n)
      return (n, bytes)) := by
  rw [readSource, hn]
  rfl

theorem documentOf_unreadable {f : Files.Fault} (hn : sourceName env source = .ok n)
    (hr : t.read n = .error f) : documentOf env t source = .error (.unreadable n f) := by
  rw [documentOf, readSource_of_named hn, hr]
  rfl

theorem documentOf_of_read {bytes : List UInt8} (hn : sourceName env source = .ok n)
    (hr : t.read n = .ok bytes) : documentOf env t source = parseNamed (n, bytes) := by
  rw [documentOf, readSource_of_named hn, hr]
  rfl

theorem parseNamed_ok {bytes : List UInt8} {v : Value}
    (h : parse (Format.ofName n) bytes = .ok v) : parseNamed (n, bytes) = .ok v := by
  rw [parseNamed, h]
  rfl

theorem parseNamed_error {bytes : List UInt8} {e : ParseError}
    (h : parse (Format.ofName n) bytes = .error e) :
    parseNamed (n, bytes) = .error (.malformed n e) := by
  rw [parseNamed, h]
  rfl

end

variable {σ : Type} [Host σ] {P : σ → Prop} {s : σ}

/-- Loading gives the document, and leaves files alone. -/
theorem load_eq (apart : Apart P) (source : String) (hs : P s) :
    (load source s).1 = documentOf (environment s) (tree s) source ∧ P (load source s).2 ∧
      SameFiles s (load source s).2 := by
  unfold load
  cases hn : sourceName (environment s) source with
  | error e => exact ⟨(documentOf_homeless hn).symm, hs, rfl, rfl⟩
  | ok n =>
    obtain ⟨h₁, same₁⟩ := apart.note ⟨.info, "Loading " ++ n.text⟩ s hs
    obtain ⟨h₂, same₂⟩ := apart.note
      ⟨.debug, "Parsing " ++ n.text ++ " as " ++ (Format.ofName n).name⟩ _ h₁
    simp only [same₁.tree]
    cases hr : (tree s).read n with
    | error f => exact ⟨(documentOf_unreadable hn hr).symm, h₁, same₁⟩
    | ok bytes =>
      rw [documentOf_of_read hn hr]
      simp only
      cases hp : parse (Format.ofName n) bytes with
      | error e => exact ⟨(parseNamed_error hp).symm, h₂, same₁.trans same₂⟩
      | ok v => exact ⟨(parseNamed_ok hp).symm, h₂, same₁.trans same₂⟩

end ShellCompletion.Load
