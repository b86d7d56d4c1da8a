import ShellCompletion.Files.Name

/-! A tree of files and directories. A place is the way to it from the root; relative names
start at the current directory. A name is followed part by part, and every part but the
last must lead to a directory. There are no links and no permissions: whatever is there can be
read, and only the writing of a whole file may break off, where the tree says so. -/
namespace ShellCompletion.Files

inductive Node where
  | directory
  | file (data : List UInt8)
deriving DecidableEq, Repr

/-- The way to a place from the root. -/
abbrev Place := List String

/-- Why data can not be stored. -/
inductive Shortage where
  | noSpace
  | tooLarge
  | quotaExceeded
  | deviceError
deriving DecidableEq, Repr

def Shortage.message : Shortage → String
  | noSpace => "No space left on device"
  | tooLarge => "File too large"
  | quotaExceeded => "Disk quota exceeded"
  | deviceError => "Input/output error"

/-- How the storing of data breaks off. -/
structure Break where
  /-- The number of bytes that are stored by then. -/
  stored : Nat
  reason : Shortage
deriving DecidableEq, Repr

/-- Why an operation on files fails. -/
inductive Fault where
  | notFound
  | isDirectory
  | notDirectory
  | exists_
  | nameTooLong
  /-- The name holds the character zero. -/
  | nul
  | broken (reason : Shortage)
deriving DecidableEq, Repr

def Fault.message : Fault → String
  | notFound => "No such file or directory"
  | isDirectory => "Is a directory"
  | notDirectory => "Not a directory"
  | exists_ => "File exists"
  | nameTooLong => "File name too long"
  | nul => "embedded null byte"
  | broken reason => reason.message

structure Tree where
  nodes : List (Place × Node)
  /-- The current directory. -/
  here : Place
  /-- The files whose writing breaks off. -/
  breaks : List (Place × Break) := []
deriving DecidableEq, Repr

namespace Tree

def node? (t : Tree) (p : Place) : Option Node := t.nodes.lookup p

/-- Put something at a place. -/
def put : List (Place × Node) → Place → Node → List (Place × Node)
  | [], p, n => [(p, n)]
  | e :: es, p, n => if e.1 = p then (p, n) :: es else e :: put es p n

def set (t : Tree) (p : Place) (n : Node) : Tree := { t with nodes := put t.nodes p n }

def erase (t : Tree) (p : Place) : Tree := { t with nodes := t.nodes.filter (·.1 != p) }

/-- A tree with nothing but the way to the current directory. -/
def empty (here : Place) : Tree :=
  { nodes := (List.range (here.length + 1)).map fun n => (here.take n, .directory), here }

/-- Longer parts and longer names are refused. -/
def maxPart : Nat := 255

def maxName : Nat := 4095

/-- The place that some parts lead to. -/
def follow (t : Tree) (p : Place) : List String → Except Fault Place
  | [] => .ok p
  | part :: rest =>
    match t.node? p with
    | none => .error .notFound
    | some (.file _) => .error .notDirectory
    | some .directory =>
      if maxPart < part.utf8ByteSize then .error .nameTooLong
      else follow t (if part = ".." then p.dropLast else p ++ [part]) rest

/-- The place of a name, which need not exist. -/
def locate (t : Tree) (n : Name) : Except Fault Place :=
  if n.hasNul then .error .nul
  else if maxName < n.text.utf8ByteSize then .error .nameTooLong
  else follow t (if n.isAbsolute then [] else t.here) n.parts

def isDirectory (t : Tree) (n : Name) : Bool :=
  match t.locate n with
  | .ok p => t.node? p == some .directory
  | .error _ => false

/-- The content of a file. -/
def read (t : Tree) (n : Name) : Except Fault (List UInt8) := do
  match t.node? (← t.locate n) with
  | none => throw .notFound
  | some .directory => throw .isDirectory
  | some (.file data) => return data

/-- Change what a file holds; a file that does not exist is made first. -/
def update (t : Tree) (n : Name) (f : List UInt8 → List UInt8) : Except Fault Tree := do
  let p ← t.locate n
  match t.node? p with
  | none => return t.set p (.file (f []))
  | some .directory => throw .isDirectory
  | some (.file data) => return t.set p (.file (f data))

/-- The outcome of an operation that may change the tree even when it fails. -/
abbrev Outcome := Option Fault × Tree

/-- Replace what a file holds. The file is made or emptied before the data is stored, so where
that breaks off a beginning of the data is left. -/
def write (t : Tree) (n : Name) (data : List UInt8) : Outcome :=
  match t.locate n with
  | .error f => (some f, t)
  | .ok p =>
    match t.node? p, t.breaks.lookup p with
    | some .directory, _ => (some .isDirectory, t)
    | _, none => (none, t.set p (.file data))
    | _, some b => (some (.broken b.reason), t.set p (.file (data.take b.stored)))

/-- Remove a file. -/
def remove (t : Tree) (n : Name) : Except Fault Tree := do
  let p ← t.locate n
  match t.node? p with
  | none => throw .notFound
  | some .directory => throw .isDirectory
  | some (.file _) => return t.erase p

/-- Make a directory. -/
def makeDirectory (t : Tree) (n : Name) : Except Fault Tree := do
  let p ← t.locate n
  match t.node? p with
  | none => return t.set p .directory
  | some _ => throw .exists_

/-- The operation failed, but that does not matter if the directory is there. -/
def unlessDirectory (t : Tree) (n : Name) (f : Fault) : Outcome :=
  if f != .nul && t.isDirectory n then (none, t) else (some f, t)

/-- Make a directory, and those that it is missing above it; directories above may have been
made even when the last can not be made. -/
def makeDirectories (t : Tree) : Nat → Name → Outcome
  | 0, _ => (some .notFound, t)
  | fuel + 1, n =>
    match t.makeDirectory n with
    | .ok t => (none, t)
    | .error .notFound =>
      if n.parent = n then (some .notFound, t)
      else
        match makeDirectories t fuel n.parent with
        | (some f, t) => (some f, t)
        | (none, t) =>
          match t.makeDirectory n with
          | .ok t => (none, t)
          | .error .notFound => (some .notFound, t)
          | .error f => t.unlessDirectory n f
    | .error f => t.unlessDirectory n f

/-- Make the directories of a name as far as they are missing. -/
def ensureDirectory (t : Tree) (n : Name) : Outcome := makeDirectories t (n.parts.length + 1) n

/-- Why a way can not be followed. -/
theorem fault_of_follow {t : Tree} {p : Place} {parts : List String} {f : Fault}
    (h : t.follow p parts = .error f) : f ∈ [Fault.notFound, .notDirectory, .nameTooLong] := by
  induction parts generalizing p with
  | nil => cases h
  | cons part rest ih =>
    unfold follow at h
    split at h
    · cases h; simp
    · cases h; simp
    · split at h
      · cases h; simp
      · exact ih h

/-- Why a name has no place. -/
theorem fault_of_locate {t : Tree} {n : Name} {f : Fault} (h : t.locate n = .error f) :
    f ∈ [Fault.notFound, .notDirectory, .nameTooLong] ∨ f = .nul ∧ n.hasNul = true := by
  unfold locate at h
  split at h
  · next hn => cases h; exact .inr ⟨rfl, hn⟩
  · split at h
    · cases h; simp
    · exact .inl (fault_of_follow h)

theorem node?_set_self (t : Tree) (p : Place) (n : Node) : (t.set p n).node? p = some n := by
  unfold set node?
  simp only
  induction t.nodes with
  | nil => simp [put]
  | cons e es ih =>
    obtain ⟨k, m⟩ := e
    by_cases hk : k = p
    · simp [put, hk]
    · have : (p == k) = false := by simpa using Ne.symm hk
      simp [put, hk, List.lookup_cons, this, ih]

theorem node?_set_of_ne (t : Tree) {p q : Place} (n : Node) (h : q ≠ p) :
    (t.set p n).node? q = t.node? q := by
  have hn : (q == p) = false := by simpa using h
  unfold set node?
  simp only
  induction t.nodes with
  | nil => simp [put, List.lookup_cons, hn]
  | cons e es ih =>
    obtain ⟨k, m⟩ := e
    by_cases hk : k = p
    · simp [put, hk, List.lookup_cons, hn]
    · simp [put, hk, List.lookup_cons, ih]

end Tree

end ShellCompletion.Files
