import ShellCompletion.Dump
import ShellCompletion.Log.Format

/-! A running program: its files and environment, its loggers with their handlers, and what
it has printed. Loggers are known by name; the nameless one is the root of all. A handler
is known by its number, so that several loggers can share it. -/
namespace ShellCompletion

open Log Files

/-- What a handler that writes to a file is connected to. -/
inductive Stream where
  | closed
  | connected
  /-- The file was removed, and what is written is lost. -/
  | lost
deriving DecidableEq, Repr

inductive Handler where
  | file (name : Name) (stream : Stream)
  | screen (format : ScreenFormat)
deriving DecidableEq, Repr

structure Logger where
  level : Level := 0
  /-- The logger above, by its name; none for the root. -/
  parent : Option String := none
  /-- Are records also given to the logger above? -/
  propagate : Bool := true
  handlers : List Nat := []
deriving DecidableEq, Repr

def Logger.dropHandler (l : Logger) (k : Nat) : Logger :=
  { l with handlers := l.handlers.filter (· != k) }

/-- A running program. -/
structure World where
  environment : Environment
  tree : Tree
  /-- Are errors printed on a terminal? -/
  terminal : Bool := false
  debug : Bool
  /-- The root logger. -/
  root : Logger := { level := Level.warning }
  /-- The other loggers by name. -/
  loggers : List (String × Logger) := []
  /-- All handlers ever made; a handler's number is its place. -/
  handlers : List Handler := []
  /-- The handlers that loggers are given. -/
  active : List Nat := []
  /-- What has been printed on the standard output. -/
  output : String := ""
  errors : String := ""
deriving DecidableEq, Repr

/-- The name of the logger of the program. -/
def toolLogger : String := Script.toolName

namespace World

/-- A program that has just started. -/
def start (env : Environment) (tree : Tree) : World where
  environment := env
  tree
  debug := env.isSet "DEBUG"

/-- Print a line, if the encoding of the standard output has all of its characters. -/
def print (line : String) (w : World) : Option World :=
  (w.environment.charset.encode (line ++ "\n")).map fun _ =>
    { w with output := w.output ++ line ++ "\n" }

def printError (text : String) (w : World) : World := { w with errors := w.errors ++ text ++ "\n" }

/-! ### Loggers -/

def rootName : String := "root"

def isRoot (name : String) : Bool := name.isEmpty || name == rootName

def logger? (w : World) (name : String) : Option Logger :=
  if isRoot name then some w.root else w.loggers.lookup name

/-- Put a logger under a name. -/
def putLogger : List (String × Logger) → String → Logger → List (String × Logger)
  | [], name, l => [(name, l)]
  | e :: es, name, l => if e.1 = name then (name, l) :: es else e :: putLogger es name l

def setLogger (w : World) (name : String) (l : Logger) : World :=
  if isRoot name then { w with root := l } else { w with loggers := putLogger w.loggers name l }

theorem lookup_putLogger_self (es : List (String × Logger)) (name : String) (l : Logger) :
    (putLogger es name l).lookup name = some l := by
  induction es with
  | nil => simp [putLogger]
  | cons e es ih =>
    obtain ⟨k, m⟩ := e
    by_cases hk : k = name
    · simp [putLogger, hk]
    · have : (name == k) = false := by simpa using Ne.symm hk
      simp [putLogger, hk, List.lookup_cons, this, ih]

theorem lookup_putLogger_of_ne (es : List (String × Logger)) {name other : String} (l : Logger)
    (h : other ≠ name) : (putLogger es name l).lookup other = es.lookup other := by
  have hn : (other == name) = false := by simpa using h
  induction es with
  | nil => simp [putLogger, List.lookup_cons, hn]
  | cons e es ih =>
    obtain ⟨k, m⟩ := e
    by_cases hk : k = name
    · simp [putLogger, hk, List.lookup_cons, hn]
    · simp [putLogger, hk, List.lookup_cons, ih]

theorem logger?_setLogger_self (w : World) (name : String) (l : Logger) :
    (w.setLogger name l).logger? name = some l := by
  unfold setLogger logger?
  split
  · rfl
  · simp [lookup_putLogger_self]

/-- The beginnings of a dotted name that end before a point, from the longest on, given its
characters from the last one on. A point right before another point is passed over. -/
def beginnings : Nat → List Char → List String
  | 0, _ => []
  | fuel + 1, s =>
    match s.dropWhile (· != '.') with
    | '.' :: rest =>
      if rest.isEmpty then []
      else String.ofList rest.reverse :: beginnings fuel (rest.drop 1)
    | _ => []

/-- The names above a name, from the nearest on. -/
def namesAbove (name : String) : List String := beginnings (name.length + 1) name.toList.reverse

/-- A logger as it is when a logger below it in the order of names is made: if its parent does
not lie below that one as well, that one becomes its parent. -/
def adopt (newcomer : String) (e : String × Logger) : String × Logger :=
  let parent := e.2.parent.getD rootName
  if (namesAbove e.1).contains newcomer && !newcomer.toList.isPrefixOf parent.toList then
    (e.1, { e.2 with parent := some newcomer })
  else e

/-- Make the logger of a name unless there is one. The nearest logger above it is its parent. -/
def makeLogger (name : String) (w : World) : World :=
  if (w.logger? name).isSome then w
  else
    let parent := (namesAbove name).find? fun n => (w.loggers.lookup n).isSome
    { w with loggers := w.loggers.map (adopt name) ++ [(name, { parent })] }

/-- A logger and those above it, the root being the last. -/
def ancestry (w : World) : Nat → String → List Logger
  | 0, _ => [w.root]
  | fuel + 1, name =>
    if isRoot name then [w.root]
    else
      match w.loggers.lookup name with
      | none => [w.root]
      | some l => l :: ancestry w fuel (l.parent.getD rootName)

/-- A logger and those above it. -/
def chain (w : World) (name : String) : List Logger := w.ancestry (w.loggers.length + 1) name

/-- The level from which on a logger takes records: its own, unless that is zero, or else
that of the nearest logger above it. -/
def effectiveLevel (w : World) (name : String) : Level :=
  (((w.chain name).find? (·.level != 0)).map (·.level)).getD 0

/-- The handlers that a record of a logger is given to: its own, and those of the loggers above
as far as each hands its records on. -/
def reached : List Logger → List Nat
  | [] => []
  | l :: ls => l.handlers ++ if l.propagate then reached ls else []

/-! ### Handlers -/

def setHandler (w : World) (k : Nat) (h : Handler) : World := { w with handlers := w.handlers.set k h }

/-- Add a line to a file; the fault if that can not be opened. -/
def appendLine (w : World) (name : Name) (line : String) : Option Fault × World :=
  match w.tree.update name (· ++ Text.encodeUtf8 (line ++ "\n")) with
  | .ok t => (none, { w with tree := t })
  | .error f => (some f, w)

/-- Give a record to a handler. A closed file is opened again. -/
def handle (e : Entry) (w : World) (k : Nat) : Option Fault × World :=
  match w.handlers[k]? with
  | none => (none, w)
  | some (.screen f) => (none, w.printError (f.text e))
  | some (.file _ .lost) => (none, w)
  | some (.file name _) =>
    match w.appendLine name (fileText e) with
    | (none, w) => (none, w.setHandler k (.file name .connected))
    | (some f, w) => (some f, w)

/-- Give a record to handlers in turn, up to one that fails. -/
def handleAll (e : Entry) (w : World) : List Nat → Option Fault × World
  | [] => (none, w)
  | k :: ks =>
    match handle e w k with
    | (none, w) => handleAll e w ks
    | (some f, w) => (some f, w)

/-- Records that matter little are not told when a logger has no handler. -/
def lastResort (e : Entry) (w : World) : World :=
  if Level.warning ≤ e.record.level then w.printError e.record.message else w

/-- Give a record to a logger, which is made if need be. Levels of zero and below are never
told. -/
def tell (name : String) (r : Record) (w : World) : Option Fault × World :=
  let w := w.makeLogger name
  if r.level ≤ 0 || r.level < w.effectiveLevel name then (none, w)
  else
    let e : Entry := { name := if isRoot name then rootName else name, record := r }
    match reached (w.chain name) with
    | [] => (none, w.lastResort e)
    | ks => w.handleAll e ks

/-- Give a record to a logger; handlers after one that fails do not get it. -/
def log (name : String) (r : Record) (w : World) : World := (w.tell name r).2

/-- Prepare the logger of a name: it gets the level that is given or that goes with debugging,
and the active handlers, and tells so. -/
def prepareLogger (name : String) (level : Option Level) (w : World) : Option Fault × World :=
  let w := w.makeLogger name
  let old := (w.logger? name).getD {}
  let l : Logger := { old with
    level := level.getD (if w.debug then Level.debug else Level.warning)
    propagate := false
    handlers := old.handlers ++ w.active.filter fun k => !old.handlers.contains k }
  (w.setLogger name l).tell name ⟨.debug, "Logger \"" ++ name ++ "\" initialized"⟩

/-- The program with the logger of a name prepared. -/
def getLogger (name : String) (level : Option Level) (w : World) : World :=
  (w.prepareLogger name level).2

/-- A file is closed; a screen stays what it is. -/
def closeHandler (w : World) (k : Nat) : World :=
  match w.handlers[k]? with
  | some (.file name _) => w.setHandler k (.file name .closed)
  | _ => w

/-- Take a handler away from every logger with a name, and close it. -/
def dropHandler (w : World) (k : Nat) : World :=
  let w : World := { w with loggers := w.loggers.map fun e => (e.1, e.2.dropHandler k) }
  w.closeHandler k

/-- Add a handler that loggers are given from now on. -/
def addHandler (w : World) (h : Handler) : World :=
  { w with handlers := w.handlers ++ [h], active := w.active ++ [w.handlers.length] }

/-- The parts of a name without those that a part of two points cancels. -/
def straighten (done : List String) : List String → List String
  | [] => done.reverse
  | p :: ps => straighten (if p = ".." then done.drop 1 else p :: done) ps

/-- The name of a file from the root of the tree. -/
def absoluteName (w : World) (filename : String) : Name :=
  let n := Name.ofText filename
  ⟨"/", straighten [] (if n.isAbsolute then n.parts else w.tree.here ++ n.parts)⟩

/-- Make new handlers active in place of those before: one for a file, if one is named, and
one for the screen. Nothing is active if the file can not be opened. -/
def initLogging (filename : String) (forceDebug : Bool) (w : World) : Option Fault × World :=
  let w := if forceDebug then { w with debug := true } else w
  let cleared := w.active.foldl dropHandler w
  let w := { cleared with active := [] }
  let screen : Handler := .screen ⟨usesColors w.environment w.terminal, w.debug⟩
  if filename.isEmpty then (none, w.addHandler screen)
  else
    let name := w.absoluteName filename
    match w.tree.update name id with
    | .error f => (some f, w)
    | .ok t =>
      let w := { w with tree := t }
      (none, (w.addHandler (.file name .connected)).addHandler screen)

/-- Remove a file. Handlers that write to it go on to no avail. -/
def removeFile (filename : String) (w : World) : Option Fault × World :=
  match w.tree.remove (Name.ofText filename) with
  | .error f => (some f, w)
  | .ok t =>
    let name := w.absoluteName filename
    (none, { w with
      tree := t
      handlers := w.handlers.map fun
        | .file n .connected => .file n (if n = name then .lost else .connected)
        | h => h })

end World

/-- A program whose steps log to one of its loggers. -/
structure Logging where
  world : World
  logger : String

instance : Host Logging where
  environment s := s.world.environment
  tree s := s.world.tree
  setTree t s := { s with world := { s.world with tree := t } }
  note r s := { s with world := s.world.log s.logger r }

namespace World

/-- Check a document, logging to the logger for checks. There is no verdict if the check is
interrupted. -/
def validate (document : Document.Value) (w : World) : Option Interface.Verdict × World :=
  let w := w.getLogger "validate" none
  let (v, records) := Interface.examine document
  (v, (Host.noteAll records (Logging.mk w "validate")).world)

/-- Compile a document, logging to the logger for scripts. -/
def compile (shell : String) (document : Document.Value) (w : World) :
    Except Script.CompileError String × World :=
  let w := w.getLogger "dump" none
  let (result, records) := Script.dump shell document
  (result, (Host.noteAll records (Logging.mk w "dump")).world)

/-- Dump a file, logging to the logger for scripts. -/
def dumpFile (source shell : String) (output : Option String) (w : World) :
    Except Dump.DumpError String × World :=
  let w := w.getLogger "dump" none
  let (result, s) := Dump.dumpFile source shell output (Logging.mk w "dump")
  (result, s.world)

end World

end ShellCompletion
