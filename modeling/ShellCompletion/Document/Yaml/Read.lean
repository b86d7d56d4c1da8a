import ShellCompletion.Document.Mapping
import ShellCompletion.Document.Yaml.Graph
import ShellCompletion.Document.Yaml.ScalarValue

/-! Documents in YAML: the values of the nodes of a text. The scalars of a collection are
built when the collection is filled, and the collections in it are filled after it, in the
order in which they were met. Merge keys are replaced by the entries that they stand for. -/
namespace ShellCompletion.Document.Yaml

open Text

/-- Why no value can be built. -/
inductive Failure where
  | fault (f : Fault)
  | defect (d : Defect)
deriving DecidableEq, Repr

/-- What is built for a node; collections refer to the nodes of their values. -/
inductive Cell where
  | value (v : Value)
  | list (items : List Nat)
  | tuples (items : List (Nat × Nat))
  | set (keys : List Value)
  | map (entries : List (Value × Nat))

structure Builder where
  nodes : Array Node
  cells : Array (Option Cell)
  /-- Collections that are still to be filled. -/
  waiting : List Nat := []

abbrev Build := StateT Builder (Except Failure)

namespace Build

def fail {α : Type} (f : Fault) : Build α := throw (.fault f)

def nodeAt (k : Nat) : Build Node := return (← get).nodes[k]?.getD default

def setContent (k : Nat) (c : Content) : Build Unit :=
  modify fun b => { b with nodes := b.nodes.modify k fun n => { n with content := c } }

def setTag (k : Nat) (t : Tag) : Build Unit :=
  modify fun b => { b with nodes := b.nodes.modify k fun n => { n with tag := t } }

def setCell (k : Nat) (c : Cell) : Build Unit :=
  modify fun b => { b with cells := b.cells.modify k fun _ => some c }

/-- The text of a scalar, or of the value of the value key of a mapping. A way that is longer than
there are nodes comes back to a node, and goes on for ever. -/
def textOf : Nat → Nat → Build String
  | 0, _ => throw (.defect .endless)
  | fuel + 1, k => do
    let n ← nodeAt k
    match n.content with
    | .scalar s => return s
    | .sequence _ => fail (.plain (.expectedNode "a scalar node" "sequence") n.mark)
    | .mapping es =>
      let b ← get
      match es.find? fun e => (b.nodes[e.1]?.getD default).tag == .value with
      | some (_, v) => textOf fuel v
      | none => fail (.plain (.expectedNode "a scalar node" "mapping") n.mark)

def orDefect {α : Type} (x : Except Defect α) : Build α :=
  match x with
  | .ok a => return a
  | .error d => throw (.defect d)

/-- The value of a scalar. -/
def scalar (k : Nat) (tag : Tag) : Build Value := do
  let n ← nodeAt k
  let s := (← textOf ((← get).nodes.size + 1) k).toList
  match tag with
  | .null => return .null
  | .bool => return .bool (← orDefect (boolValue s))
  | .int => return .int (← orDefect (intValue s))
  | .float => return .float (← orDefect (floatValue k s))
  | .timestamp =>
    match n.content with
    | .scalar _ => orDefect (timestampValue s)
    | _ => throw (.defect .momentOfMapping)
  | .binary =>
    match binaryValue s with
    | .ok v => return v
    | .error p => fail (.plain p n.mark)
  | _ => return .str (String.ofList s)

/-- Begin to build a node: a scalar gets its value, and a collection waits to be filled. -/
def begin_ (k : Nat) : Build Unit := do
  if ((← get).cells[k]?.join).isSome then return
  let n ← nodeAt k
  let wait (c : Cell) : Build Unit := do
    setCell k c
    modify fun b => { b with waiting := b.waiting ++ [k] }
  match n.tag with
  | .seq => wait (.list [])
  | .omap | .pairs => wait (.tuples [])
  | .set => wait (.set [])
  | .map => wait (.map [])
  | .merge | .value | .indicator | .other _ => fail (.plain (.noConstructor n.tag.name) n.mark)
  | tag => setCell k (.value (← scalar k tag))

/-! ### Merging -/

def entriesAt (k : Nat) : Build (List (Nat × Nat)) := do
  match (← nodeAt k).content with
  | .mapping es => return es
  | _ => return []

/-- The entries that a merge key stands for; `inner` replaces the merge keys of a mapping. -/
def merged (inner : Nat → Build Unit) (began : Mark) (value : Nat) : Build (List (Nat × Nat)) := do
  let v ← nodeAt value
  match v.content with
  | .mapping _ =>
    inner value
    entriesAt value
  | .sequence items =>
    let parts ← items.mapM fun k => do
      let n ← nodeAt k
      match n.content with
      | .mapping _ =>
        inner k
        entriesAt k
      | c => fail (.inside .mapping began (.expectedNode "a mapping for merging" c.name) n.mark)
    return parts.reverse.flatten
  | .scalar _ =>
    fail (.inside .mapping began
      (.expectedNode "a mapping or list of mappings for merging" v.content.name) v.mark)

/-- Go through the entries of a mapping: `found` are the merged entries so far, and `kept`
the others. A value key becomes a string. -/
def flattenEntries (inner : Nat → Build Unit) (began : Mark) (k : Nat) (found kept : List (Nat × Nat)) :
    List (Nat × Nat) → Build Unit
  | [] => setContent k (.mapping (found ++ kept))
  | (key, value) :: rest => do
    match (← nodeAt key).tag with
    | .merge =>
      setContent k (.mapping (kept ++ rest))
      let more ← merged inner began value
      flattenEntries inner began k (found ++ more) kept rest
    | .value =>
      setTag key .str
      flattenEntries inner began k found (kept ++ [(key, value)]) rest
    | _ => flattenEntries inner began k found (kept ++ [(key, value)]) rest

/-- Replace the merge keys of a mapping by entries, which come before its own. -/
def flatten : Nat → Nat → Build Unit
  | 0, _ => return
  | fuel + 1, k => do
    let n ← nodeAt k
    match n.content with
    | .mapping es => flattenEntries (flatten fuel) n.mark k [] [] es
    | _ => return

/-! ### Filling -/

/-- The entries of a mapping, with the values of its keys. -/
def fillEntries (began : Mark) (done : List (Value × Nat)) : List (Nat × Nat) → Build (List (Value × Nat))
  | [] => return done
  | (key, value) :: rest => do
    begin_ key
    match (← get).cells[key]?.join with
    | some (.value v) =>
      begin_ value
      fillEntries began (insertKey done v value) rest
    | _ => fail (.inside .mapping began .unhashable (← nodeAt key).mark)

/-- How many entries the mappings of a document have. -/
def countEntries (nodes : Array Node) : Nat :=
  nodes.foldl (fun n node => match node.content with | .mapping es => n + es.length | _ => n) 0

def mappingEntries (k : Nat) : Build (List (Value × Nat)) := do
  let n ← nodeAt k
  match n.content with
  | .mapping _ =>
    flatten (countEntries (← get).nodes + 1) k
    fillEntries n.mark [] (← entriesAt k)
  | c => fail (.plain (.expectedNode "a mapping node" c.name) n.mark)

/-- The only entry of a mapping that is an item of an ordered map. -/
def onlyEntry (context : Context) (began : Mark) (k : Nat) : Build (Nat × Nat) := do
  let n ← nodeAt k
  match n.content with
  | .mapping [(key, value)] =>
    begin_ key
    begin_ value
    return (key, value)
  | .mapping es => fail (.inside context began (.severalItems es.length) n.mark)
  | c => fail (.inside context began (.expectedNode "a mapping of length 1" c.name) n.mark)

/-- Fill a collection. -/
def fillCell (k : Nat) : Build Unit := do
  let n ← nodeAt k
  match n.tag with
  | .seq =>
    match n.content with
    | .sequence items =>
      items.forM begin_
      setCell k (.list items)
    | c => fail (.plain (.expectedNode "a sequence node" c.name) n.mark)
  | .map => setCell k (.map (← mappingEntries k))
  | .set => setCell k (.set ((← mappingEntries k).map (·.1)))
  | tag =>
    let context := if tag = .pairs then Context.pairs else Context.orderedMap
    match n.content with
    | .sequence items => setCell k (.tuples (← items.mapM (onlyEntry context n.mark)))
    | c => fail (.inside context n.mark (.expectedNode "a sequence" c.name) n.mark)

/-- Fill the collections that wait, and those that come to wait meanwhile. -/
def fillAll : Nat → Build Unit
  | 0 => return
  | fuel + 1 => do
    match (← get).waiting with
    | [] => return
    | k :: rest =>
      modify fun b => { b with waiting := rest }
      fillCell k
      fillAll fuel

end Build

/-! ### Values -/

/-- The nodes that a cell refers to. -/
def Cell.parts : Cell → List Nat
  | .value _ | .set _ => []
  | .list items => items
  | .tuples items => items.flatMap fun (a, b) => [a, b]
  | .map es => es.map (·.2)

/-- The value of a cell whose parts all have values. -/
def Cell.value? (valueAt : Nat → Option Value) : Cell → Option Value
  | .value v => some v
  | .list items => .list <$> items.mapM valueAt
  | .tuples items => .list <$> items.mapM fun (a, b) => return .tuple [← valueAt a, ← valueAt b]
  | .set keys => some (.set keys)
  | .map es => .map <$> es.mapM fun (key, j) => (key, ·) <$> valueAt j

/-- The nodes that were settled, each with its value if it has one without references. -/
abbrev Settled := Array (Option (Option Value))

def Settled.valueAt (s : Settled) (k : Nat) : Option Value := s[k]?.join.join

/-- Settle a node and its parts, each node once. A node from which a cycle is reached gets no
value: on the cycle some node has a part that is not settled yet. -/
def settle (cells : Array (Option Cell)) : Nat → Nat → StateM Settled Unit
  | 0, _ => return
  | fuel + 1, k => do
    if (← get)[k]?.join.isSome then return
    modify fun s => s.modify k fun _ => some none
    match cells[k]?.join with
    | none => return
    | some c =>
      c.parts.forM (settle cells fuel)
      let v := c.value? (← get).valueAt
      modify fun s => s.modify k fun _ => some v

/-- The value of a node: the settled one, or else one with references to the containers on
the way to it. The way is given from the nearest container on; a tuple has no node of its
own. -/
def valueOf (cells : Array (Option Cell)) (settled : Settled) :
    Nat → List (Option Nat) → Nat → Value
  | 0, _, _ => .null
  | fuel + 1, way, k =>
    let inside (way : List (Option Nat)) (j : Nat) : Value :=
      match way.findIdx? (· == some j) with
      | some level => .enclosing level
      | none => valueOf cells settled fuel way j
    let here := some k :: way
    match settled.valueAt k with
    | some v => v
    | none =>
      match cells[k]?.join with
      | some (.value v) => v
      | some (.list items) => .list (items.map (inside here))
      | some (.tuples items) =>
        .list (items.map fun (a, b) => .tuple [inside (none :: here) a, inside (none :: here) b])
      | some (.set keys) => .set keys
      | some (.map es) => .map (es.map fun (key, j) => (key, inside here j))
      | none => .null

/-- The value of the document of some nodes. -/
def valueOfGraph (nodes : Array Node) (root : Nat) : Except Failure Value := do
  let build : Build Unit := do
    Build.begin_ root
    Build.fillAll (nodes.size + 1)
  let (_, b) ← build.run { nodes, cells := nodes.map fun _ => none }
  let (_, settled) := (settle b.cells (nodes.size + 1) root).run (nodes.map fun _ => none)
  return valueOf b.cells settled (nodes.size + 1) [] root

/-! ### Texts -/

/-- Characters that a text may hold. -/
def isAllowed (c : Char) : Bool :=
  let n := c.toNat
  n == 0x09 || n == 0x0A || n == 0x0D || (0x20 ≤ n && n ≤ 0x7E) || n == 0x85 ||
    (0xA0 ≤ n && n ≤ 0xD7FF) || (0xE000 ≤ n && n ≤ 0xFFFD) || 0x10000 ≤ n

inductive Error where
  /-- A byte or a character that may not stand at a place. -/
  | unacceptable (code : Nat) (reason : String) (offset : Nat)
  /-- A fault in a text. -/
  | malformed (f : Fault) (text : List Char)
  | defect (d : Defect)
deriving DecidableEq, Repr

def Error.message : Error → String
  | unacceptable code reason offset =>
    "unacceptable character #x" ++ String.ofList (hex 4 code) ++ ": " ++ reason ++
      s!"\n  in \"<byte string>\", position {offset}"
  | malformed f text => f.message text
  | defect d => d.message

/-- The error that a fault stands for. A character that does not exist is a defect of its
scalar. -/
def Error.ofFault (text : List Char) (f : Fault) : Error :=
  match f.problem with
  | .noCharacter code => .defect (.noCharacter code)
  | _ => .malformed f text

/-- The value of the document of a text, null if there is none. -/
def parse (text : List Char) : Except Error Value :=
  match text.findIdx? (!isAllowed ·) with
  | some k =>
    .error (.unacceptable ((text[k]?).getD endChar).toNat "special characters are not allowed" k)
  | none =>
    match graph text with
    | .error f => .error (.ofFault text f)
    | .ok (_, none) => .ok .null
    | .ok (nodes, some root) =>
      match valueOfGraph nodes root with
      | .ok v => .ok v
      | .error (.fault f) => .error (.malformed f text)
      | .error (.defect d) => .error (.defect d)

/-- The encoding of a text, by its first two bytes. -/
def encodingOf (bytes : List UInt8) : Encoding :=
  match bytes with
  | 0xFF :: 0xFE :: _ => .utf16 false
  | 0xFE :: 0xFF :: _ => .utf16 true
  | _ => .utf8

/-- The document in some bytes. -/
def ofBytes (bytes : List UInt8) : Except Error Value :=
  match decode (encodingOf bytes) 0 bytes with
  | .ok text => parse text
  | .error e => .error (.unacceptable e.byte.toNat e.fault.message e.start)

end ShellCompletion.Document.Yaml
