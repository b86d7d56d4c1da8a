import ShellCompletion.Document.Yaml.Resolve
import ShellCompletion.Document.Yaml.Tokens

/-! The nodes of a document in YAML. A node is known by its number; an alias stands for the
number of the node with its anchor, so nodes form a graph that may have cycles. Nodes are
made from tokens as far as these go; where they end too early, the fault that ended them
counts. -/
namespace ShellCompletion.Document.Yaml

/-- What a node holds; collections hold the numbers of their nodes. -/
inductive Content where
  | scalar (text : String)
  | sequence (items : List Nat)
  | mapping (entries : List (Nat × Nat))
deriving DecidableEq, Repr, Inhabited

/-- The name of a kind of node, as messages use it. -/
def Content.name : Content → String
  | scalar _ => "scalar"
  | sequence _ => "sequence"
  | mapping _ => "mapping"

structure Node where
  tag : Tag
  content : Content
  mark : Mark
deriving DecidableEq, Repr

instance : Inhabited Node := ⟨⟨.null, .scalar "", ⟨0, 0, 0⟩⟩⟩

/-- The nodes so far, and what is needed to make more. -/
structure Maker where
  tokens : List Token
  /-- What ends the tokens, if they end too early. -/
  fault : Option Fault
  handles : List (String × String) := []
  nodes : Array Node := #[]
  anchors : List (String × Nat) := []

/-- Making nodes changes the maker or finds a fault. -/
abbrev Make := StateT Maker (Except Fault)

namespace Make

/-- The next token. -/
def peek : Make Token := do
  let s ← get
  match s.tokens with
  | t :: _ => return t
  | [] => throw (s.fault.getD (.plain .endOfStream ⟨0, 0, 0⟩))

/-- The next token, which is taken. -/
def take : Make Token := do
  let t ← peek
  modify fun s => { s with tokens := s.tokens.drop 1 }
  return t

/-- Is the next token of one of some kinds? -/
def at_ (p : TokenKind → Bool) : Make Bool := return p (← peek).kind

def add (n : Node) : Make Nat := do
  let s ← get
  set { s with nodes := s.nodes.push n }
  return s.nodes.size

/-- Give a node its final content. -/
def fill (k : Nat) (c : Content) : Make Unit :=
  modify fun s => { s with nodes := s.nodes.modify k fun n => { n with content := c } }

/-- Name a node; a name may be given only once. -/
def nameNode (anchor : Option String) (start : Mark) (node : Make Nat) : Make Nat := do
  match anchor with
  | none => node
  | some a =>
    let s ← get
    match s.anchors.lookup a with
    | some k =>
      throw (.inside (.duplicateAnchor a) (s.nodes[k]?.getD default).mark .secondOccurrence start)
    | none =>
      let k ← node
      modify fun s => { s with anchors := (a, k) :: s.anchors }
      return k

/-- An empty scalar. -/
def empty (m : Mark) : Make Nat := add ⟨.null, .scalar "", m⟩

def isBlockEnd : TokenKind → Bool
  | .blockEnd => true
  | _ => false

def isBlockEntry : TokenKind → Bool
  | .blockEntry => true
  | _ => false

def isKey : TokenKind → Bool
  | .key => true
  | _ => false

def isValue : TokenKind → Bool
  | .value => true
  | _ => false

def isFlowEntry : TokenKind → Bool
  | .flowEntry => true
  | _ => false

def isSequenceEnd : TokenKind → Bool
  | .flowSequenceEnd => true
  | _ => false

def isMappingEnd : TokenKind → Bool
  | .flowMappingEnd => true
  | _ => false

/-- The anchor and the tag in front of a node, in either order, with the places where they
and where the tag begin. -/
structure Properties where
  anchor : Option String := none
  tag : Option (Option String × String) := none
  start : Option Mark := none
  tagStart : Mark := ⟨0, 0, 0⟩

def properties : Make Properties := do
  let t ← peek
  match t.kind with
  | .anchor a =>
    let _ ← take
    let u ← peek
    match u.kind with
    | .tag h s =>
      let _ ← take
      return { anchor := some a, tag := some (h, s), start := some t.start, tagStart := u.start }
    | _ => return { anchor := some a, start := some t.start }
  | .tag h s =>
    let _ ← take
    let u ← peek
    match u.kind with
    | .anchor a =>
      let _ ← take
      return { anchor := some a, tag := some (h, s), start := some t.start, tagStart := t.start }
    | _ => return { tag := some (h, s), start := some t.start, tagStart := t.start }
  | _ => return {}

/-- The name of a tag; its handle must be known. -/
def tagName (p : Properties) : Make (Option String) := do
  match p.tag with
  | none => return none
  | some (none, s) => return some s
  | some (some h, s) =>
    match (← get).handles.lookup h with
    | some uri => return some (uri ++ s)
    | none => throw ⟨some .node, p.start, .undefinedHandle h, p.tagStart⟩

/-- The tag of a collection, which is the usual one unless another is given. -/
def collectionTag (usual : Tag) (name : Option String) : Tag :=
  match name with
  | none => usual
  | some s => if s = "!" then usual else .ofName s

/-- The tag of a scalar. A plain one without a tag goes by its looks, and so does any one
whose tag is a lone exclamation mark. -/
def scalarTag (text : String) (plain : Bool) (name : Option String) : Tag :=
  match name with
  | none => if plain then plainTag text.toList else .str
  | some s => if s = "!" then plainTag text.toList else .ofName s

/-- Fail on the next token. -/
def failAt {α : Type} (c : Context) (began : Mark) (p : String → Problem) : Make α := do
  let t ← peek
  throw (.inside c began (p t.kind.name) t.start)

mutual

/-- A node. In block, blocks are allowed too, and as the value of a mapping also sequences
that are not indented. -/
def node (block indentless : Bool) : Nat → Make Nat
  | 0 => empty ⟨0, 0, 0⟩
  | fuel + 1 => do
    let t ← peek
    match t.kind with
    | .reference a =>
      let _ ← take
      match (← get).anchors.lookup a with
      | some k => return k
      | none => throw (.plain (.undefinedAlias a) t.start)
    | _ =>
      let p ← properties
      let name ← tagName p
      let t ← peek
      let start := p.start.getD t.start
      let collection (usual : Tag) (c : Content) (rest : Make Content) : Make Nat := do
        let k ← nameNode p.anchor start (add ⟨collectionTag usual name, c, start⟩)
        fill k (← rest)
        return k
      match t.kind with
      | .scalar text plain =>
        let _ ← take
        nameNode p.anchor start (add ⟨scalarTag text plain name, .scalar text, start⟩)
      | .flowSequenceStart =>
        collection .seq (.sequence []) do
          let _ ← take
          return .sequence (← flowItems t.start true [] fuel)
      | .flowMappingStart =>
        collection .map (.mapping []) do
          let _ ← take
          return .mapping (← flowEntries t.start true [] fuel)
      | kind =>
        if indentless && isBlockEntry kind then
          collection .seq (.sequence []) do return .sequence (← indentlessItems [] fuel)
        else if block && kind == .blockSequenceStart then
          collection .seq (.sequence []) do
            let _ ← take
            return .sequence (← blockItems t.start [] fuel)
        else if block && kind == .blockMappingStart then
          collection .map (.mapping []) do
            let _ ← take
            return .mapping (← blockEntries t.start [] fuel)
        else if p.start.isSome then
          nameNode p.anchor start (add ⟨scalarTag "" true name, .scalar "", start⟩)
        else
          failAt (if block then .blockNode else .flowNode) start (.expectedToken "the node content")

/-- The items of a block sequence; `done` holds those so far, last first. -/
def blockItems (began : Mark) (done : List Nat) : Nat → Make (List Nat)
  | 0 => return done.reverse
  | fuel + 1 => do
    let t ← peek
    if isBlockEntry t.kind then
      let _ ← take
      let k ← if ← at_ fun x => isBlockEntry x || isBlockEnd x then empty t.stop
        else node true false fuel
      blockItems began (k :: done) fuel
    else if isBlockEnd t.kind then
      let _ ← take
      return done.reverse
    else failAt .blockCollection began (.expectedToken "<block end>")

/-- The items of a sequence that is not indented. -/
def indentlessItems (done : List Nat) : Nat → Make (List Nat)
  | 0 => return done.reverse
  | fuel + 1 => do
    let t ← peek
    if isBlockEntry t.kind then
      let _ ← take
      let k ← if ← at_ fun x => isBlockEntry x || isKey x || isValue x || isBlockEnd x then empty t.stop
        else node true false fuel
      indentlessItems (k :: done) fuel
    else return done.reverse

/-- The entries of a block mapping. -/
def blockEntries (began : Mark) (done : List (Nat × Nat)) : Nat → Make (List (Nat × Nat))
  | 0 => return done.reverse
  | fuel + 1 => do
    let t ← peek
    if isKey t.kind then
      let _ ← take
      let ends (x : TokenKind) : Bool := isKey x || isValue x || isBlockEnd x
      let k ← if ← at_ ends then empty t.stop else node true true fuel
      let u ← peek
      let v ←
        if isValue u.kind then do
          let _ ← take
          if ← at_ ends then empty u.stop else node true true fuel
        else empty u.start
      blockEntries began ((k, v) :: done) fuel
    else if isBlockEnd t.kind then
      let _ ← take
      return done.reverse
    else failAt .blockMapping began (.expectedToken "<block end>")

/-- The items of a flow sequence. -/
def flowItems (began : Mark) (first : Bool) (done : List Nat) : Nat → Make (List Nat)
  | 0 => return done.reverse
  | fuel + 1 => do
    if !(← at_ isSequenceEnd) && !first then
      if ← at_ isFlowEntry then let _ ← take
      else failAt .flowSequence began (.gotToken "',' or ']'")
    let t ← peek
    if isSequenceEnd t.kind then
      let _ ← take
      return done.reverse
    else if isKey t.kind then
      let m ← add ⟨.map, .mapping [], t.start⟩
      fill m (.mapping [← pair fuel])
      flowItems began false (m :: done) fuel
    else
      let k ← node false false fuel
      flowItems began false (k :: done) fuel

/-- A key with its value, as an item of a flow sequence. -/
def pair : Nat → Make (Nat × Nat)
  | 0 => return (0, 0)
  | fuel + 1 => do
    let t ← take
    let k ← if ← at_ fun x => isValue x || isFlowEntry x || isSequenceEnd x then empty t.stop
      else node false false fuel
    let u ← peek
    let v ←
      if isValue u.kind then do
        let _ ← take
        if ← at_ fun x => isFlowEntry x || isSequenceEnd x then empty u.stop else node false false fuel
      else empty u.start
    return (k, v)

/-- The entries of a flow mapping. -/
def flowEntries (began : Mark) (first : Bool) (done : List (Nat × Nat)) : Nat → Make (List (Nat × Nat))
  | 0 => return done.reverse
  | fuel + 1 => do
    if !(← at_ isMappingEnd) && !first then
      if ← at_ isFlowEntry then let _ ← take
      else failAt .flowMapping began (.gotToken "',' or '\x7d'")
    let t ← peek
    if isMappingEnd t.kind then
      let _ ← take
      return done.reverse
    else if isKey t.kind then
      let _ ← take
      let k ← if ← at_ fun x => isValue x || isFlowEntry x || isMappingEnd x then empty t.stop
        else node false false fuel
      let u ← peek
      let v ←
        if isValue u.kind then do
          let _ ← take
          if ← at_ fun x => isFlowEntry x || isMappingEnd x then empty u.stop else node false false fuel
        else empty u.start
      flowEntries began false ((k, v) :: done) fuel
    else
      let k ← node false false fuel
      let v ← empty (← peek).start
      flowEntries began false ((k, v) :: done) fuel

end

/-! ### Documents -/

/-- The handles that need no directive. -/
def usualHandles : List (String × String) := [("!", "!"), ("!!", Tag.root)]

/-- The directives in front of a document. -/
def directives (versioned : Bool) (handles : List (String × String)) : Nat → Make Unit
  | 0 => return
  | fuel + 1 => do
    let t ← peek
    match t.kind with
    | .directive d =>
      let _ ← take
      match d with
      | .version major _ =>
        if versioned then throw (.plain .duplicateVersion t.start)
        if major != 1 then throw (.plain .badVersion t.start)
        directives true handles fuel
      | .handle h uri =>
        if (handles.lookup h).isSome then throw (.plain (.duplicateHandle h) t.start)
        directives versioned (handles ++ [(h, uri)]) fuel
      | .other => directives versioned handles fuel
    | _ => modify fun s => { s with handles := handles ++ usualHandles }

/-- Go past marks of the end of a document. -/
def skipEnds : Nat → Make Unit
  | 0 => return
  | fuel + 1 => do
    if (← peek).kind == .documentEnd then
      let _ ← take
      skipEnds fuel

/-- The start of a document that is marked, with its place, or the end of the text. -/
def start (fuel : Nat) : Make (Option Mark) := do
  skipEnds fuel
  let t ← peek
  if t.kind == .streamEnd then
    let _ ← take
    return none
  directives false [] fuel
  let u ← peek
  if u.kind != .documentStart then
    throw (.plain (.expectedToken "'<document start>'" u.kind.name) u.start)
  let _ ← take
  return some t.start

def isDirective : TokenKind → Bool
  | .directive _ => true
  | _ => false

/-- The node of a document that may be empty. -/
def documentNode (fuel : Nat) : Make Nat := do
  let t ← peek
  if isDirective t.kind || t.kind == .documentStart || t.kind == .documentEnd || t.kind == .streamEnd then
    empty t.start
  else node true false fuel

/-- The root of the only document of a text, if there is one. -/
def root (fuel : Nat) : Make (Option Nat) := do
  let _ ← take
  let t ← peek
  let found ←
    if isDirective t.kind || t.kind == .documentStart || t.kind == .streamEnd then do
      match ← start fuel with
      | none => pure none
      | some _ => pure (some (← documentNode fuel))
    else do
      modify fun s => { s with handles := usualHandles }
      pure (some (← node true false fuel))
  match found with
  | none => return none
  | some k =>
    if (← peek).kind == .documentEnd then let _ ← take
    match ← start fuel with
    | none => return some k
    | some m =>
      let n := (← get).nodes[k]?.getD default
      throw (.inside .singleDocument n.mark .anotherDocument m)

end Make

/-- The nodes of a text and its root, if the text holds a document. -/
def graph (s : List Char) : Except Fault (Array Node × Option Nat) := do
  let (ts, fault) := tokens s
  let (root, m) ← (Make.root (4 * ts.length + 4)).run { tokens := ts, fault }
  return (m.nodes, root)

end ShellCompletion.Document.Yaml
