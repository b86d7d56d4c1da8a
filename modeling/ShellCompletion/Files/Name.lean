import ShellCompletion.Environment
import ShellCompletion.Text.LowerCase

/-! Names of files: a root, for absolute names, and parts. Empty parts and parts that are a
single point are left out when a name is read. -/
namespace ShellCompletion.Files

/-- The name of a file. -/
structure Name where
  /-- Empty for a name relative to the current directory; else one slash, or two. -/
  root : String
  parts : List String
deriving DecidableEq, Repr

/-- A text cut at every slash. -/
def splitSlashes (s : List Char) : List (List Char) :=
  s.foldr (fun c parts =>
    if c == '/' then [] :: parts
    else match parts with
      | p :: ps => (c :: p) :: ps
      | [] => [[c]]) [[]]

namespace Name

/-- Two slashes at the start are kept, and three are as good as one. -/
def rootOf (s : List Char) : String :=
  match (s.takeWhile (· == '/')).length with
  | 0 => ""
  | 2 => "//"
  | _ => "/"

def ofText (s : String) : Name where
  root := rootOf s.toList
  parts := ((splitSlashes s.toList).filter fun p => !p.isEmpty && p != ['.']).map String.ofList

/-- A name is never written as nothing. -/
def text (n : Name) : String :=
  let s := n.root ++ "/".intercalate n.parts
  if s.isEmpty then "." else s

def isAbsolute (n : Name) : Bool := !n.root.isEmpty

/-- The name without its last part; a name without parts is its own parent. -/
def parent (n : Name) : Name := { n with parts := n.parts.dropLast }

/-- The part of the last part from its last point on, unless that is its first or its last
character. -/
def suffix (n : Name) : String :=
  let name := (n.parts.getLast?.getD "").toList
  let tail := name.reverse.takeWhile (· != '.')
  if tail.length < name.length && 0 < tail.length && tail.length + 1 < name.length then
    String.ofList ('.' :: tail.reverse)
  else ""

/-- Does the name end in a suffix, in any case? -/
def hasSuffix (n : Name) (s : String) : Bool := Text.lower n.suffix.toList == s.toList

def hasNul (n : Name) : Bool := n.parts.any fun p => p.toList.contains '\x00'

end Name

/-! ### Expansion -/

def isVariableChar (c : Char) : Bool :=
  ('A' ≤ c && c ≤ 'Z') || ('a' ≤ c && c ≤ 'z') || ('0' ≤ c && c ≤ '9') || c == '_'

/-- The variable named after a dollar sign, and how many characters its name takes: a word,
or anything in braces. -/
def variableFront? (s : List Char) : Option (List Char × Nat) :=
  match s with
  | '{' :: r =>
    let name := r.takeWhile (· != '}')
    if name.length < r.length then some (name, name.length + 2) else none
  | s =>
    let name := s.takeWhile isVariableChar
    if name.isEmpty then none else some (name, name.length)

/-- The variables that are named in a text. -/
def variablesIn : List Char → List String
  | [] => []
  | c :: r =>
    if c == '$' then ((variableFront? r).map fun f => String.ofList f.1).toList ++ variablesIn r
    else variablesIn r

/-- A text with the variables in it replaced by their values, but those that are not set. -/
def expandFrom (env : Environment) : Nat → List Char → List Char
  | 0, s => s
  | _ + 1, [] => []
  | fuel + 1, c :: r =>
    if c == '$' then
      match variableFront? r with
      | none => c :: expandFrom env fuel r
      | some (name, size) =>
        (match env.get? (String.ofList name) with
          | some v => v.toList
          | none => '$' :: r.take size) ++ expandFrom env fuel (r.drop size)
    else c :: expandFrom env fuel r

def expandVariables (env : Environment) (s : String) : String :=
  String.ofList (expandFrom env (s.length + 1) s.toList)

/-- Why the home directory in a name is not known. -/
inductive HomeError where
  | unknown
  | nul
deriving DecidableEq, Repr

/-- A text without the slashes at its end. -/
def dropEndSlashes (s : String) : String :=
  String.ofList (s.toList.reverse.dropWhile (· == '/')).reverse

/-- The home directory of a user. The nameless user is the one who runs the program; a variable
goes before what the system knows of that one. -/
def homeOf? (env : Environment) (user : String) : Option String :=
  if user.isEmpty then (env.get? "HOME").or env.ownHome else env.homes.lookup user

/-- A name that begins with a tilde begins with a home directory instead. -/
def expandHome (env : Environment) (n : Name) : Except HomeError Name :=
  match n.root, n.parts with
  | "", first :: rest =>
    match first.toList with
    | '~' :: user =>
      if user.contains '\x00' then .error .nul
      else
        match homeOf? env (String.ofList user) with
        | none => .error .unknown
        | some h =>
          let home := dropEndSlashes h
          if home.toList.head? == some '~' then .error .unknown
          else
            let base := Name.ofText (if home.isEmpty then "/" else home)
            .ok { base with parts := base.parts ++ rest }
    | _ => .ok n
  | _, _ => .ok n

end ShellCompletion.Files
