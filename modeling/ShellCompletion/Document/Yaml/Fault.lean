import ShellCompletion.Document.Yaml.Mark
import ShellCompletion.Text.Decoding
import ShellCompletion.Text.Literal

/-! What is wrong with a document in YAML, and how it is told: what was being read and where
that began, what is wrong and where, and the line of each of the two places. -/
namespace ShellCompletion.Document.Yaml

open Text

/-- What was being read when something was found wrong. -/
inductive Context where
  | nextToken
  | simpleKey
  | doubleQuoted
  | quoted
  | blockScalar
  | anchor
  | reference
  | directive
  | tag
  | directiveUri
  | tagUri
  | blockMapping
  | blockCollection
  | flowSequence
  | flowMapping
  | blockNode
  | flowNode
  | node
  | mapping
  | orderedMap
  | pairs
  | singleDocument
  | duplicateAnchor (name : String)
deriving DecidableEq, Repr

def Context.text : Context → String
  | nextToken => "while scanning for the next token"
  | simpleKey => "while scanning a simple key"
  | doubleQuoted => "while scanning a double-quoted scalar"
  | quoted => "while scanning a quoted scalar"
  | blockScalar => "while scanning a block scalar"
  | anchor => "while scanning an anchor"
  | reference => "while scanning an alias"
  | directive => "while scanning a directive"
  | tag => "while scanning a tag"
  | directiveUri => "while parsing a directive"
  | tagUri => "while parsing a tag"
  | blockMapping => "while parsing a block mapping"
  | blockCollection => "while parsing a block collection"
  | flowSequence => "while parsing a flow sequence"
  | flowMapping => "while parsing a flow mapping"
  | blockNode => "while parsing a block node"
  | flowNode => "while parsing a flow node"
  | node => "while parsing a node"
  | mapping => "while constructing a mapping"
  | orderedMap => "while constructing an ordered map"
  | pairs => "while constructing pairs"
  | singleDocument => "expected a single document in the stream"
  | duplicateAnchor name => "found duplicate anchor " ++ Text.literal name ++ "; first occurrence"

/-- What is wrong. Where something else was expected, the last part is what was found. -/
inductive Problem where
  | entriesNotAllowed
  | keysNotAllowed
  | valuesNotAllowed
  | noColon
  | cannotStart (c : Char)
  | expected (what : String) (found : Char)
  | unknownEscape (c : Char)
  | noCharacter (code : Nat)
  | endOfStream
  | separator
  | zeroIndent
  | undecodable (e : DecodeError)
  | expectedToken (what found : String)
  | gotToken (what found : String)
  | duplicateVersion
  | badVersion
  | duplicateHandle (handle : String)
  | undefinedHandle (handle : String)
  | anotherDocument
  | undefinedAlias (name : String)
  | secondOccurrence
  | unhashable
  | noConstructor (tag : String)
  | expectedNode (what found : String)
  | severalItems (count : Nat)
  | notAscii (text : String)
  | badBase64 (text : String)
deriving DecidableEq, Repr

def Problem.text : Problem → String
  | entriesNotAllowed => "sequence entries are not allowed here"
  | keysNotAllowed => "mapping keys are not allowed here"
  | valuesNotAllowed => "mapping values are not allowed here"
  | noColon => "could not find expected ':'"
  | cannotStart c => "found character " ++ Text.literal c.toString ++ " that cannot start any token"
  | expected what c => "expected " ++ what ++ ", but found " ++ Text.literal c.toString
  | unknownEscape c => "found unknown escape character " ++ Text.literal c.toString
  | noCharacter code =>
    if code < 0x80000000 then "chr() arg not in range(0x110000)"
    else "Python int too large to convert to C int"
  | endOfStream => "found unexpected end of stream"
  | separator => "found unexpected document separator"
  | zeroIndent => "expected indentation indicator in the range 1-9, but found 0"
  | undecodable e => e.message
  | expectedToken what found => "expected " ++ what ++ ", but found '" ++ found ++ "'"
  | gotToken what found => "expected " ++ what ++ ", but got '" ++ found ++ "'"
  | duplicateVersion => "found duplicate YAML directive"
  | badVersion => "found incompatible YAML document (version 1.* is required)"
  | duplicateHandle h => "duplicate tag handle " ++ Text.literal h
  | undefinedHandle h => "found undefined tag handle " ++ Text.literal h
  | anotherDocument => "but found another document"
  | undefinedAlias name => "found undefined alias " ++ Text.literal name
  | secondOccurrence => "second occurrence"
  | unhashable => "found unhashable key"
  | noConstructor tag => "could not determine a constructor for the tag " ++ Text.literal tag
  | expectedNode what found => "expected " ++ what ++ ", but found " ++ found
  | severalItems count => s!"expected a single mapping item, but found {count} items"
  | notAscii text => "failed to convert base64 data into ascii: " ++ text
  | badBase64 text => "failed to decode base64 data: " ++ text

/-- A problem and its place; what was being read, and where that began. -/
structure Fault where
  context : Option Context
  began : Option Mark
  problem : Problem
  place : Mark
deriving DecidableEq, Repr

/-- A problem by itself. -/
def Fault.plain (p : Problem) (place : Mark) : Fault := ⟨none, none, p, place⟩

/-- A problem in something that began at a place. -/
def Fault.inside (c : Context) (began : Mark) (p : Problem) (place : Mark) : Fault :=
  ⟨some c, some began, p, place⟩

/-- How much of a line is shown on each side of a place. -/
def sideLength : Nat := 37

/-- The end of the line that leads to a place; the start of a long one is left out. -/
def lineBefore (before : List Char) : List Char :=
  let side := ((before.reverse.takeWhile (!isBreakOrEnd ·)).take sideLength)
  if side.length < sideLength then side.reverse
  else [' ', '.', '.', '.', ' '] ++ (side.take (sideLength - 5)).reverse

/-- The start of the line that goes on from a place; the end of a long one is left out. -/
def lineAfter (after : List Char) : List Char :=
  let side := (after.takeWhile (!isBreakOrEnd ·)).take sideLength
  if side.length < sideLength then side
  else side.take (sideLength - 5) ++ [' ', '.', '.', '.', ' ']

/-- A place, with its line and a pointer at it. -/
def markText (text : List Char) (m : Mark) : String :=
  s!"  in \"<byte string>\", line {m.line + 1}, column {m.column + 1}:\n    " ++
    String.ofList (lineBefore (text.take m.index) ++ lineAfter (text.drop m.index)) ++ "\n    ^"

/-- The context's place is left out when the problem is at the same line and column. -/
def Fault.message (text : List Char) (f : Fault) : String :=
  let context := (f.context.map Context.text).toList
  let began := match f.began with
    | some m => if m.line = f.place.line && m.column = f.place.column then [] else [markText text m]
    | none => []
  "\n".intercalate (context ++ began ++ [f.problem.text, markText text f.place])

end ShellCompletion.Document.Yaml
