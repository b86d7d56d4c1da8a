import ShellCompletion.Document.Json
import ShellCompletion.Document.Toml.Read
import ShellCompletion.Document.Yaml.Read
import ShellCompletion.Host

/-! Loading a document from a file. Variables and the home directory in the name of the file
are expanded, and its suffix tells the format; a file with any other suffix is in YAML. Numbers of
any length and texts nested to any depth are read. -/
namespace ShellCompletion.Load

open Document Files

inductive Format where
  | toml
  | json
  | yaml
deriving DecidableEq, Repr

namespace Format

def name : Format → String
  | toml => "TOML"
  | json => "JSON"
  | yaml => "YAML"

def ofName (n : Name) : Format :=
  if n.hasSuffix ".toml" then toml
  else if n.hasSuffix ".json" then json
  else yaml

end Format

/-- Why a file gives no document. -/
inductive ParseError where
  | json (e : Json.Error)
  | toml (e : Toml.Error)
  | yaml (e : Yaml.Error)
deriving DecidableEq, Repr

def ParseError.message : ParseError → String
  | json e => e.message
  | toml e => e.message
  | yaml e => e.message

/-- A text is malformed, unless it has a scalar that is merely without a value. -/
def ParseError.defect? : ParseError → Option Yaml.Defect
  | yaml (.defect d) => some d
  | _ => none

def parse : Format → List UInt8 → Except ParseError Value
  | .json, bytes => (Json.ofBytes bytes).mapError .json
  | .toml, bytes => (Toml.ofBytes bytes).mapError .toml
  | .yaml, bytes => (Yaml.ofBytes bytes).mapError .yaml

/-- Why a document is not loaded. -/
inductive LoadError where
  | home (e : HomeError)
  | unreadable (name : Name) (fault : Fault)
  | malformed (name : Name) (error : ParseError)
deriving DecidableEq, Repr

/-- Messages about malformed texts are on one line. -/
def LoadError.message : LoadError → String
  | home .unknown => "Could not determine home directory."
  | home .nul => Fault.nul.message
  | unreadable _ .nul => Fault.nul.message
  | unreadable n f => "cannot read " ++ n.text ++ ": " ++ f.message
  | malformed n e =>
    match e.defect? with
    | some d => d.message
    | none => "cannot parse " ++ n.text ++ ": " ++ Text.collapse e.message

/-- The file that a source names. -/
def sourceName (env : Environment) (source : String) : Except HomeError Name :=
  expandHome env (.ofText (expandVariables env source))

/-- Load the document that a source names. -/
def load {σ : Type} [Host σ] (source : String) (s : σ) : Except LoadError Value × σ :=
  match sourceName (Host.environment s) source with
  | .error e => (.error (.home e), s)
  | .ok n =>
    let s := Host.note ⟨.info, "Loading " ++ n.text⟩ s
    match (Host.tree s).read n with
    | .error f => (.error (.unreadable n f), s)
    | .ok bytes =>
      let format := Format.ofName n
      let s := Host.note ⟨.debug, "Parsing " ++ n.text ++ " as " ++ format.name⟩ s
      match parse format bytes with
      | .ok v => (.ok v, s)
      | .error e => (.error (.malformed n e), s)

end ShellCompletion.Load
