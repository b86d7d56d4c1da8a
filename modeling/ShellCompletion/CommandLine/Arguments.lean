import ShellCompletion.Text.Digit
import ShellCompletion.Text.Literal

/-! The arguments of the command line: options, which begin with a dash, and one source.
Two dashes end the options. Arguments that are neither are left over. -/
namespace ShellCompletion.CommandLine

/-- The options that there are. -/
inductive Flag where
  | output
  | shell
  | debug
  | help
deriving DecidableEq, Repr

/-- Why arguments are not understood. -/
inductive UsageError where
  | noArgument (flag : Flag)
  | ignoredArgument (flag : Flag) (argument : String)
  | unrecognized (argument : String)
deriving DecidableEq, Repr

namespace Flag

def takesArgument : Flag → Bool
  | output | shell => true
  | debug | help => false

/-- The spellings of an option, as messages list them. -/
def spellings : Flag → List String
  | output => ["-o", "--output"]
  | shell => ["-s", "--shell"]
  | debug => ["--debug"]
  | help => ["--help"]

def all : List Flag := [output, shell, debug, help]

def ofSpelling? (s : String) : Option Flag := all.find? (·.spellings.contains s)

end Flag

def UsageError.message : UsageError → String
  | noArgument f => "argument " ++ "/".intercalate f.spellings ++ ": expected one argument"
  | ignoredArgument f a =>
    "argument " ++ "/".intercalate f.spellings ++ ": ignored explicit argument " ++ Text.literal a
  | unrecognized a => "unrecognized option: '" ++ a ++ "'"

/-- What an argument is. -/
inductive Token where
  | positional (text : String)
  /-- The two dashes that end the options. -/
  | separator
  | option (flag : Flag) (argument : Option String)
  | unknown (text : String)
deriving DecidableEq, Repr

/-- Does a text look like a negative number? -/
def isNegativeNumber (s : List Char) : Bool :=
  let isDigit (c : Char) : Bool := (Text.digitValue? c).isSome
  let unsigned (r : List Char) : Bool :=
    let rest := r.dropWhile isDigit
    match rest with
    | [] => !r.isEmpty
    | '.' :: ds => !ds.isEmpty && ds.all isDigit
    | _ => false
  match s with
  | '-' :: r => unsigned r || (r.getLast? == some '\n' && unsigned r.dropLast)
  | _ => false

/-- A text cut at its first equals sign. -/
def splitEquals (s : List Char) : Option (String × String) :=
  let name := s.takeWhile (· != '=')
  if name.length < s.length then
    some (String.ofList name, String.ofList (s.drop (name.length + 1)))
  else none

/-- An option with its argument in one text, if there is an option of that spelling. -/
def joined? (s : List Char) : Option Token :=
  let equals := (splitEquals s).bind fun (name, value) =>
    (Flag.ofSpelling? name).map fun f => Token.option f (some value)
  let short : Option Token :=
    match s with
    | '-' :: c :: r =>
      if c == '-' then none
      else (Flag.ofSpelling? (String.ofList ['-', c])).map fun f => Token.option f (some (String.ofList r))
    | _ => none
  equals.or short

/-- What an argument in front of two dashes is. -/
def Token.ofText (s : String) : Token :=
  match s.toList with
  | '-' :: r =>
    match Flag.ofSpelling? s with
    | some f => .option f none
    | none =>
      if r.isEmpty then .positional s
      else
        match joined? s.toList with
        | some t => t
        | none =>
          if isNegativeNumber s.toList || s.toList.contains ' ' then .positional s else .unknown s
  | _ => .positional s

/-- What the arguments are; after two dashes all are positional. -/
def classify : List String → List Token
  | [] => []
  | s :: rest =>
    if s = "--" then .separator :: rest.map .positional
    else .ofText s :: classify rest

/-- What has been understood of the arguments. -/
structure Options where
  output : String := ""
  shell : String := "bash"
  debug : Bool := false
  help : Bool := false
  source : Option String := none
  /-- Has the place for the source been filled, be it with nothing? -/
  sourceSeen : Bool := false
  extras : List String := []
deriving DecidableEq, Repr

namespace Options

def setFlag (o : Options) (f : Flag) (argument : String) : Options :=
  match f with
  | .output => { o with output := argument }
  | .shell => { o with shell := argument }
  | .debug => { o with debug := true }
  | .help => { o with help := true }

end Options

/-- The text of an argument that is no option. -/
def Token.text : Token → String
  | .positional s | .unknown s => s
  | .separator => "--"
  | .option _ _ => ""

def Token.isOption : Token → Bool
  | .option _ _ | .unknown _ => true
  | _ => false

/-- Take the source off some arguments without options: two dashes in front of it and behind
it go with it. What is left over is returned. -/
def takeSource (o : Options) (ts : List Token) : Options × List Token :=
  if o.sourceSeen then (o, ts)
  else
    let rest := ts.dropWhile (· == .separator)
    match rest with
    | .positional s :: rest =>
      ({ o with source := some s, sourceSeen := true }, rest.dropWhile (· == .separator))
    | rest => ({ o with sourceSeen := true }, rest)

/-- Read arguments without options. -/
def readPlain (o : Options) (ts : List Token) : Options :=
  if ts.isEmpty then o
  else
    let (o, rest) := takeSource o ts
    { o with extras := o.extras ++ rest.map Token.text }

/-- Read the arguments from a place on. An option takes its argument from the next one, which
may be no option and no two dashes. -/
def readFrom (o : Options) : Nat → List Token → Except UsageError Options
  | 0, _ => .ok o
  | fuel + 1, ts =>
    let plain := ts.takeWhile (!·.isOption)
    let o := readPlain o plain
    match ts.drop plain.length with
    | [] => .ok o
    | .unknown s :: rest => readFrom { o with extras := o.extras ++ [s] } fuel rest
    | .option f (some a) :: rest =>
      if f.takesArgument then readFrom (o.setFlag f a) fuel rest else .error (.ignoredArgument f a)
    | .option f none :: rest =>
      if f.takesArgument then
        match rest with
        | .positional a :: rest => readFrom (o.setFlag f a) fuel rest
        | _ => .error (.noArgument f)
      else readFrom (o.setFlag f "") fuel rest
    | _ :: rest => readFrom o fuel rest

/-- Understand the arguments. A leftover argument that begins with a dash is an error. -/
def parse (args : List String) : Except UsageError Options := do
  let o ← readFrom {} (args.length + 1) (classify args)
  match o.extras.find? fun s => s.toList.head? == some '-' with
  | some s => throw (.unrecognized s)
  | none => return o

end ShellCompletion.CommandLine
