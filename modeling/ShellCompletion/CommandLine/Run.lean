import ShellCompletion.CommandLine.Arguments
import ShellCompletion.World

/-! Running the program with some arguments. A run ends in an exit code, or in an error that
the program does not foresee; one of these is that a text can not be printed. -/
namespace ShellCompletion.CommandLine

open Log

def usageText : String :=
  "usage: " ++ Script.toolName ++ " [option(s)] <source-file>\n" ++
  "dump an autocompleter for shells.\n" ++
  "\n" ++
  "options:\n" ++
  "  -o, --output=OUTPUT   output file (default: standard output)\n" ++
  "  -s, --shell=SHELL     target shell (default: bash, supported: " ++
    ", ".intercalate (Script.Target.all.map (·.name)) ++ ")\n" ++
  "      --debug           print debug logs\n" ++
  "      --help            print usage"

/-- How a run ends. -/
inductive Ending where
  | exit (code : Nat)
  | unforeseen (error : Dump.DumpError)
  /-- The encoding of the standard output lacks a character of a text. -/
  | unprintable
deriving DecidableEq, Repr

/-- End with a message about the arguments. -/
def refuse (e : UsageError) (w : World) : Ending × World :=
  (.exit 1, (w.printError (Script.toolName ++ ": " ++ e.message)).printError
    ("Try '" ++ Script.toolName ++ " --help' for more information."))

/-- End with a message, in colours if these are used. -/
def failWith (message : String) (code : Nat) (w : World) : Ending × World :=
  let style := if usesColors w.environment w.terminal then Style.ofLevel Level.critical else .plain
  (.exit code, w.printError (style.paint (Script.toolName ++ ": " ++ message)))

/-- End with success, having printed a text. -/
def succeedWith (text : String) (w : World) : Ending × World :=
  match w.print text with
  | some w => (.exit 0, w)
  | none => (.unprintable, w)

/-- Run with arguments that are understood. -/
def runWith (o : Options) (w : World) : Ending × World :=
  if o.help then succeedWith usageText w
  else
    let w := (w.initLogging "" o.debug).2
    let w := w.getLogger toolLogger none
    if (Script.Target.ofName? o.shell).isNone then failWith (Script.unsupportedText o.shell) 1 w
    else match o.source with
      | none => failWith "no input source-file" 1 w
      | some source =>
        let w :=
          if o.extras.isEmpty then w
          else w.log toolLogger
            ⟨.warning, "Ignoring extra arguments: " ++ " ".intercalate o.extras⟩
        let output := if o.output.isEmpty then none else some o.output
        match Dump.dumpFile source o.shell output (Logging.mk w toolLogger) with
        | (.ok script, s) => if output.isNone then succeedWith script s.world else (.exit 0, s.world)
        | (.error e, s) =>
          match e.declared? with
          | some (name, code) => failWith (name ++ ": " ++ e.message) code s.world
          | none => (.unforeseen e, s.world)

/-- Run with arguments. -/
def run (args : List String) (w : World) : Ending × World :=
  match parse args with
  | .error e => refuse e w
  | .ok o => runWith o w

end ShellCompletion.CommandLine
