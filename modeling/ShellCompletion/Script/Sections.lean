import ShellCompletion.Plan
import ShellCompletion.Shell.Line

/-! The sections of a completion script. The tables of flags and slots come first; then
the words before the cursor are scanned for flags, slots are lifted, each argument is
given its slot, and the candidates are found by the mode that results. Texts of a
document occur in quotes and comments only. -/
namespace ShellCompletion.Script

open Shell

def boolWord (b : Bool) : String := if b then "true" else "false"

/-- Lines that add the candidates of a source. -/
def sourceLines : Option Source → List Line
  | none => []
  | some (.builtin kind) => [
      .plain ("mapfile -t lines < <(compgen " ++
        (match kind with | .files => "-f" | .directories => "-d") ++ " -- \"$cur\")"),
      .plain "COMPREPLY+=( \"$\x7blines[@]\x7d\" )",
      .plain "compopt -o filenames 2>/dev/null"]
  | some (.command argv) =>
    if argv.isEmpty then []
    else
      { pieces := .code "mapfile -t lines < <(" ::
          (argv.flatMap fun a => [.word a, .code " "]) ++ [.code "2>/dev/null)"] } ::
      [ .plain "for line in \"$\x7blines[@]\x7d\"; do",
        (Line.plain "if [[ $line == \"$cur\"* ]]; then").deeper 1,
        (Line.plain "COMPREPLY+=( \"$line\" )").deeper 2,
        (Line.plain "fi").deeper 1,
        .plain "done"]

/-- The entry of a table of flags. -/
def entryLine (table : String) (flag value : String) : Line :=
  { pieces := [.code (table ++ "["), .word flag, .code ("]=" ++ value)] }

def ordinals (slots : List Slot) : String :=
  " ".intercalate (slots.map fun s => toString s.ordinal)

/-- The tables of flags and slots. -/
def stateLines (p : Plan) : List Line :=
  [ .plain ("local use_doubledash=" ++ boolWord p.interface.doubleDash),
    .plain ("local has_short_opts=" ++ boolWord p.hasFlags),
    { pieces := [.code "local short_opt_prefix=", .word p.interface.flagMark] },
    .blank,
    .plain "declare -A short_opts_requires_value=()"] ++
  p.flags.map (fun e => entryLine "short_opts_requires_value" e.literal (boolWord e.takesValue)) ++
  [.blank, .plain "declare -A short_opts_used=()"] ++
  p.flags.map (fun e => entryLine "short_opts_used" e.literal "false") ++
  [.blank] ++
  p.slots.map (fun s => .comment (s!"slot {s.ordinal}: " ++ s.label)) ++
  [ .plain ("local -a args_required=(" ++ " ".intercalate (p.slots.map fun _ => "true") ++ ")"),
    .plain ("local -a explicit_slots=(" ++ ordinals p.explicitOrder ++ ")")]

/-- The branch of the scan that notes a flag as used. -/
def usedBranch (e : FlagEntry) : Branch where
  pattern := [.word e.literal]
  body := [entryLine "short_opts_used" e.literal "true"]

/-- One step of the scan, for the word at the place of the scan. -/
def scanBody (p : Plan) : List Line :=
  [ .plain "opts_last_word_i=$word_i",
    .blank,
    .plain "if $use_doubledash && [[ $\x7bCOMP_WORDS[word_i]\x7d == -- ]]; then",
    (Line.plain "opts_finished=true").deeper 1,
    (Line.plain "break").deeper 1,
    .plain "elif [[ $\x7bCOMP_WORDS[word_i]\x7d != \"$short_opt_prefix\"* ]]; then",
    (Line.plain "opts_finished=true").deeper 1,
    (Line.plain "opts_last_word_i=$(( word_i - 1 ))").deeper 1,
    (Line.plain "break").deeper 1,
    .plain "fi",
    .blank] ++
  caseLines "$\x7bCOMP_WORDS[word_i]\x7d" (p.flags.map usedBranch) ++
  [ .blank,
    .plain "if $\x7bshort_opts_requires_value[$\x7bCOMP_WORDS[word_i]\x7d]-false\x7d; then",
    (Line.plain "word_i=$(( word_i + 1 ))").deeper 1,
    (Line.plain "opts_last_word_i=$word_i").deeper 1,
    .plain "fi"]

/-- The scan of the words before the cursor, up to the first that is no flag. -/
def scanLines (p : Plan) : List Line :=
  [ .plain "local opts_finished=true",
    .plain "local opts_last_word_i=0",
    .plain "if $has_short_opts; then",
    (Line.plain "opts_finished=false").deeper 1,
    (Line.plain "for (( word_i = 1; word_i <= COMP_CWORD - 1; word_i++ )); do").deeper 1] ++
  indent 2 (scanBody p) ++
  [(Line.plain "done").deeper 1, .plain "fi"]

/-- The test that lifts a slot when a flag was used. -/
def liftLines (ordinal : Nat) (flag : String) : List Line := [
  { pieces := [.code "if $\x7bshort_opts_used[", .word flag, .code "]-false\x7d; then"] },
  (Line.plain s!"args_required[{ordinal}]=false").deeper 1,
  .plain "fi"]

/-- The tests that lift slots. -/
def skipLines (p : Plan) : List Line :=
  p.slots.flatMap fun s => (s.spec.skipIf.getD []).flatMap (liftLines s.ordinal)

/-- Each argument takes the next slot that is required, and past those the catch-all. -/
def slotLines : List Line := [
  .plain "local arg_slot=",
  .plain "slot_pos=0",
  .plain "for (( word_i = opts_last_word_i + 1; word_i <= COMP_CWORD; word_i++ )); do",
  (Line.plain "arg_slot=all").deeper 1,
  (Line.plain "while (( slot_pos < $\x7b#explicit_slots[@]\x7d )); do").deeper 1,
  (Line.plain "slot=$\x7bexplicit_slots[slot_pos]\x7d").deeper 2,
  (Line.plain "slot_pos=$(( slot_pos + 1 ))").deeper 2,
  (Line.plain "if $\x7bargs_required[slot]-false\x7d; then").deeper 2,
  (Line.plain "arg_slot=$slot").deeper 3,
  (Line.plain "break").deeper 3,
  (Line.plain "fi").deeper 2,
  (Line.plain "done").deeper 1,
  .plain "done"]

/-- Is the word at the cursor a flag, the value of a flag, or an argument? -/
def modeLines : List Line := [
  .plain "local mode",
  .plain "if ! $has_short_opts; then",
  (Line.plain "mode=arg").deeper 1,
  .plain "elif $opts_finished; then",
  (Line.plain "mode=arg").deeper 1,
  .plain "elif (( COMP_CWORD >= 2 )) && [[ -n $prev ]] && $\x7bshort_opts_requires_value[$prev]-false\x7d; then",
  (Line.plain "mode=opt_arg").deeper 1,
  .plain "elif [[ $cur == \"$short_opt_prefix\"* ]]; then",
  (Line.plain "mode=opt").deeper 1,
  .plain "else",
  (Line.plain "mode=arg").deeper 1,
  .plain "fi"]

/-- Quoted flags as alternatives of a pattern. -/
def alternatives : List FlagEntry → List Piece
  | [] => []
  | [e] => [.word e.literal]
  | e :: es => .word e.literal :: .code " | " :: alternatives es

/-- The branch for the value of an option, unless the value has no source or every flag of
the option stands for another one. -/
def valueBranch? (p : Plan) (place : Nat) (o : OptionSpec) : Option Branch := do
  let value ← o.value
  let source ← value.source
  let flags := p.flagsFor place
  if flags.isEmpty then none
  else some { pattern := alternatives flags, note := value.name, body := sourceLines (some source) }

/-- The branches for the values of options. -/
def valueBranches (p : Plan) : List Branch :=
  (p.interface.options.mapIdx (valueBranch? p)).filterMap id

/-- The branch for a slot under a label, if the slot has a source. -/
def slotBranch? (label : String) (s : Slot) : Option Branch :=
  s.spec.source.map fun source =>
    { pattern := [.code label], note := s.label, body := sourceLines (some source) }

/-- The branches for positional arguments: slots with an index, then the catch-all. -/
def slotBranches (p : Plan) : List Branch :=
  (p.explicitOrder.filterMap fun s => slotBranch? (toString s.ordinal) s) ++
    (p.catchAll.bind (slotBranch? "all")).toList

/-- The branch that offers the flags. -/
def flagBranch (p : Plan) : Branch where
  pattern := [.code "opt"]
  body := [
    { pieces := [.code "mapfile -t lines < <(compgen -W ", .wordList (p.flags.map (·.literal)),
        .code " -- \"$cur\")"] },
    .plain "for line in \"$\x7blines[@]\x7d\"; do",
    (Line.plain "COMPREPLY+=( \"$(printf '%q' \"$line\")\" )").deeper 1,
    .plain "done"]

/-- The branches for the modes; a mode that can not arise has none. -/
def modeBranches (p : Plan) : List Branch :=
  (if p.hasFlags then
    [flagBranch p, { pattern := [.code "opt_arg"], body := caseLines "$prev" (valueBranches p) }]
  else []) ++
  (if p.interface.slots.isEmpty then []
  else [{ pattern := [.code "arg"], body := caseLines "$arg_slot" (slotBranches p) }])

/-- Finding the candidates by the mode. -/
def candidateLines (p : Plan) : List Line := caseLines "$mode" (modeBranches p)

end ShellCompletion.Script
