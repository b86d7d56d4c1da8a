/-! Log records: a level, which says how much a message matters, and the message. -/
namespace ShellCompletion.Log

/-- How much a message matters; only five levels have names. -/
abbrev Level := Int

namespace Level

def debug : Level := 10

def info : Level := 20

def warning : Level := 30

def error : Level := 40

def critical : Level := 50

/-- The name of a level; a level without one is named by its number. -/
def name (l : Level) : String :=
  if l = debug then "DEBUG"
  else if l = info then "INFO"
  else if l = warning then "WARNING"
  else if l = error then "ERROR"
  else if l = critical then "CRITICAL"
  else if l = 0 then "NOTSET"
  else s!"Level {l}"

end Level

structure Record where
  level : Level
  message : String
deriving DecidableEq, Repr

end ShellCompletion.Log
