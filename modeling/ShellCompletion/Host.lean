import ShellCompletion.Files.Tree
import ShellCompletion.Log.Record

/-! What a step of the program acts on: an environment, a tree of files, and a log. Two hosts
are of interest: a trace, which only collects the records, and the loggers of a running
program. -/
namespace ShellCompletion

class Host (σ : Type) where
  environment : σ → Environment
  tree : σ → Files.Tree
  setTree : Files.Tree → σ → σ
  note : Log.Record → σ → σ

/-- A host that collects the records. -/
structure Trace where
  environment : Environment
  tree : Files.Tree
  log : List Log.Record := []
deriving DecidableEq, Repr

instance : Host Trace where
  environment := Trace.environment
  tree := Trace.tree
  setTree t s := { s with tree := t }
  note r s := { s with log := s.log ++ [r] }

/-- Note several records in turn. -/
def Host.noteAll {σ : Type} [Host σ] (rs : List Log.Record) (s : σ) : σ :=
  rs.foldl (fun s r => Host.note r s) s

end ShellCompletion
