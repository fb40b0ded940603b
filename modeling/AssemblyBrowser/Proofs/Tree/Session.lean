import AssemblyBrowser.Proofs.Engine.Run
import AssemblyBrowser.Proofs.Tree.Operation
/-!
A tree over a session, and what happens to the two: operations of the tree, and in between what is
done with the session and what children do of their own accord.
-/
namespace AssemblyBrowser

variable {σ : Type}

/-- A session as an engine that knows nothing of the tree. -/
def Session.backend (program : Program σ) : Backend (Session σ)
  | .load path => Session.load program path
  | .enumerate key assembly => Session.children program key (some assembly)
  | .decompile key language assembly =>
    Session.decompile program key (some (.text language.name)) (some assembly)
  | .unload path => fun s => (.ok (), s.unload path)
  | .stop => Session.stop

theorem Session.engine_eq (program : Program σ) :
    Session.engine program = (Session.backend program).engine := by
  funext c
  cases c <;> rfl

/-- What happens between two operations of a tree. -/
inductive Interlude
  | ensureRunning
  | restart
  | stop
  /-- The session is asked whether its engine is running. -/
  | status
  | happen (generation : Nat) (acts : List Act)
deriving DecidableEq, Repr

def Interlude.after (program : Program σ) (s : Session σ) : Interlude → Session σ
  | .ensureRunning => ((Session.ensureRunning program).runFrom s).2
  | .restart => ((Session.restart program).runFrom s).2
  | .stop => (Session.stop.runFrom s).2
  | .status => s.isRunning.2
  | .happen g acts => { s with supervisor := s.supervisor.happen Link.listener g acts }

inductive Occurrence
  | operation (p : TreeOperation)
  | interlude (i : Interlude)
deriving DecidableEq, Repr

/-- An operation, and how it ended. -/
abbrev Outcome := (p : TreeOperation) × Except Failure p.Answer

/-- Lets things happen one after another: how the operations ended, and what there is then. -/
def browse (program : Program σ) :
    List Occurrence → Forest (Session σ) → List Outcome × Forest (Session σ)
  | [], s => ([], s)
  | .operation p :: xs, s =>
    let (r, s) := (p.perform (Session.engine program)).runFrom s
    let (rs, s) := browse program xs s
    (⟨p, r⟩ :: rs, s)
  | .interlude i :: xs, s => browse program xs { s with world := i.after program s.world }

/-- A tree to which nothing has been added, over a session whose engine has not been started. -/
def Session.planted (l : Language) (s : Session σ) : Forest (Session σ) := ⟨{ language := l }, s⟩

end AssemblyBrowser
