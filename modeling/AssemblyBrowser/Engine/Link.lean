import AssemblyBrowser.Engine.Channel
import AssemblyBrowser.Engine.Supervisor
/-!
What a session keeps between its engine's process and its callers: its state, the channels to the
generations, of which at most one is installed, and the assemblies that the engine holds. Reports of
the process concern the installed channel only; those of another generation change nothing.
-/
namespace AssemblyBrowser

inductive SessionState
  | stopped
  | starting
  | running
  | stopping
  | crashed
deriving DecidableEq, Repr

def SessionState.name : SessionState → String
  | .stopped => "stopped"
  | .starting => "starting"
  | .running => "running"
  | .stopping => "stopping"
  | .crashed => "crashed"

structure Link where
  state : SessionState := .stopped
  /-- The channels made so far. -/
  channels : List Channel := []
  /-- The generation of the installed channel. -/
  installed : Option Nat := none
  loaded : OrderedMap String Member := ∅

namespace Link

def channel? (l : Link) (g : Nat) : Option Channel := l.channels.find? fun c => c.generation = g

def installed? (l : Link) : Option Channel := l.installed.bind l.channel?

/-- Replaces the channel of a generation. -/
def update (l : Link) (g : Nat) (f : Channel → Channel) : Link :=
  { l with channels := l.channels.map fun c => if c.generation = g then f c else c }

/-- Makes and installs the channel of a new generation. -/
def install (l : Link) (c : Channel) : Link :=
  { l with channels := l.channels ++ [c], installed := some c.generation }

def crashReason (exitCode : Option Int) : String :=
  "engine exited unexpectedly (code " ++ Supervisor.exitText exitCode ++ ")"

/-- The engine of a generation has gone without being told to. -/
def markCrashed (l : Link) (g : Nat) (exitCode : Option Int) : Link :=
  match l.installed? with
  | none => l
  | some c =>
    if c.generation ≠ g then l
    else
      let l := l.update g fun c => c.close (crashReason exitCode)
      if l.state = .running then { l with state := .crashed } else l

/-- A line of a generation. -/
def hear (l : Link) (g : Nat) (line : String) : Option Link :=
  match l.installed? with
  | none => some l
  | some c =>
    if c.generation ≠ g then some l
    else match c.handleLine line with
      | .ok c => some (l.update g fun _ => c)
      | .error _ => none

def listener : Listener Link := ⟨hear, markCrashed⟩

end Link

end AssemblyBrowser
