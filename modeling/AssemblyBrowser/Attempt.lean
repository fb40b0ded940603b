import AssemblyBrowser.Failure
/-!
Computations that may fail and that keep their state when they do: what was done before a failure
stays done.
-/
namespace AssemblyBrowser

abbrev Attempt (σ α : Type) := ExceptT Failure (StateM σ) α

namespace Attempt

variable {σ τ α : Type}

/-- Runs from a state: the result, and the state at the end. -/
def runFrom (a : Attempt σ α) (s : σ) : Except Failure α × σ := a.run s

def ofExcept (r : Except Failure α) : Attempt σ α := fun s => (r, s)

def fail (f : Failure) : Attempt σ α := fun s => (.error f, s)

/-- Runs on a part of the state. -/
def within (get : σ → τ) (put : τ → σ → σ) (a : Attempt τ α) : Attempt σ α := fun s =>
  let (r, t) := a.runFrom (get s)
  (r, put t s)

/-- Gives the result as a value, so that a failure does not end what follows. -/
def outcome (a : Attempt σ α) : Attempt σ (Except Failure α) := fun s =>
  let (r, s) := a.runFrom s
  (.ok r, s)

end Attempt

end AssemblyBrowser
