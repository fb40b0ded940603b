import AssemblyBrowser.Tree.Forest
/-!
A tree before listeners who do something when they are told of a change: they may listen from then on
or no longer, make others do so, and fail. Those are told who listen when a change has been made, one
after another, and whatever they do, the rest of them are told too.
-/
namespace AssemblyBrowser

/-- A change of who listens. -/
inductive Subscription
  | subscribe (l : Listening)
  | unsubscribe (l : Listening)
deriving DecidableEq, Repr

/-- The listener that comes or goes. -/
def Subscription.listener : Subscription → Listening
  | .subscribe l | .unsubscribe l => l

/-- What a listener does when it is told of a change. -/
structure Conduct.Response where
  subscriptions : List Subscription := []
  failure : Option Failure := none

/-- What listeners do, in view of the tree. -/
abbrev Conduct := Listening → TreeEvent → Tree → Conduct.Response

namespace Tree

def subscriptionChange (t : Tree) : Subscription → Tree
  | .subscribe l => t.subscribe l
  | .unsubscribe l => t.unsubscribe l

/-- Calls a listener. -/
def call (c : Conduct) (e : TreeEvent) (l : Listening) : Attempt Tree Unit := fun t =>
  let t := { t with deliveries := t.deliveries ++ [(l, e)] }
  let response := c l e t
  (match response.failure with
    | some f => .error f
    | none => .ok (),
    response.subscriptions.foldl subscriptionChange t)

/-- Tells everybody who listens now. The failure of a listener is of no consequence. -/
def emit (c : Conduct) (e : TreeEvent) : Attempt Tree Unit := do
  let t ← get
  t.listeners.forM fun l => discard (call c e l).outcome

/-- The engine has loaded an assembly, or has not; nobody has been told yet. -/
def receiveAdd (path : String) (r : Except Failure Member) (t : Tree) : Except Failure Bool × Tree :=
  let t := t.land (.add path)
  match r with
  | .ok m => (.ok true, t.plant path m)
  | .error f => (.error f, t)

end Tree

namespace Forest.Announcing

variable {σ : Type}

/-! The operations that change the structure, with what they do to tell of it left open. -/

section Operations

variable (announce : TreeEvent → Attempt (Forest σ) Unit) (engine : Engine σ)

def add (path : String) : Attempt (Forest σ) Bool := do
  let added ← consult (·.beginAdd path) (engine (.load path)) (Tree.receiveAdd path)
  if added then announce (.added path)
  return added

def remove (path : String) : Attempt (Forest σ) Bool := do
  let s ← get
  if s.tree.roots.contains path then
    set { s with tree := s.tree.uproot path }
    engine (.unload path)
    announce (.removed path)
    return true
  else return false

def refresh : Attempt (Forest σ) Unit := do
  modify fun s => { s with tree := s.tree.replant }
  announce .refreshed

/-- It is the refresh that tells of another language. -/
def setLanguage (name : String) : Attempt (Forest σ) Bool := do
  let l ← Attempt.ofExcept ((Language.parse name).mapError .language)
  let s ← get
  if s.tree.language = l then return false
  else
    set { s with tree := { s.tree with language := l } }
    refresh announce
    return true

end Operations

/-- Tells listeners who only listen. -/
def telling (e : TreeEvent) : Attempt (Forest σ) Unit := onTree fun t => (.ok (), t.tell e)

/-- Tells listeners who do something. -/
def emitting (c : Conduct) (e : TreeEvent) : Attempt (Forest σ) Unit :=
  onTree (Tree.emit c e).runFrom

end Forest.Announcing

end AssemblyBrowser
