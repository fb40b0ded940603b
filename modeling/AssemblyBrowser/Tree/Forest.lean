import AssemblyBrowser.Attempt
import AssemblyBrowser.Engine.Session
import AssemblyBrowser.Tree.Basic
/-!
A tree together with what its engine keeps. The operations ask the engine only for what the tree
does not know: the children and the text of a node once, an assembly when it is added.

While the engine works on a call, others may use the tree, so an engine acts on both.
-/
namespace AssemblyBrowser

/-- What a tree asks its engine. -/
inductive Call
  | load (path : String)
  | enumerate (key assembly : String)
  | decompile (key : String) (language : Language) (assembly : String)
  | unload (path : String)
  | stop
deriving DecidableEq, Repr

/-- What the engine gives for a call. -/
abbrev Call.Reply : Call → Type
  | .load _ => Member
  | .enumerate .. => List Member
  | .decompile .. => String
  | .unload _ | .stop => Unit

structure Forest (σ : Type) where
  tree : Tree := {}
  world : σ

abbrev Engine (σ : Type) := (c : Call) → Attempt (Forest σ) c.Reply

namespace Forest

variable {σ α β : Type}

def onTree (f : Tree → Except Failure α × Tree) : Attempt (Forest σ) α := fun s =>
  let (r, tree) := f s.tree
  (r, { s with tree })

/-- A caller alone would wait for itself if it joined a call of its own. -/
def waitsForItself : Failure := .general .runtime [.text "the call waits for itself"]

/-- Asks the engine what the tree does not know. -/
def consult (enter : Tree → Tree.Entry α × Tree) (ask : Attempt (Forest σ) β)
    (finish : Except Failure β → Tree → Except Failure α × Tree) : Attempt (Forest σ) α := fun s =>
  match enter s.tree with
  | (.settled r, tree) => (r, { s with tree })
  | (.joined, tree) => (.error waitsForItself, { s with tree })
  | (.owner, tree) =>
    let (r, s) := ask.runFrom { s with tree }
    (onTree (finish r)).runFrom s

section Operations

variable (engine : Engine σ)

/-- Adds an assembly. The answer tells whether it was not in the tree before. -/
def add (path : String) : Attempt (Forest σ) Bool :=
  consult (·.beginAdd path) (engine (.load path)) (Tree.finishAdd path)

/-- Removes an assembly. The answer tells whether it was in the tree. -/
def remove (path : String) : Attempt (Forest σ) Bool := do
  let s ← get
  if s.tree.roots.contains path then
    set { s with tree := s.tree.uproot path }
    engine (.unload path)
    onTree fun t => (.ok true, t.tell (.removed path))
  else return false

def refresh : Attempt (Forest σ) Unit := onTree fun t => (.ok (), t.refresh)

/-- Changes the language to the one that a text names. -/
def setLanguage (name : String) : Attempt (Forest σ) Bool := do
  let l ← Attempt.ofExcept ((Language.parse name).mapError .language)
  onTree fun t => let (changed, t) := t.setLanguage l; (.ok changed, t)

/-- The call for the children of a node; only some kinds of members have any. -/
def askChildren (id : NodeId) : Attempt (Forest σ) (List Member) := do
  match (← get).tree.node? id with
  | some n => if n.isExpandable then engine (.enumerate n.key n.assembly) else return []
  | none => return []

def children (id : NodeId) : Attempt (Forest σ) (List NodeId) :=
  consult (·.beginChildren id) (askChildren engine id) (Tree.finishChildren id)

def askCode (id : NodeId) : Attempt (Forest σ) String := do
  let t := (← get).tree
  match t.node? id with
  | some n => engine (.decompile n.key t.language n.assembly)
  | none => return ""

/-- The text of a node in the language of the tree. -/
def code (id : NodeId) : Attempt (Forest σ) String :=
  consult (·.beginCode id) (askCode engine id) (Tree.finishCode id)

def stop : Attempt (Forest σ) Unit := engine .stop

end Operations

/-- An engine that leaves the tree alone. -/
def lift (a : Attempt σ α) : Attempt (Forest σ) α :=
  Attempt.within world (fun world s => { s with world }) a

end Forest

/-- A session as the engine of a tree. -/
def Session.engine {σ : Type} (program : Program σ) : Engine (Session σ)
  | .load path => Forest.lift (Session.load program path)
  | .enumerate key assembly => Forest.lift (Session.children program key (some assembly))
  | .decompile key language assembly =>
    Forest.lift (Session.decompile program key (some (.text language.name)) (some assembly))
  | .unload path => Forest.lift fun s => (.ok (), s.unload path)
  | .stop => Forest.lift Session.stop

end AssemblyBrowser
