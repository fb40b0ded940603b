import AssemblyBrowser.Failure
import AssemblyBrowser.OrderedMap
import AssemblyBrowser.Tree.Node
/-!
The tree of the loaded assemblies and their members. Every node ever made is kept; a node is attached
as long as its slot holds that very node. Two assemblies may share keys, so a slot names both.

Changes of the structure are told to the listeners.
-/
namespace AssemblyBrowser

inductive TreeEvent
  | added (path : String)
  | removed (path : String)
  | refreshed
deriving DecidableEq, Repr

namespace TreeEvent

def reason : TreeEvent → String
  | .added _ => "added"
  | .removed _ => "removed"
  | .refreshed => "refreshed"

def path? : TreeEvent → Option String
  | .added path | .removed path => some path
  | .refreshed => none

end TreeEvent

/-- Listeners are told apart by number. -/
abbrev Listening := Nat

/-- A call to the engine that callers wait for together. -/
inductive Flight
  | add (path : String)
  | children (node : NodeId)
  | code (node : NodeId)
deriving DecidableEq, Repr

/-- An assembly in the tree, as the engine described it, and its node. -/
structure Root where
  member : Member
  node : NodeId
deriving DecidableEq, Repr

structure Tree where
  language : Language := .csharp
  nodes : List Node := []
  roots : OrderedMap String Root := ∅
  slots : OrderedMap Slot NodeId := ∅
  flights : List Flight := []
  listeners : List Listening := []
  /-- What each listener was told, in order. -/
  deliveries : List (Listening × TreeEvent) := []

namespace Tree

/-! ## Queries -/

def node? (t : Tree) (id : NodeId) : Option Node := t.nodes[id]?

def rootNodes (t : Tree) : List NodeId := t.roots.values.map Root.node

/-- The paths of the assemblies, in the order in which they were added. -/
def paths (t : Tree) : List String := t.roots.keys

def isAttached (t : Tree) (id : NodeId) : Bool :=
  match t.node? id with
  | some n => t.slots.find? n.slot = some id
  | none => false

/-- The attached nodes with a key, in the order of their assemblies. -/
def findNodes (t : Tree) (key : String) : List NodeId :=
  t.paths.filterMap fun path => t.slots.find? (path, key)

def assemblyOf (t : Tree) (id : NodeId) : String := ((t.node? id).map Node.assembly).getD ""

/-- The attached node with a key. Without an assembly the key must be in one assembly only. -/
def getNode (t : Tree) (key : String) : (assembly : Option String) → Except Failure (Option NodeId)
  | some path => .ok (t.slots.find? (path, key))
  | none =>
    match t.findNodes key with
    | [] => .ok none
    | [id] => .ok (some id)
    | ids => .error (.ambiguousKey key (ids.map t.assemblyOf))

def parent? (t : Tree) (id : NodeId) : Option NodeId :=
  (t.node? id).bind fun n => n.parent.bind fun key => t.slots.find? (n.assembly, key)

/-! ## Changes -/

/-- Makes nodes, which are numbered from the next number on. -/
def create (t : Tree) (ns : List Node) : List NodeId × Tree :=
  (List.range' t.nodes.length ns.length, { t with nodes := t.nodes ++ ns })

def modify (t : Tree) (id : NodeId) (f : Node → Node) : Tree :=
  { t with nodes := t.nodes.modify id f }

/-- Attaches a node: its slot holds it, and no longer another. -/
def attach (t : Tree) (id : NodeId) : Tree :=
  match t.node? id with
  | some n => { t with slots := t.slots.put n.slot id }
  | none => t

/-- Makes and attaches the root of an assembly. -/
def plant (t : Tree) (path : String) (m : Member) : Tree :=
  let id := t.nodes.length
  { t with
    nodes := t.nodes ++ [.root path m]
    roots := t.roots.put path ⟨m, id⟩
    slots := t.slots.put (path, m.key) id }

/-- Detaches an assembly and all nodes in it. -/
def uproot (t : Tree) (path : String) : Tree :=
  { t with
    roots := t.roots.erase path
    slots := t.slots.filter fun slot => slot.1 ≠ path }

def tell (t : Tree) (e : TreeEvent) : Tree :=
  { t with deliveries := t.deliveries ++ t.listeners.map fun l => (l, e) }

/-- Detaches all nodes and makes new roots for the assemblies. -/
def replant (t : Tree) : Tree :=
  t.roots.entries.foldl (fun t (path, r) => t.plant path r.member)
    { t with roots := ∅, slots := ∅ }

/-- Drops everything that has been fetched below the roots, and the roots' own. -/
def refresh (t : Tree) : Tree := t.replant.tell .refreshed

/-- Changes the language of the text, of which none is kept then. The answer tells whether it was
another one. -/
def setLanguage (t : Tree) (l : Language) : Bool × Tree :=
  if t.language = l then (false, t) else (true, ({ t with language := l } : Tree).refresh)

/-! ## Listeners -/

def subscribe (t : Tree) (l : Listening) : Tree := { t with listeners := t.listeners ++ [l] }

/-- Takes away one subscription of a listener, the first if there are several. -/
def unsubscribe (t : Tree) (l : Listening) : Tree := { t with listeners := t.listeners.erase l }

/-! ## Flights -/

/-- How a caller fares that wants something from the tree. -/
inductive Entry (α : Type)
  /-- The tree itself knows the answer. -/
  | settled (r : Except Failure α)
  /-- Another caller is asking the engine the same. -/
  | joined
  /-- The caller is to ask the engine. -/
  | owner

def board {α : Type} (t : Tree) (f : Flight) : Entry α × Tree :=
  if f ∈ t.flights then (.joined, t) else (.owner, { t with flights := t.flights ++ [f] })

def land (t : Tree) (f : Flight) : Tree := { t with flights := t.flights.erase f }

def beginAdd (t : Tree) (path : String) : Entry Bool × Tree :=
  if t.roots.contains path then (.settled (.ok false), t) else t.board (.add path)

/-- The engine has loaded an assembly, or has not. -/
def finishAdd (path : String) (r : Except Failure Member) (t : Tree) : Except Failure Bool × Tree :=
  let t := t.land (.add path)
  match r with
  | .ok m => (.ok true, (t.plant path m).tell (.added path))
  | .error f => (.error f, t)

/-- What is kept on a node is the answer, whether the node is attached or not; for what is not kept
the node must be attached. -/
def beginFetch {α : Type} (t : Tree) (f : Flight) (id : NodeId) (kept : Node → Option α) :
    Entry α × Tree :=
  match t.node? id with
  | none => (.settled (.error (.staleNode "")), t)
  | some n =>
    match kept n with
    | some v => (.settled (.ok v), t)
    | none => if t.isAttached id then t.board f else (.settled (.error (.staleNode n.key)), t)

def beginChildren (t : Tree) (id : NodeId) : Entry (List NodeId) × Tree :=
  t.beginFetch (.children id) id Node.children

def beginCode (t : Tree) (id : NodeId) : Entry String × Tree :=
  t.beginFetch (.code id) id Node.code

/-- Keeps the children of a node and attaches them. -/
def adopt (t : Tree) (id : NodeId) (ids : List NodeId) : Tree :=
  ids.foldl attach (t.modify id fun n => { n with children := some ids })

/-- The engine has listed the children of a node, or has not. They are kept if the node is still
attached. -/
def finishChildren (id : NodeId) (r : Except Failure (List Member)) (t : Tree) :
    Except Failure (List NodeId) × Tree :=
  let t := t.land (.children id)
  match r, t.node? id with
  | .error f, _ => (.error f, t)
  | .ok _, none => (.ok [], t)
  | .ok ms, some n =>
    let (ids, t) := t.create (ms.map n.child)
    (.ok ids, if t.isAttached id then t.adopt id ids else t)

/-- The engine has decompiled a node, or has not. The text is kept if the node is still attached. -/
def finishCode (id : NodeId) (r : Except Failure String) (t : Tree) :
    Except Failure String × Tree :=
  let t := t.land (.code id)
  match r with
  | .error f => (.error f, t)
  | .ok text =>
    (.ok text, if t.isAttached id then t.modify id fun n => { n with code := some text } else t)

end Tree

end AssemblyBrowser
