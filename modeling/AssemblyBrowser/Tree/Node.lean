import AssemblyBrowser.Protocol.Member
/-!
Nodes of the tree: members in the place where they were found, with what has been fetched for them.
-/
namespace AssemblyBrowser

/-- Nodes are numbered in the order in which they were made. -/
abbrev NodeId := Nat

/-- A place in the tree: an assembly and a key in it. -/
abbrev Slot := String × String

structure Node where
  member : Member
  /-- The path of the assembly. -/
  assembly : String
  /-- The key of the parent; a root has none. -/
  parent : Option String
  /-- The children, once they have been fetched. -/
  children : Option (List NodeId) := none
  /-- The text, once it has been fetched. -/
  code : Option String := none
deriving DecidableEq, Repr

namespace Node

def key (n : Node) : String := n.member.key

def slot (n : Node) : Slot := (n.assembly, n.key)

def isRoot (n : Node) : Bool := n.parent.isNone

def isExpandable (n : Node) : Bool := n.member.kind.isContainer

def isPopulated (n : Node) : Bool := n.children.isSome

def root (path : String) (m : Member) : Node := ⟨m, path, none, none, none⟩

def child (n : Node) (m : Member) : Node := ⟨m, n.assembly, some n.key, none, none⟩

def display (n : Node) : String :=
  "MemberNode(" ++ n.member.kind.name ++ " " ++ Text.quoted n.member.name ++ ", key=" ++
    Text.quoted n.key ++ ")"

end Node

end AssemblyBrowser
