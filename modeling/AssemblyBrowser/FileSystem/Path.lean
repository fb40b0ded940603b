import AssemblyBrowser.Text.Split
/-!
Paths as they are written. Empty components and single dots mean nothing and are dropped; two dots
are kept, since what they mean depends on links. Exactly two slashes in front are told apart from
one.
-/
namespace AssemblyBrowser

inductive Anchor
  | relative
  | root
  | doubleRoot
deriving DecidableEq, Repr

structure Path where
  anchor : Anchor
  parts : List String
deriving DecidableEq, Repr

/-- A place in the tree of directories, as the names from the root to it. -/
abbrev Position := List String

namespace Path

def anchorOf : List Char → Anchor
  | '/' :: '/' :: '/' :: _ => .root
  | '/' :: '/' :: _ => .doubleRoot
  | '/' :: _ => .root
  | _ => .relative

/-- The names in a written path. -/
def names (s : String) : List String := (Text.split '/' s).filter fun n => n ≠ "" && n ≠ "."

def ofString (s : String) : Path := ⟨anchorOf s.toList, names s⟩

def anchorText : Anchor → String
  | .relative => ""
  | .root => "/"
  | .doubleRoot => "//"

def text (p : Path) : String :=
  if p.anchor = .relative && p.parts.isEmpty then "."
  else anchorText p.anchor ++ "/".intercalate p.parts

def child (p : Path) (name : String) : Path := ⟨p.anchor, p.parts ++ [name]⟩

/-- The path to the directory above. Two dots are written only where there is no name to drop. -/
def up (p : Path) : Path :=
  match p.parts.getLast? with
  | none => if p.anchor = .relative then p.child ".." else p
  | some last => if last = ".." then p.child ".." else ⟨p.anchor, p.parts.dropLast⟩

/-- A path within a path; one with an anchor of its own stands alone. -/
def append (p q : Path) : Path :=
  if q.anchor = .relative then ⟨p.anchor, p.parts ++ q.parts⟩ else q

def ofPosition (pos : Position) : Path := ⟨.root, pos⟩

/-- Whether a path holds the character that no path may hold. -/
def hasNull (p : Path) : Bool := p.parts.any fun n => n.toList.contains '\x00'

end Path

def Position.text (pos : Position) : String := (Path.ofPosition pos).text

/-- The place that a name leads to, no link being followed: two dots lead one up. -/
def Position.enter (pos : Position) (n : String) : Position :=
  if n = ".." then pos.dropLast else pos ++ [n]

/-- Removes each name that two dots follow. -/
def Position.normalize (names : List String) : Position := names.foldl Position.enter []

end AssemblyBrowser
