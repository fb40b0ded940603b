import AssemblyBrowser.FileSystem.Machine
/-!
Resolving paths: the absolute place a path leads to, free of links and dots. Names that do not exist,
or that cannot be looked at, are kept, two dots remove the name before them, and a link that leads back
to itself is left standing with all that follows it.
-/
namespace AssemblyBrowser

namespace Resolve

/-- What is still to be done: a name to follow, or a link whose target has been followed. -/
inductive Todo
  | name (n : String)
  | finished (link : Path)
deriving DecidableEq, Repr

def remaining (todo : List Todo) : List String :=
  todo.filterMap fun t => match t with
    | .name n => some n
    | .finished _ => none

/-- How far a path has been followed. `here` is the path so far as it is written without the links,
and `seen` holds the links met, with what they lead to once that is known. -/
structure State where
  seen : List (Path × Option Path)
  here : Path
  todo : List Todo

/-- What comes of one more step. -/
inductive Next
  | arrived (p : Path)
  /-- A link has been met on the way to its own target. -/
  | circle (p : Path)
  | on (s : State)

/-- A path that is left as it stands. -/
def State.rest (s : State) : Path := ⟨s.here.anchor, s.here.parts ++ remaining s.todo⟩

end Resolve

namespace Machine

variable (m : Machine)

/-- The target of the link that a name stands for in the directory at a path, if it can be looked
at. No name of that path is a link. -/
def linkTarget? (here : Path) (name : String) : Option String :=
  if pathLimit ≤ (here.child name).text.utf8ByteSize then none
  else match m.advance (m.start here) (here.parts ++ [name]) with
    | .ok (.link _ target []) => some target
    | _ => none

end Machine

namespace Resolve

variable (m : Machine)

/-- Where the names in the target of a link begin, as a written path. -/
def linkStart (here : Path) (target : String) : Path :=
  if Path.anchorOf target.toList = .relative then here else .ofPosition []

def step (s : State) : Next :=
  match s.todo with
  | [] => .arrived s.here
  | .finished link :: todo => .on ⟨(link, some s.here) :: s.seen, s.here, todo⟩
  | .name n :: todo =>
    if n = ".." then .on ⟨s.seen, s.here.up, todo⟩
    else
      let next := s.here.child n
      match m.linkTarget? s.here n with
      | none => .on ⟨s.seen, next, todo⟩
      | some target =>
        match s.seen.lookup next with
        | some (some known) => .on ⟨s.seen, known, todo⟩
        | some none => .circle (State.rest ⟨s.seen, next, todo⟩)
        | none => .on ⟨(next, none) :: s.seen, linkStart s.here target,
            (Path.names target).map .name ++ .finished next :: todo⟩

/-- Takes steps to the end. Each written link is followed once, so the fuel need not exceed the names
at hand and in all targets, for every way in which a link can be written. -/
def run : (fuel : Nat) → State → Path
  | 0, s => s.rest
  | fuel + 1, s =>
    match step m s with
    | .arrived p | .circle p => p
    | .on s => run fuel s

/-- Before the first step. -/
def begin (p : Path) : State :=
  ⟨[], ⟨if p.anchor = .relative then .relative else .root, []⟩, p.parts.map .name⟩

def fuel (p : Path) : Nat :=
  p.parts.length + m.root.linkWeight * (Machine.pathLimit + 1) + 1

end Resolve

namespace Machine

variable (m : Machine)

/-- The place that a path names, no link being followed. -/
def place (p : Path) : Position := p.parts.foldl Position.enter (m.start p)

/-- The place a path leads to, as far as its names exist. -/
def canonical (p : Path) : Position :=
  m.place (Resolve.run m (Resolve.fuel m p) (Resolve.begin p))

/-- Resolves a path; one that links lead around in a circle is refused. -/
def resolve (p : Path) : Except Failure Position :=
  if p.hasNull then .error .nullCharacter
  else
    let pos := m.canonical p
    match m.stat (.ofPosition pos) with
    | .error (.errno .linkLoop) => .error (.linkLoop pos.text)
    | .error .nullCharacter => .error .nullCharacter
    | _ => .ok pos

end Machine

end AssemblyBrowser
