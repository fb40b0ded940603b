import AssemblyBrowser.FileSystem.Path
import AssemblyBrowser.OrderedMap
/-!
The tree of files, symbolic links and directories. The contents of a file are runs of bytes at
offsets, zero elsewhere, so that a large file costs nothing.
-/
namespace AssemblyBrowser

abbrev Byte := UInt8

structure FileData where
  /-- Runs of bytes at offsets; a later run covers an earlier one. -/
  runs : List (Nat × List Byte)
  size : Nat
deriving DecidableEq, Repr

namespace FileData

def empty : FileData := ⟨[], 0⟩

def ofBytes (bytes : List Byte) : FileData := ⟨[(0, bytes)], bytes.length⟩

/-- Puts bytes over the contents and makes the file long enough for them. -/
def write (d : FileData) (offset : Nat) (bytes : List Byte) : FileData :=
  ⟨d.runs ++ [(offset, bytes)], max d.size (offset + bytes.length)⟩

/-- Cuts the file, or fills it with zeros, to a size. -/
def resize (d : FileData) (size : Nat) : FileData :=
  ⟨d.runs.map fun (offset, bytes) => (offset, bytes.take (size - offset)), size⟩

/-- Puts the part of a run that lies at `offset` and behind over `bytes`, which stand there. -/
def cover (offset : Nat) (bytes : List Byte) (run : Nat × List Byte) : List Byte :=
  let new := run.2.drop (offset - run.1)
  let gap := run.1 - offset
  if new.isEmpty || bytes.length ≤ gap then bytes
  else (bytes.take gap ++ new ++ bytes.drop (gap + new.length)).take bytes.length

/-- At most `count` bytes from an offset on; fewer at the end of the file. -/
def read (d : FileData) (offset count : Nat) : List Byte :=
  d.runs.foldl (cover offset) (List.replicate (min count (d.size - offset)) 0)

def bytes (d : FileData) : List Byte := d.read 0 d.size

end FileData

inductive Entry
  | file (data : FileData) (mode : Nat)
  | link (target : String)
  | directory (entries : List (String × Entry))

namespace Entry

instance : Inhabited Entry := ⟨.directory []⟩

def entries : Entry → List (String × Entry)
  | .directory es => es
  | _ => []

def isDirectory : Entry → Bool
  | .directory _ => true
  | _ => false

def isFile : Entry → Bool
  | .file .. => true
  | _ => false

def child? (e : Entry) (name : String) : Option Entry := Assoc.find? name e.entries

/-- The entry at a place, no link being followed. -/
def find? (e : Entry) : Position → Option Entry
  | [] => some e
  | n :: rest =>
    match e.child? n with
    | some c => c.find? rest
    | none => none

/-- Puts an entry at a place; missing directories are made. -/
def put (e : Entry) (new : Entry) : Position → Entry
  | [] => new
  | n :: rest => .directory (Assoc.put n (((e.child? n).getD default).put new rest) e.entries)

/-- Removes the entry at a place. -/
def remove (e : Entry) : Position → Entry
  | [] => e
  | [n] => .directory (Assoc.erase n e.entries)
  | n :: rest =>
    match e.child? n with
    | some c => .directory (Assoc.put n (c.remove rest) e.entries)
    | none => e

mutual
/-- The number of names in the targets of all links, and of the links. -/
def linkWeight : Entry → Nat
  | .file .. => 0
  | .link target => (Path.names target).length + 1
  | .directory es => linkWeightList es

def linkWeightList : List (String × Entry) → Nat
  | [] => 0
  | (_, e) :: es => linkWeight e + linkWeightList es
end

end Entry

end AssemblyBrowser
