import AssemblyBrowser.FileSystem.Resolve
import AssemblyBrowser.Text.Case
/-!
Finding assembly files below a directory. Some directories are never entered, links to directories
are not followed, and what is in a directory that cannot be listed is passed over.
-/
namespace AssemblyBrowser

namespace Discovery

def suffixes : List String := [".dll", ".exe", ".winrt", ".netmodule"]

/-- Directories that are never entered. -/
def excluded : List String := ["node_modules", ".git", "bower_components"]

def endsWith (suffix s : List Char) : Bool := suffix.reverse.isPrefixOf s.reverse

def isAssemblyName (name : String) : Bool :=
  suffixes.any fun suffix => endsWith suffix.toList (Text.lower name).toList

/-- Whether a path leads to a directory; if that cannot be told, it does not. -/
def isDirectory (m : Machine) (p : Path) : Bool :=
  match m.stat p with
  | .ok (_, .directory _) => true
  | _ => false

mutual
/-- The paths of assembly files in an entry of a directory. -/
def inEntry (m : Machine) (path : Path) (name : String) : Entry → List Path
  | .file .. => if isAssemblyName name then [path.child name] else []
  | .link _ =>
    if isAssemblyName name && !isDirectory m (path.child name) then [path.child name] else []
  | .directory es =>
    if excluded.contains name || (m.listing? (path.child name)).isNone then []
    else inEntries m (path.child name) es

def inEntries (m : Machine) (path : Path) : List (String × Entry) → List Path
  | [] => []
  | (name, e) :: es => inEntry m path name e ++ inEntries m path es
end

def sort (texts : List String) : List String := texts.mergeSort fun a b => decide (a ≤ b)

end Discovery

namespace Machine

variable (m : Machine)

/-- The resolved paths of the assembly files below a directory, sorted by code point. No directory
there: no files. -/
def findAssemblies (directory : Option String) : Except Failure (List String) :=
  match directory with
  | none | some "" => .ok []
  | some text => do
    let p ← m.expandHome (.ofString text)
    if !(← m.isDirectory p) then .ok []
    else
      let found := Discovery.inEntries m p ((m.listing? p).getD [])
      let positions ← found.mapM m.resolve
      .ok (Discovery.sort (positions.map Position.text))

end Machine

end AssemblyBrowser
