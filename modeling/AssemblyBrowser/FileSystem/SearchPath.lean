import AssemblyBrowser.FileSystem.Machine
/-!
Looking up programs in the directories of the search path.
-/
namespace AssemblyBrowser.Machine

variable (m : Machine)

/-- Where programs are looked for when the environment does not say. -/
def defaultSearchPath : String := "/bin:/usr/bin"

def searchPath : String := (m.getEnv? "PATH").getD defaultSearchPath

/-- A name within a directory, which is kept as it is written. -/
def within (directory name : String) : String :=
  if directory = "" || directory.toList.getLast? = some '/' then directory ++ name
  else directory ++ "/" ++ name

def isProgram (p : Path) : Bool :=
  match m.stat p with
  | .ok (_, .file _ mode) => m.mayRun mode
  | _ => false

/-- The first program of that name on the search path; an empty entry stands for the working
directory, an empty search path finds nothing. -/
def findProgram? (name : String) : Option String :=
  if m.searchPath = "" then none
  else
    ((Text.split ':' m.searchPath).map fun directory => within directory name).find? fun s =>
      m.isProgram (.ofString s)

end AssemblyBrowser.Machine
