import AssemblyBrowser.Attempt
import AssemblyBrowser.FileSystem.Discovery
import AssemblyBrowser.FileSystem.SearchPath
/-!
Finding the engine, and the host program that runs an engine in a library file. What has been found
is remembered; a search in vain is repeated.
-/
namespace AssemblyBrowser

structure Locator where
  platform : String
  /-- Where the user says the engine is. -/
  explicit : Option String
  engine : Option String := none
  host : Option String := none
deriving DecidableEq, Repr

namespace Locator

def engineName : String := "ilspy-backend"
def hostName : String := "dotnet"

def new (m : Machine) (explicit : Option String) : Locator := ⟨m.platform, explicit, none, none⟩

def isWindows (l : Locator) : Bool := l.platform = "Windows"

/-- The directory of tools below a home directory. -/
def toolPath (home : Path) (name : String) : Path :=
  home.append (.ofString (".dotnet/tools/" ++ name))

def variablePath (m : Machine) (key : String) : Path := .ofString ((m.getEnv? key).getD "")

/-- Where engines are installed. -/
def enginePaths (m : Machine) (home : Path) (l : Locator) : List Path :=
  if l.isWindows then
    [toolPath home (engineName ++ ".exe"),
     toolPath (variablePath m "USERPROFILE") (engineName ++ ".exe")]
  else
    [toolPath home engineName, .ofString ("/usr/local/bin/" ++ engineName),
     .ofString ("/usr/bin/" ++ engineName)]

/-- Where hosts are installed, before the home directory is looked at. -/
def hostPaths (m : Machine) (l : Locator) : Except Failure (List Path) :=
  if l.isWindows then
    .ok [(variablePath m "ProgramFiles").append (.ofString "dotnet/dotnet.exe"),
      .ofString "C:\\Program Files\\dotnet\\dotnet.exe"]
  else
    m.home.map fun home =>
      [.ofString "/usr/share/dotnet/dotnet", .ofString "/usr/local/share/dotnet/dotnet",
       home.append (.ofString ".dotnet/dotnet")]

/-- The first path at which something is. -/
def firstPresent (m : Machine) : List Path → Except Failure (Option String)
  | [] => .ok none
  | p :: rest => do if ← m.pathExists p then .ok (some p.text) else firstPresent m rest

/-- An optional text that is not empty. -/
def given? : Option String → Option String
  | some "" => none
  | s => s

/-- Searches for the engine: where the user says and nowhere else, or on the search path and where
engines are installed. -/
def searchEngine (m : Machine) (l : Locator) : Except Failure (Option String) :=
  match given? l.explicit with
  | some text => do
    let p ← m.expandHome (.ofString text)
    if ← m.pathExists p then .ok (some p.text) else .ok none
  | none =>
    match m.findProgram? engineName with
    | some p => .ok (some p)
    | none => do firstPresent m (enginePaths m (← m.home) l)

def searchHost (m : Machine) (l : Locator) : Except Failure (Option String) :=
  match m.findProgram? hostName with
  | some p => .ok (some p)
  | none => do firstPresent m (← hostPaths m l)

def findEngine (m : Machine) : Attempt Locator (Option String) := do
  let l ← get
  match l.engine with
  | some p => return some p
  | none =>
    let found ← Attempt.ofExcept (searchEngine m l)
    set { l with engine := found }
    return found

def findHost (m : Machine) : Attempt Locator (Option String) := do
  let l ← get
  match l.host with
  | some p => return some p
  | none =>
    let found ← Attempt.ofExcept (searchHost m l)
    set { l with host := found }
    return found

/-- Whether an engine needs the host. -/
def needsHost (engine : String) : Bool :=
  Discovery.endsWith ".dll".toList (Text.lower engine).toList

/-- The words that start the engine, if it and the host it may need are found. -/
def buildCommand (m : Machine) (arguments : List String) :
    Attempt Locator (Option (List String)) := do
  match ← findEngine m with
  | none => return none
  | some engine =>
    if needsHost engine then
      match ← findHost m with
      | none => return none
      | some host => return some (host :: engine :: arguments)
    else return some (engine :: arguments)

/-- What the host says of its version. -/
def hostVersion (m : Machine) : Option String :=
  match m.hostReply with
  | .output text => some (Text.trim text)
  | .failed => none

/-- What is found, for a person to look at. -/
def diagnose (m : Machine) : Attempt Locator (List (String × Json)) := do
  let engine ← findEngine m
  let host ← findHost m
  let l ← get
  return [("platform", .text l.platform), ("engine_found", .bool engine.isSome),
    ("engine_path", .ofText? engine), ("dotnet_found", .bool host.isSome),
    ("dotnet_path", .ofText? host), ("dotnet_version", .ofText? (host.bind fun _ => hostVersion m))]

end Locator

end AssemblyBrowser
