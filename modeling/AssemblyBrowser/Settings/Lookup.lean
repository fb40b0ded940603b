import AssemblyBrowser.Attempt
import AssemblyBrowser.FileSystem.Resolve
import AssemblyBrowser.Number.Reading
import AssemblyBrowser.Settings.EnvFile
import AssemblyBrowser.Text.Case
/-!
Settings: the environment first, then a file named `.env`, which is looked for in the program's
directory, in the four directories above it and in the working directory. The file is read once.
-/
namespace AssemblyBrowser

structure Settings where
  /-- The directory of the program. -/
  home : Path
  /-- What the file held, once it has been read. -/
  cache : Option (OrderedMap String String)

/-- Where a setting comes from. -/
inductive Source
  | environment
  | file
deriving DecidableEq, Repr

def Source.name : Source → String
  | .environment => "environment"
  | .file => ".env file"

namespace Settings

/-- The settings that are known. -/
def knownKeys : List String :=
  ["ILSPY_ENGINE_PATH", "ILSPY_ENGINE_ARGS", "ILSPY_STARTUP_TIMEOUT", "ILSPY_REQUEST_TIMEOUT",
   "ILSPY_STOP_GRACE", "ILSPY_LANGUAGE", "ILSPY_BROWSER_LOG_LEVEL", "ILSPY_BROWSER_TRACE"]

def fileName : String := ".env"

/-- A place and the places above it. -/
def upwards (pos : Position) : List Position :=
  (List.range (pos.length + 1)).map fun i => pos.take (pos.length - i)

/-- How many directories are searched upwards. -/
def searchDepth : Nat := 5

/-- Where the file may be. -/
def candidates (m : Machine) (home : Position) : List Path :=
  (((upwards home).take searchDepth) ++ [m.workingDirectory]).map fun pos =>
    (Path.ofPosition pos).child fileName

/-- The first path that leads to a file. -/
def firstFile (m : Machine) : List Path → Except Failure (Option Path)
  | [] => .ok none
  | p :: rest => do if ← m.isFile p then .ok (some p) else firstFile m rest

def findFile (m : Machine) (s : Settings) : Except Failure (Option Path) := do
  firstFile m (candidates m (← m.resolve s.home))

/-- The text in bytes, if they are UTF-8. -/
def decodeUtf8? (bytes : List Byte) : Option String := String.fromUTF8? ⟨bytes.toArray⟩

/-- The settings in a file. One that cannot be read holds none. -/
def valuesIn (m : Machine) (p : Path) : Except Failure (OrderedMap String String) :=
  match m.fileAt p with
  | .error .nullCharacter => .error .nullCharacter
  | .error _ => .ok .empty
  | .ok data =>
    match decodeUtf8? data.bytes with
    | some text => .ok (EnvFile.parse text)
    | none => .error .notUtf8

/-- The settings of the file, read if that has not been done. -/
def fileValues (m : Machine) : Attempt Settings (OrderedMap String String) := fun s =>
  match s.cache with
  | some values => (.ok values, s)
  | none =>
    match (do match ← findFile m s with
        | some p => valuesIn m p
        | none => .ok .empty : Except Failure (OrderedMap String String)) with
    | .error f => (.error f, s)
    | .ok values => (.ok values, { s with cache := some values })

/-- Forgets what the file held. -/
def reset (s : Settings) : Settings := { s with cache := none }

def get (m : Machine) (key : String) : Attempt Settings (Option String) :=
  match m.getEnv? key with
  | some value => pure (some value)
  | none => do return (← fileValues m).find? key

def trueWords : List String := ["1", "true", "yes", "on"]

def isTrue (value : String) : Bool := trueWords.contains (Text.lower (Text.trim value))

def getBool (m : Machine) (key : String) (fallback : Bool) : Attempt Settings Bool := do
  match ← get m key with
  | some value => return isTrue value
  | none => return fallback

/-- A number of seconds; what is no number counts as absent. -/
def getSeconds (m : Machine) (key : String) (fallback : Number) : Attempt Settings Number := do
  match ← get m key with
  | some value => return (((Binary64.read? value).map .real).getD fallback)
  | none => return fallback

/-- Where a setting comes from, and its value. -/
def sourceOf (m : Machine) (values : OrderedMap String String) (key : String) :
    Option (Source × String) :=
  match m.getEnv? key with
  | some value => some (.environment, value)
  | none => (values.find? key).map fun value => (.file, value)

/-- All known settings with their sources. -/
def status (m : Machine) : Attempt Settings (List (String × Option (Source × String))) := do
  let values ← fileValues m
  return knownKeys.map fun key => (key, sourceOf m values key)

end Settings

end AssemblyBrowser
