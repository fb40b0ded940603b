import AssemblyBrowser.Engine.Locator
import AssemblyBrowser.Settings.Lookup
/-!
The settings of an engine, decided once at the start: the command line, the language and the times
to wait.
-/
namespace AssemblyBrowser

structure EngineSettings where
  /-- No command if no engine was found. -/
  command : Option (List String)
  language : Language := .csharp
  startupTimeout : Number
  requestTimeout : Number
  stopGrace : Number
  /-- Variables that the engine gets beside the environment. -/
  environment : OrderedMap String String := ∅
deriving DecidableEq

namespace EngineSettings

def defaultStartupTimeout : Number := .real (.ofNat 30)
def defaultRequestTimeout : Number := .real (.ofNat 60)
def defaultStopGrace : Number := .real (.ofNat 5)

/-- The language of a setting; one that is not known counts as the first. -/
def languageOf (value : String) : Language :=
  match Language.parse value with
  | .ok l => l
  | .error _ => .csharp

/-- The further words of the command line. -/
def extraArguments (m : Machine) : Attempt Settings (List String) := do
  let line := (← Settings.get m "ILSPY_ENGINE_ARGS").getD ""
  Attempt.ofExcept ((Text.shellWords line).mapError .shell)

/-- Loads the settings, with a way to make a command line of further words. -/
def loadWith {γ : Type} (m : Machine) (command : List String → Attempt γ (Option (List String))) :
    Attempt (Settings × γ) EngineSettings := do
  let arguments ← inSettings (extraArguments m)
  let language ← inSettings (Settings.get m "ILSPY_LANGUAGE")
  let command ← Attempt.within Prod.snd (fun c s => (s.1, c)) (command arguments)
  let startupTimeout ← seconds "ILSPY_STARTUP_TIMEOUT" defaultStartupTimeout
  let requestTimeout ← seconds "ILSPY_REQUEST_TIMEOUT" defaultRequestTimeout
  let stopGrace ← seconds "ILSPY_STOP_GRACE" defaultStopGrace
  return { command, language := languageOf (language.getD Language.csharp.name), startupTimeout,
           requestTimeout, stopGrace }
where
  inSettings {α : Type} (a : Attempt Settings α) : Attempt (Settings × γ) α :=
    Attempt.within Prod.fst (fun t s => (t, s.2)) a
  seconds (key : String) (fallback : Number) : Attempt (Settings × γ) Number :=
    inSettings (Settings.getSeconds m key fallback)

/-- Where the settings say that the engine is. -/
def enginePath (m : Machine) : Attempt Settings (Option String) :=
  Settings.get m "ILSPY_ENGINE_PATH"

/-- Loads the settings with a locator, which remembers what it finds. -/
def load (m : Machine) : Attempt (Settings × Locator) EngineSettings :=
  loadWith m (Locator.buildCommand m)

/-- Loads the settings with a new locator, which looks first where the settings say. -/
def discover (m : Machine) : Attempt Settings (EngineSettings × Locator) := do
  let explicit ← enginePath m
  fun s =>
    let (r, s, locator) := (load m).runFrom (s, Locator.new m explicit)
    (r.map (·, locator), s)

end EngineSettings

end AssemblyBrowser
