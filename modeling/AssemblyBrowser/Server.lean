import AssemblyBrowser.Browser.Tools
import AssemblyBrowser.Engine.Settings
/-!
The server: how it is set up from the environment, and how it ends. It offers the tools of a browser
under one name.
-/
namespace AssemblyBrowser

/-- How much is logged, as a number: the higher, the less. -/
abbrev LogLevel := Nat

namespace LogLevel

def info : LogLevel := 20

def levels : List (String × LogLevel) :=
  [("CRITICAL", 50), ("FATAL", 50), ("ERROR", 40), ("WARNING", 30), ("WARN", 30), ("INFO", info),
   ("DEBUG", 10), ("NOTSET", 0)]

/-- A word that means a format and no level. -/
def formatWord : String := "BASIC_FORMAT"
def formatText : String := "%(levelname)s:%(name)s:%(message)s"

/-- A word in capitals, as far as a level can be meant. -/
def capitals (s : String) : String := String.ofList (s.toList.flatMap Text.titleOf)

/-- The level that a setting names; one that is not known counts as the usual one. -/
def ofSetting (value : Option String) : Except Failure LogLevel :=
  let word := capitals (match value with
    | none | some "" => "INFO"
    | some s => s)
  if word = formatWord then .error (.unknownLogLevel formatText)
  else .ok ((Assoc.find? word levels).getD info)

end LogLevel

structure Server (σ : Type) where
  level : LogLevel
  browser : Browser σ

namespace Server

variable {σ : Type}

def name : String := "ilspy-browser"

/-- Sets a server up; the engine is not started yet. -/
def new (m : Machine) (program : σ) : Attempt Settings (Server σ) := do
  let level ← Attempt.ofExcept (LogLevel.ofSetting (← Settings.get m "ILSPY_BROWSER_LOG_LEVEL"))
  let (settings, locator) ← EngineSettings.discover m
  let session := Session.new settings (some locator) m.environment program false
  return { level, browser := .new m (← get) session settings.language }

/-- Ends a server: its engine is stopped. -/
def stop (program : Program σ) : Attempt (Browser σ) Unit :=
  Browser.onForest (Forest.stop (Session.engine program))

end Server

end AssemblyBrowser
