import AssemblyBrowser.Number.Basic
import AssemblyBrowser.Report.Causes
/-!
What goes wrong between a session and its engine. Each error has its report.
-/
namespace AssemblyBrowser

inductive EngineError
  /-- The engine is missing, ended at once, or never reported ready. -/
  | startup (command : Option (List String)) (reason : String) (exitCode : Option Int)
  /-- No live engine for the request, or its generation ended. -/
  | unavailable (operation : String) (reason : Option String) (generation : Option Int)
  /-- No answer in time. The whole milliseconds are those of the seconds. -/
  | timeout (operation : String) (seconds : Number) (milliseconds : Int)
  | malformed (operation detail : String) (payload : Option String)
  /-- The assembly is invalid, unsupported or unreadable. -/
  | load (path reason : String) (engineCode : Option String)
  /-- The engine cannot resolve or decompile a member. -/
  | decompile (key operation reason : String) (engineCode : Option String)
deriving DecidableEq, Repr

namespace EngineError

def report : EngineError → Report
  | .startup command reason exitCode => .startupFailed command reason exitCode
  | .unavailable operation reason generation => .unavailable operation reason generation
  | .timeout operation _ milliseconds => .timedOut operation milliseconds
  | .malformed operation detail payload => .malformed operation detail payload
  | .load path reason engineCode => .loadFailed path reason engineCode
  | .decompile key operation reason engineCode => .decompileFailed key operation reason engineCode

/-- The error for a request that waited in vain; there is none for a wait without a whole number of
milliseconds. -/
def timedOut (operation : String) (seconds : Number) : Except SecondsError EngineError :=
  seconds.milliseconds.map (.timeout operation seconds)

def kind : EngineError → String
  | .startup .. => "StartupFailure"
  | .unavailable .. => "EngineUnavailable"
  | .timeout .. => "EngineTimeout"
  | .malformed .. => "MalformedResponse"
  | .load .. => "LoadFailure"
  | .decompile .. => "DecompileFailure"

/-- What an error holds beside its report, by name. -/
def attributes : EngineError → List (String × Json)
  | .startup command reason exitCode =>
    [("command", (command.map Json.texts).getD .null), ("reason", .text reason),
     ("exit_code", .ofInteger? exitCode)]
  | .unavailable operation _ generation =>
    [("operation", .text operation), ("generation", .ofInteger? generation)]
  | .timeout operation seconds _ => [("operation", .text operation), ("timeout", .number seconds)]
  | .malformed operation detail _ => [("operation", .text operation), ("detail", .text detail)]
  | .load path _ code => [("assembly_path", .text path), ("engine_code", .ofText? code)]
  | .decompile key operation _ code =>
    [("member_key", .text key), ("operation", .text operation), ("engine_code", .ofText? code)]

end EngineError

end AssemblyBrowser
