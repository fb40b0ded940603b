import AssemblyBrowser.Report.Basic
/-!
The reports for each cause of failure.
-/
namespace AssemblyBrowser.Report

/-- A detail that is given only when there is a value. -/
def optional (key : String) (v : Option Json) : List (String × Json) :=
  match v with
  | some v => [(key, v)]
  | none => []

/-- An optional text that is not empty. -/
def nonEmpty? : Option String → Option String
  | some "" => none
  | s => s

/-- The engine could not be started. -/
def startupFailed (command : Option (List String)) (reason : String) (exitCode : Option Int) :
    Report where
  code := .startupFailed
  message := "Failed to start the decompiler engine"
  reason := reason
  suggestions := [
    "Check that ILSPY_ENGINE_PATH points at the decompiler engine executable",
    "If the engine is a .dll, make sure the dotnet host is installed and on PATH",
    "Run engine_status() to see the resolved engine command line",
    "Increase ILSPY_STARTUP_TIMEOUT if the engine is slow to initialise"]
  details := ("command", match command with
    | none | some [] => .null
    | some words => .text (" ".intercalate words)) ::
    optional "exit_code" (exitCode.map .integer)

/-- A request cannot reach a live engine. -/
def unavailable (operation : String) (reason : Option String) (generation : Option Int) :
    Report where
  code := .unavailable
  message := "Decompiler engine unavailable for '" ++ operation ++ "'"
  reason := (nonEmpty? reason).getD "The engine process is not running"
  suggestions := [
    "The engine stopped or was restarted while the request was pending",
    "Retry the operation; the engine is restarted automatically on the next call",
    "Use restart_engine() to start it explicitly"]
  details := ("operation", .text operation) ::
    optional "generation" (generation.map .integer)

/-- A request was not answered in time. -/
def timedOut (operation : String) (milliseconds : Int) : Report where
  code := .timeout
  message := "Operation '" ++ operation ++ "' timed out after " ++ toString milliseconds ++ "ms"
  reason := "The engine did not respond within the time limit"
  suggestions := [
    "The engine did not answer in time and has been stopped",
    "Retry the operation; a fresh engine process will be started",
    "Increase ILSPY_REQUEST_TIMEOUT for very large types"]
  details := [("operation", .text operation), ("timeout_ms", .integer milliseconds)]

/-- The longest part of a payload that is shown. -/
def payloadLimit : Nat := 200

/-- The engine sent what cannot be understood. -/
def malformed (operation detail : String) (payload : Option String) : Report where
  code := .malformedResponse
  message := "Malformed engine response for '" ++ operation ++ "'"
  reason := detail
  suggestions := [
    "The engine answered with data that does not follow the protocol",
    "Check that the engine version matches this client",
    "Set ILSPY_BROWSER_LOG_LEVEL=DEBUG to log raw engine traffic"]
  details := ("operation", .text operation) ::
    optional "payload" (payload.map fun p => .text (p.take payloadLimit).toString)

/-- An assembly could not be loaded. -/
def loadFailed (path reason : String) (engineCode : Option String) : Report where
  code := .loadFailed
  message := "Failed to load assembly: " ++ path
  reason := reason
  suggestions := [
    "Verify the file is a managed (.NET) assembly and not a native binary",
    "Check that the file is readable and not locked by another process",
    "Make sure the path points at a .dll, .exe, .winrt or .netmodule file"]
  details := ("assembly_path", .text path) ::
    optional "engine_code" ((nonEmpty? engineCode).map .text)

/-- A member could not be enumerated or decompiled. -/
def decompileFailed (key operation reason : String) (engineCode : Option String) : Report where
  code := .decompileFailed
  message := "Failed to " ++ operation ++ " member: " ++ key
  reason := reason
  suggestions := [
    "The member may belong to an assembly that was removed or reloaded",
    "Call refresh_tree() and browse to the member again",
    "Try the IL language with set_language('il') if C# decompilation fails"]
  details := ("member_key", .text key) :: ("operation", .text operation) ::
    optional "engine_code" ((nonEmpty? engineCode).map .text)

/-- A parameter has a value that is not expected. -/
def parameterInvalid (name : String) (value : Json) (expected : String) : Report where
  code := .parameterInvalid
  message := "Invalid " ++ name ++ ": " ++ value.display
  reason := "Expected " ++ expected
  suggestions := ["Provide " ++ name ++ " as " ++ expected]
  details := [("parameter_name", .text name), ("provided_value", value)]

/-- Any other failure, by its kind and its text; without a text the kind stands for it. -/
def unknownFailure (kind text : String) : Report where
  code := .unknown
  message := if text = "" then kind else text
  reason := none
  suggestions := []
  details := [("exception_type", .text kind)]

end AssemblyBrowser.Report
