import AssemblyBrowser.Json.Display
import AssemblyBrowser.Json.Printer
/-!
Reports of failures for people: a code, a message, perhaps a reason, steps that may help, and details
for a closer look.
-/
namespace AssemblyBrowser

inductive ReportCode
  | startupFailed
  | unavailable
  | timeout
  | malformedResponse
  | loadFailed
  | decompileFailed
  | parameterInvalid
  | unknown
deriving DecidableEq, Repr

namespace ReportCode

def name : ReportCode → String
  | .startupFailed => "ENGINE_STARTUP_FAILED"
  | .unavailable => "ENGINE_UNAVAILABLE"
  | .timeout => "ENGINE_TIMEOUT"
  | .malformedResponse => "ENGINE_MALFORMED_RESPONSE"
  | .loadFailed => "ASSEMBLY_LOAD_FAILED"
  | .decompileFailed => "DECOMPILE_FAILED"
  | .parameterInvalid => "PARAMETER_INVALID"
  | .unknown => "UNKNOWN_ERROR"

def all : List ReportCode :=
  [.startupFailed, .unavailable, .timeout, .malformedResponse, .loadFailed, .decompileFailed,
   .parameterInvalid, .unknown]

def ofName? (s : String) : Option ReportCode := all.find? fun c => c.name = s

end ReportCode

structure Report where
  code : ReportCode
  message : String
  reason : Option String
  suggestions : List String
  details : List (String × Json)
deriving DecidableEq, Repr

namespace Report

def toJson (r : Report) : Json :=
  .object [("error", .text r.code.name), ("message", .text r.message),
    ("reason", .ofText? r.reason), ("suggestions", .texts r.suggestions),
    ("debug_info", .object r.details)]

/-- How far the levels of a printed report are indented. No number: everything on one line; a
negative number indents by nothing. -/
def layout : Option Int → Json.Layout
  | none => .spaced
  | some n => .indented n.toNat

def print (r : Report) (indent : Option Int) : String := r.toJson.print (layout indent)

/-- Numbers lines from one. -/
def numbered (lines : List String) : List String :=
  lines.mapIdx fun i line => "  " ++ toString (i + 1) ++ ". " ++ line

/-- The report in lines. An empty reason is left out. -/
def userLines (r : Report) : List String :=
  ("Error [" ++ r.code.name ++ "]: " ++ r.message) ::
  ((match r.reason with
    | none | some "" => []
    | some reason => ["Reason: " ++ reason]) ++
  (if r.suggestions.isEmpty then [] else "\nSuggested actions:" :: numbered r.suggestions) ++
  (if r.details.isEmpty then []
    else "\nDebug information:" :: r.details.map fun (key, v) => "  " ++ key ++ ": " ++ v.plain))

def userMessage (r : Report) : String := "\n".intercalate r.userLines

end Report

end AssemblyBrowser
