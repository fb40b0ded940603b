import AssemblyBrowser.Failure
/-!
The trace of a session's operations: a record when one is called and one when it returns or fails.
Records of operations called within it stand in between.
-/
namespace AssemblyBrowser

/-- The operations that are traced. -/
inductive TracedOperation
  | ensureRunning
  | restart
  | stop
  | load
  | children
  | decompile
deriving DecidableEq, Repr

def TracedOperation.name : TracedOperation → String
  | .ensureRunning => "DecompilerSession.ensure_running"
  | .restart => "DecompilerSession.restart"
  | .stop => "DecompilerSession.stop"
  | .load => "DecompilerSession.load_assembly"
  | .children => "DecompilerSession.list_children"
  | .decompile => "DecompilerSession.decompile"

inductive TraceRecord
  | begun
  | call (op : TracedOperation) (arguments : List String)
  | ok (op : TracedOperation) (result : String)
  | fail (op : TracedOperation) (f : Failure)
deriving DecidableEq, Repr

namespace TraceRecord

/-- The longest result that is shown whole. -/
def resultLimit : Nat := 200

def summary (result : String) : String :=
  if resultLimit < result.length then (result.take resultLimit).toString ++ "..." else result

def level : String := "DEBUG "

/-- Records as they are written, without the time of day; the duration is left open. -/
def text : TraceRecord → String
  | .begun => level ++ "=== ilspy-browser session trace started ==="
  | .call op arguments =>
    level ++ "CALL  " ++ op.name ++ "(" ++ ", ".intercalate arguments ++ ")"
  | .ok op result => level ++ "OK    " ++ op.name ++ " -> " ++ summary result ++ "  (_ms)"
  | .fail op f => level ++ "FAIL  " ++ op.name ++ " -> " ++ f.kind ++ ": " ++ f.message ++ "  (_ms)"

end TraceRecord

end AssemblyBrowser
