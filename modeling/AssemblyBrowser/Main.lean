import AssemblyBrowser.Json.Parser
import AssemblyBrowser.Json.Printer
import AssemblyBrowser.Server
/-!
The command line: a tool call a line, as an object with the name of a tool and its arguments, and the
text of the answer a line. The files are those of an empty machine, and no engine can be started.
-/
namespace AssemblyBrowser.Main

def machine : Machine where
  root := .directory []
  workingDirectory := []
  environment := ∅
  user := "root"
  homes := Machine.systemHomes
  privileged := true
  platform := "Linux"
  hostReply := .failed

/-- No engine: every attempt to start one fails. -/
def program : Program Unit where
  launch _ := (.failed ⟨[.text "there is no engine"]⟩, ())
  react _ _ _ := (⟨[], none⟩, ())

/-- The call that a line asks for. -/
def callOfLine (line : String) : Option ToolCall :=
  match Json.parse line with
  | .ok v =>
    match v.get? "tool", v.get? "args" with
    | some (.text name), some (.object arguments) => ToolCall.ofName? name arguments
    | some (.text name), none => ToolCall.ofName? name []
    | _, _ => none
  | .error _ => none

/-- The answer to a line, as a line. -/
def answer (line : String) (b : Browser Unit) : String × Browser Unit :=
  match callOfLine line with
  | none => (Json.print .compact (.object [("error", .text "no tool is called")]), b)
  | some call =>
    let (r, b) := (Browser.call program call).runFrom b
    match r with
    | .ok text => (Json.print .compact (.object [("result", .text text)]), b)
    | .error f => (Json.print .compact (.object [("error", .text f.message)]), b)

partial def serve (input output : IO.FS.Stream) (b : Browser Unit) : IO Unit := do
  let line ← input.getLine
  if line.isEmpty then return
  let (text, b) := answer line b
  output.putStrLn text
  output.flush
  serve input output b

end AssemblyBrowser.Main

open AssemblyBrowser in
def main : IO UInt32 := do
  match ((Server.new Main.machine ()).runFrom ⟨.ofPosition [], none⟩).1 with
  | .ok server =>
    Main.serve (← IO.getStdin) (← IO.getStdout) server.browser
    return 0
  | .error f =>
    IO.eprintln f.message
    return 1
