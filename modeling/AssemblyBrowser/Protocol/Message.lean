import AssemblyBrowser.Json.Parser
import AssemblyBrowser.Json.Printer
import AssemblyBrowser.Protocol.Member
/-!
Messages to and from the engine: one JSON object a line. A request carries an id, a response repeats
it, and an event carries none.
-/
namespace AssemblyBrowser

inductive Command
  | load
  | enumerate
  | decompile
deriving DecidableEq, Repr

namespace Command

def name : Command → String
  | .load => "load"
  | .enumerate => "enumerate"
  | .decompile => "decompile"

def all : List Command := [.load, .enumerate, .decompile]

def ofName? (s : String) : Option Command := all.find? fun c => c.name = s

end Command

/-- The fields of a JSON object. -/
abbrev Fields := List (String × Json)

structure Request where
  id : Int
  command : Command
  arguments : Fields
deriving DecidableEq, Repr

namespace Request

def toJson (r : Request) : Json :=
  .object [("id", .integer r.id), ("command", .text r.command.name),
    ("arguments", .object r.arguments)]

/-- The line that is written for a request, with its line end. -/
def encode (r : Request) : String := r.toJson.print .compact ++ "\n"

end Request

/-- What a response reports. -/
inductive Answer
  | success (body : Fields)
  | failure (code : Option String) (message : String)
deriving DecidableEq, Repr

structure Response where
  id : Int
  answer : Answer
deriving DecidableEq, Repr

/-- Why no message can be read from a line. -/
inductive LineError
  | protocol (e : ProtocolError)
  /-- The line holds an integer of too many digits. -/
  | hugeInteger (digits : Nat)
deriving DecidableEq, Repr

/-- Reads the object on a line. -/
def decodeLine (line : String) : Except LineError Fields :=
  match Json.parse line with
  | .error (.hugeInteger digits) => .error (.hugeInteger digits)
  | .error e => .error (.protocol (.notJson e.message))
  | .ok (.object fields) => .ok fields
  | .ok v => .error (.protocol (.notObject v.typeName))

def isEvent (message : Fields) : Bool :=
  (Assoc.find? "event" message).isSome && (Assoc.find? "id" message).isNone

namespace Response

/-- The integer id of a message. -/
def id? (message : Fields) : Option Int :=
  match Assoc.find? "id" message with
  | some (.number (.integer n)) => some n
  | _ => none

/-- The text of an optional field of a failure; an empty text counts as absent. -/
def failureText? (error : Fields) (key : String) : Option String :=
  match Assoc.find? key error with
  | none => none
  | some v => if v.plain = "" then none else some v.plain

def defaultFailure : String := "engine reported a failure"

def ofMessage (message : Fields) : Except ProtocolError Response :=
  match id? message with
  | none => .error .noId
  | some id =>
    match Assoc.find? "success" message with
    | some (.bool true) =>
      match Assoc.find? "body" message with
      | none => .ok ⟨id, .success []⟩
      | some (.object body) => .ok ⟨id, .success body⟩
      | some _ => .error .bodyNotObject
    | some (.bool false) =>
      match Assoc.find? "error" message with
      | some (.object error) =>
        .ok ⟨id, .failure (failureText? error "code")
          ((failureText? error "message").getD defaultFailure)⟩
      | _ => .error .noErrorObject
    | _ => .error .noSuccess

end Response

end AssemblyBrowser
