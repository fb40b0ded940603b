import AssemblyBrowser.Failure
/-!
A channel carries requests to one generation of the engine and gives each answer to the request that
waits for it. A request is registered before it is written; the first line that decides it settles
it, and what settled it is kept for its sender. A closed channel settles nothing any more.
-/
namespace AssemblyBrowser

/-- What a request ends with, seen from the channel. -/
abbrev Settlement := Except EngineError Response

structure Channel where
  generation : Nat
  timeout : Number
  nextId : Nat := 1
  /-- The requests that wait for an answer. -/
  pending : List (Nat × Command) := []
  /-- How requests were settled, the latest first. -/
  settled : List (Nat × Settlement) := []
  closedReason : Option String := none

namespace Channel

/-- How many seconds a request waits for its answer if nothing else is said. -/
def usualTimeout : Number := .real (.ofNat 60)

def isClosed (c : Channel) : Bool := c.closedReason.isSome

/-- The error of a request that cannot be sent, if the channel is closed or the generation of the
engine is not, or no longer, running. -/
def refusal? (c : Channel) (command : Command) (generation : Nat) (running : Bool) :
    Option EngineError :=
  match c.closedReason with
  | some reason => some (.unavailable command.name (some reason) (some c.generation))
  | none =>
    if generation ≠ c.generation || !running then
      some (.unavailable command.name (some "engine process is not running") (some c.generation))
    else none

/-- Registers a request under the next id. -/
def register (c : Channel) (command : Command) (arguments : Fields) : Request × Channel :=
  (⟨c.nextId, command, arguments⟩,
    { c with nextId := c.nextId + 1, pending := c.pending ++ [(c.nextId, command)] })

/-- Forgets a request that no longer waits. -/
def forget (c : Channel) (id : Nat) : Channel :=
  { c with pending := c.pending.filter fun p => p.1 ≠ id }

/-- Settles one request. -/
def settle (c : Channel) (id : Nat) (result : Settlement) : Channel :=
  { c.forget id with settled := (id, result) :: c.settled }

/-- Settles all waiting requests with an error. -/
def failAll (c : Channel) (error : Command → EngineError) : Channel :=
  { c with
    pending := []
    settled := (c.pending.map fun (id, command) => (id, .error (error command))).reverse ++
      c.settled }

def settlement? (c : Channel) (id : Nat) : Option Settlement := c.settled.lookup id

/-- The waiting request with an id. -/
def waiting? (c : Channel) (id : Int) : Option (Nat × Command) :=
  c.pending.find? fun p => (p.1 : Int) = id

/-- What a line from the engine is. -/
inductive Reading
  | event
  | response (r : Response)
  /-- Not a message, or not one of the protocol; perhaps with the id it claims. -/
  | malformed (e : ProtocolError) (id : Option Int)

def readMessage (message : Fields) : Reading :=
  if isEvent message then .event
  else match Response.ofMessage message with
    | .ok r => .response r
    | .error e => .malformed e (Response.id? message)

/-- Reads a line. An integer that is too long cannot be read at all. -/
def readLine (line : String) : Except Nat Reading :=
  match decodeLine line with
  | .error (.hugeInteger digits) => .error digits
  | .error (.protocol e) => .ok (.malformed e none)
  | .ok message => .ok (readMessage message)

/-- Settles what a reading decides. A malformed message that names no waiting request fails all. -/
def take (c : Channel) (line : String) : Reading → Channel
  | .event => c
  | .response r =>
    match c.waiting? r.id with
    | some (id, _) => c.settle id (.ok r)
    | none => c
  | .malformed e id =>
    let error (command : Command) : EngineError := .malformed command.name e.message (some line)
    match id.bind c.waiting? with
    | some (id, command) => c.settle id (.error (error command))
    | none => c.failAll error

/-- Handles a line from the engine. -/
def handleLine (c : Channel) (line : String) : Except Nat Channel :=
  (readLine line).map (c.take line)

/-- Closes the channel for a reason, which all waiting requests fail with. Only the first closing
counts. -/
def close (c : Channel) (reason : String) : Channel :=
  if c.isClosed then c
  else { c with closedReason := some reason }.failAll fun command =>
    .unavailable command.name (some reason) (some c.generation)

/-- What a sender gets that waits no longer than `timeout`: the settlement, or the failure to wait
or to be answered in time. -/
def await (c : Channel) (id : Nat) (command : Command) (timeout : Number) :
    Except Failure Response :=
  match c.settlement? id with
  | some (.ok r) => .ok r
  | some (.error e) => .error (.engine e)
  | none =>
    match timeout.wait with
    | .error e => .error (.seconds e)
    | .ok () =>
      match EngineError.timedOut command.name timeout with
      | .ok e => .error (.engine e)
      | .error e => .error (.seconds e)

end Channel

end AssemblyBrowser
