import AssemblyBrowser.Engine.Channel
/-!
A channel in use by senders that come while another one's request is being written. Requests are
serialized: a sender that comes meanwhile finds out at once whether the channel is open and then
waits until the request before its own has ended.
-/
namespace AssemblyBrowser

/-- What happens to a channel; a sender brings along what happens while its request is written. -/
inductive Happening
  | line (text : String)
  | close (reason : String)
  /-- The engine is of this generation now. -/
  | generation (n : Nat)
  | running (b : Bool)
  /-- Writing the request fails. -/
  | writeFails (e : EngineError)
  | send (command : Command) (arguments : Fields) (timeout : Option Number)
      (during : List Happening)

/-- A channel, the engine it leads to, and the lines written so far. -/
structure Exchange where
  channel : Channel
  generation : Nat
  running : Bool
  written : List (Nat × String) := []

def Happening.isSend : Happening → Bool
  | .send .. => true
  | _ => false

namespace Exchange

def refusal? (x : Exchange) (command : Command) : Option EngineError :=
  x.channel.refusal? command x.generation x.running

/-- Lets things happen up to a failure. For each sender that comes, tells whether it is refused. -/
def meanwhile (x : Exchange) :
    List Happening → Exchange × List (Option EngineError) × Option Failure
  | [] => (x, [], none)
  | h :: rest =>
    match h with
    | .line text =>
      match x.channel.handleLine text with
      | .ok c => meanwhile { x with channel := c } rest
      | .error digits => (x, [], some (.hugeInteger digits))
    | .close reason => meanwhile { x with channel := x.channel.close reason } rest
    | .generation n => meanwhile { x with generation := n } rest
    | .running b => meanwhile { x with running := b } rest
    | .writeFails e => (x, [], some (.engine e))
    | .send command _ _ _ =>
      let (y, refusals, failure) := meanwhile x rest
      (y, x.refusal? command :: refusals, failure)

/-- Registers and writes a request, with what happens while it is written, and waits. -/
def sendOne (x : Exchange) (command : Command) (arguments : Fields) (timeout : Option Number)
    (during : List Happening) :
    Except Failure Response × List (Option EngineError) × Exchange :=
  match x.refusal? command with
  | some e => (.error (.engine e), [], x)
  | none =>
    let (request, c) := x.channel.register command arguments
    let id := request.id.toNat
    let x := { x with channel := c, written := x.written ++ [(c.generation, request.encode)] }
    let (x, refusals, failure) := x.meanwhile during
    let r := match failure with
      | some f => .error f
      | none => x.channel.await id command (timeout.getD x.channel.timeout)
    (r, refusals, { x with channel := x.channel.forget id })

mutual
/-- A sender that came meanwhile ends, and after it those that came while its own request was
written. One that found the channel closed has ended before. -/
def follow (x : Exchange) (refusal : Option EngineError) :
    Happening → List (Except Failure Response) × Exchange
  | .send command arguments timeout during =>
    match refusal with
    | some e => ([.error (.engine e)], x)
    | none =>
      let (r, refusals, x) := x.sendOne command arguments timeout during
      let (others, x) := followAll x refusals during
      (r :: others, x)
  | _ => ([], x)

/-- The senders that came meanwhile end one after another; those behind a failure never came. -/
def followAll (x : Exchange) :
    List (Option EngineError) → List Happening → List (Except Failure Response) × Exchange
  | _, [] => ([], x)
  | refusals, h :: rest =>
    if h.isSend then
      match refusals with
      | [] => ([], x)
      | refusal :: refusals =>
        let (rs, x) := follow x refusal h
        let (others, x) := followAll x refusals rest
        (rs ++ others, x)
    else followAll x refusals rest
end

/-- A request and, one after another, those of the senders that came meanwhile: the result of the
first, and the results of the others. -/
def send (x : Exchange) (command : Command) (arguments : Fields) (timeout : Option Number)
    (during : List Happening) :
    Except Failure Response × List (Except Failure Response) × Exchange :=
  let (r, refusals, x) := x.sendOne command arguments timeout during
  let (others, x) := x.followAll refusals during
  (r, others, x)

/-- Lets something happen while nothing is being sent: what senders get, and what there is then. -/
def happen (x : Exchange) : Happening → List (Except Failure Response) × Exchange
  | .send command arguments timeout during =>
    let (r, others, y) := x.send command arguments timeout during
    (r :: others, y)
  | h => ([], (x.meanwhile [h]).1)

def happenAll (x : Exchange) : List Happening → List (Except Failure Response) × Exchange
  | [] => ([], x)
  | h :: hs =>
    let (rs, y) := x.happen h
    let (others, z) := y.happenAll hs
    (rs ++ others, z)

end Exchange

end AssemblyBrowser
