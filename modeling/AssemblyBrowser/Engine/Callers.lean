import AssemblyBrowser.Engine.Session
/-!
Several callers of one session. Each operation is a sequence of steps, and the steps of different
callers may come in any order: a caller waits where the life of the engine is in another's hands,
where another's request is on its way, and for the answer to its own request. The steps are those
that the operations of `Session` consist of.
-/
namespace AssemblyBrowser

inductive Operation
  | ensureRunning
  | restart
  | stop
  | load (path : String)
  | children (key : String) (assembly : Option String)
  | decompile (key : String) (language : Option Json) (assembly : Option String)
deriving DecidableEq, Repr

/-- What an operation returns. -/
inductive Value
  | nothing
  | member (m : Member)
  | members (ms : List Member)
  | code (text : String)
deriving DecidableEq, Repr

namespace Operation

def traced : Operation → TracedOperation
  | .ensureRunning => .ensureRunning
  | .restart => .restart
  | .stop => .stop
  | .load _ => .load
  | .children .. => .children
  | .decompile .. => .decompile

def shownArguments : Operation → List String
  | .load path => [Text.quoted path]
  | .children key assembly => Text.quoted key :: assembly.toList.map Text.quoted
  | .decompile key language assembly => Session.decompileArguments key language assembly
  | _ => []

/-- The request of an operation, if it sends one. -/
def request? : Operation → Except Failure (Option (Command × Fields))
  | .load path => .ok (some (.load, Session.loadArguments path))
  | .children key assembly => .ok (some (.enumerate, Session.memberArguments key assembly))
  | .decompile key language assembly =>
    (Session.languageOf language).map fun l =>
      some (.decompile, Session.memberArguments key assembly ++ [("language", .text l.name)])
  | _ => .ok none

def command : Operation → Command
  | .load _ => .load
  | .decompile .. => .decompile
  | _ => .enumerate

/-- What the answer to the request means. -/
def result (op : Operation) (answer : Answer) : Except Failure Value :=
  match op with
  | .load path => (Session.loadResult path answer).map .member
  | .children key _ => (Session.childrenResult key answer).map .members
  | .decompile key _ _ => (Session.codeResult key answer).map .code
  | _ => .ok .nothing

/-- The whole operation of a caller that is alone. -/
def run {σ : Type} (program : Program σ) : Operation → Attempt (Session σ) Value
  | .ensureRunning => (fun _ => .nothing) <$> Session.ensureRunning program
  | .restart => (fun _ => .nothing) <$> Session.restart program
  | .stop => (fun _ => .nothing) <$> Session.stop
  | .load path => .member <$> Session.load program path
  | .children key assembly => .members <$> Session.children program key assembly
  | .decompile key language assembly => .code <$> Session.decompile program key language assembly

end Operation

def Value.display : Value → String
  | .nothing => "None"
  | .member m => m.display
  | .members ms => Session.displayMembers ms
  | .code text => Text.quoted text

/-- Where a request stands. -/
inductive SendStage
  /-- Another request is on its way. -/
  | queued
  | waiting (id : Nat)
deriving DecidableEq, Repr

/-- Where an operation stands. -/
inductive Phase
  | begun (op : Operation)
  /-- Waits until the life of the engine is in its hands. -/
  | wanting (op : Operation)
  /-- Loads assemblies again; the life of the engine is in its hands. -/
  | reloading (op : Operation) (generation : Nat) (path : String) (rest : List String)
      (stage : SendStage)
  | requesting (op : Operation) (arguments : Fields) (generation : Nat) (stage : SendStage)
  /-- Was not answered in time and wants to stop the engine. -/
  | givingUp (op : Operation) (generation : Nat) (failure : Failure)
  | finished (result : Except Failure Value)

structure Callers (σ : Type) where
  session : Session σ
  /-- In whose hands the life of the engine is. -/
  lifecycle : Option Nat := none
  /-- Whose request is on its way to a generation. -/
  senders : List (Nat × Nat) := []
  phases : List (Nat × Phase) := []

namespace Callers

variable {σ : Type}

def phase? (c : Callers σ) (i : Nat) : Option Phase := Assoc.find? i c.phases

def goto (c : Callers σ) (i : Nat) (p : Phase) : Callers σ :=
  { c with phases := Assoc.put i p c.phases }

def withSession (c : Callers σ) (s : Session σ) : Callers σ := { c with session := s }

def note (c : Callers σ) (r : TraceRecord) : Callers σ :=
  c.withSession { c.session with trace := c.session.trace.map (· ++ [r]) }

/-- A caller begins an operation. -/
def begin (c : Callers σ) (i : Nat) (op : Operation) : Callers σ := c.goto i (.begun op)

/-- Gives the life of the engine out of a caller's hands. -/
def release (c : Callers σ) (i : Nat) : Callers σ :=
  if c.lifecycle = some i then { c with lifecycle := none } else c

/-- A caller's request is no longer on its way. -/
def releaseSender (c : Callers σ) (g : Nat) : Callers σ :=
  { c with senders := Assoc.erase g c.senders }

/-- An operation comes to its end. -/
def finish (c : Callers σ) (i : Nat) (op : Operation) (r : Except Failure Value) : Callers σ :=
  let c := match r with
    | .ok v => c.note (.ok op.traced v.display)
    | .error f => c.note (.fail op.traced f)
  (c.release i).goto i (.finished r)

/-- The engine runs, as an operation that sends a request wants it. -/
def ready (c : Callers σ) (i : Nat) (op : Operation) (command : Command) (arguments : Fields) :
    Callers σ :=
  let c := (c.note (.ok .ensureRunning "None")).release i
  match c.session.link.installed with
  | none => c.finish i op (.error (Session.stoppedEarly command))
  | some g =>
    match c.session.refusal? g command with
    | some e => c.finish i op (.error (.engine e))
    | none => c.goto i (.requesting op arguments g .queued)

/-- What follows once the engine runs, or could not be made to. -/
def afterLaunch (c : Callers σ) (i : Nat) (op : Operation) (r : Except Failure Unit) : Callers σ :=
  match op.request? with
  | .ok (some (command, arguments)) =>
    match r with
    | .ok () => c.ready i op command arguments
    | .error f => (c.note (.fail .ensureRunning f)).finish i op (.error f)
  | _ => c.finish i op (r.map fun _ => .nothing)

/-- Goes on to the next assembly that is to be loaded again. -/
def reloadNext (c : Callers σ) (i : Nat) (op : Operation) (g : Nat) : List String → Callers σ
  | [] => c.afterLaunch i op (.ok ())
  | path :: rest =>
    match c.session.refusal? g .load with
    | some e =>
      let (r, s) := Session.settleReload path (.error (.engine e)) c.session
      (c.withSession s).afterLaunch i op r
    | none => c.goto i (.reloading op g path rest .queued)

section Steps

variable (program : Program σ)

/-- Takes the life of the engine into the hands of a caller: what it wants with it is done. -/
def takeLifecycle (c : Callers σ) (i : Nat) (op : Operation) : Callers σ :=
  let c := { c with lifecycle := some i }
  match op with
  | .stop => (c.withSession (c.session.teardown "engine stopped")).finish i op (.ok .nothing)
  | _ =>
    let (running, s) := c.session.isRunning
    let c := c.withSession s
    if op ≠ .restart && running then c.afterLaunch i op (.ok ())
    else
      match (Session.launch program).runFrom s with
      | (.error f, s) => (c.withSession s).afterLaunch i op (.error f)
      | (.ok channel, s) => (c.withSession s).reloadNext i op channel.generation s.loadedAssemblies

/-- An operation begins: what needs no engine is decided at once. -/
def start (c : Callers σ) (i : Nat) (op : Operation) : Callers σ :=
  let c := c.note (.call op.traced op.shownArguments)
  match op.request? with
  | .error f => c.finish i op (.error f)
  | .ok none =>
    if op = .ensureRunning then
      let (running, s) := c.session.isRunning
      let c := c.withSession s
      if running then c.finish i op (.ok .nothing) else c.goto i (.wanting op)
    else c.goto i (.wanting op)
  | .ok (some (command, arguments)) =>
    let c := c.note (.call .ensureRunning [])
    let (running, s) := c.session.isRunning
    let c := c.withSession s
    if running then c.ready i op command arguments else c.goto i (.wanting op)

/-- Posts a request, whose sender then waits for the answer. -/
def post (c : Callers σ) (i g : Nat) (command : Command) (arguments : Fields) :
    Except Failure Nat × Callers σ :=
  let (r, s) := (Session.post program g command arguments).runFrom c.session
  let c := c.withSession s
  match r with
  | .ok id => (.ok id, { c with senders := Assoc.put g i c.senders })
  | .error f => (.error f, c)

/-- What follows when a request to load an assembly again has ended. -/
def endReload (c : Callers σ) (i : Nat) (op : Operation) (g : Nat) (path : String)
    (rest : List String) (r : Except Failure Answer) : Callers σ :=
  let (r, s) := Session.settleReload path r c.session
  let c := c.withSession s
  match r with
  | .ok () => c.reloadNext i op g rest
  | .error f => c.afterLaunch i op (.error f)

/-- What follows when the request of an operation has ended. -/
def endRequest (c : Callers σ) (i : Nat) (op : Operation) (g : Nat) (r : Except Failure Answer) :
    Callers σ :=
  match r with
  | .error (.engine (.timeout operation seconds ms)) =>
    c.goto i (.givingUp op g (.engine (.timeout operation seconds ms)))
  | .error f => c.finish i op (.error f)
  | .ok answer =>
    let v := op.result answer
    let c := match op, v with
      | .load path, .ok (.member m) => c.withSession (c.session.remember path m)
      | _, _ => c
    c.finish i op v

/-- The request of a caller comes to its end. -/
def collect (c : Callers σ) (g id : Nat) (command : Command) : Except Failure Answer × Callers σ :=
  let (r, s) := (Session.collect g id command).runFrom c.session
  (r, (c.withSession s).releaseSender g)

def isSettled (c : Callers σ) (g id : Nat) : Bool :=
  ((c.session.link.channel? g).bind fun channel => channel.settlement? id).isSome

/-- Whether a caller still waits for the answer to its request: there is none yet, and its time to
wait is not of no length. -/
def mustWait (c : Callers σ) (g id : Nat) : Bool :=
  !c.isSettled g id && c.session.settings.requestTimeout.takesTime

def isFree (c : Callers σ) (g : Nat) : Bool := (Assoc.find? g c.senders).isNone

/-- The next step of a caller; `patient` if it still waits for an answer that has not come. No step:
the caller cannot go on, or has come to its end. -/
def step? (patient : Bool) (i : Nat) (c : Callers σ) : Option (Callers σ) :=
  match c.phase? i with
  | none | some (.finished _) => none
  | some (.begun op) => some (c.start i op)
  | some (.wanting op) =>
    if c.lifecycle.isNone then some (c.takeLifecycle program i op) else none
  | some (.reloading op g path rest .queued) =>
    if c.isFree g then
      match c.post program i g .load (Session.loadArguments path) with
      | (.ok id, c) => some (c.goto i (.reloading op g path rest (.waiting id)))
      | (.error f, c) => some (c.endReload i op g path rest (.error f))
    else none
  | some (.reloading op g path rest (.waiting id)) =>
    if patient && c.mustWait g id then none
    else
      let (r, c) := c.collect g id .load
      some (c.endReload i op g path rest r)
  | some (.requesting op arguments g .queued) =>
    if c.isFree g then
      match c.post program i g op.command arguments with
      | (.ok id, c) => some (c.goto i (.requesting op arguments g (.waiting id)))
      | (.error f, c) => some (c.finish i op (.error f))
    else none
  | some (.requesting op _ g (.waiting id)) =>
    if patient && c.mustWait g id then none
    else
      let (r, c) := c.collect g id op.command
      some (c.endRequest i op g r)
  | some (.givingUp op g f) =>
    if c.lifecycle.isNone then
      let s := if c.session.link.installed = some g then c.session.teardown Session.timedOutReason
        else c.session
      some ((c.withSession s).finish i op (.error f))
    else none

/-- Lets a caller go on as long as it can. -/
def advance (i : Nat) : (fuel : Nat) → Callers σ → Callers σ
  | 0, c => c
  | fuel + 1, c =>
    match step? program true i c with
    | some c => advance i fuel c
    | none => c

/-- Steps enough for one operation. -/
def stepBound (c : Callers σ) : Nat := 3 * c.session.loadedAssemblies.length + 12

/-- Lets a caller go on until it waits or has come to its end. -/
def settle (i : Nat) (c : Callers σ) : Callers σ := advance program i c.stepBound c

def callerIds (c : Callers σ) : List Nat := c.phases.map Prod.fst

/-- Lets all callers go on until each waits or has come to its end. -/
def settleAll (c : Callers σ) : Callers σ :=
  c.callerIds.foldl (fun c i => settle program i c) c

def isWaiting (c : Callers σ) (i : Nat) : Bool :=
  match c.phase? i with
  | some (.reloading _ _ _ _ (.waiting _)) | some (.requesting _ _ _ (.waiting _)) => true
  | _ => false

/-- Time passes for the caller that has waited longest for an answer. -/
def passTime (c : Callers σ) : Callers σ :=
  match c.callerIds.find? c.isWaiting with
  | some i => settleAll program ((step? program false i c).getD c)
  | none => c

def result? (c : Callers σ) (i : Nat) : Option (Except Failure Value) :=
  match c.phase? i with
  | some (.finished r) => some r
  | _ => none

/-- Waits for the end of an operation; each wait for an answer lasts its time. -/
def join (i : Nat) : (fuel : Nat) → Callers σ → Callers σ
  | 0, c => c
  | fuel + 1, c =>
    let c := settleAll program c
    match c.result? i with
    | some _ => c
    | none => join i fuel (passTime program c)

/-- Enough waits for all callers to come to their ends. -/
def waitBound (c : Callers σ) : Nat :=
  (c.phases.length + 1) * (c.session.loadedAssemblies.length + 2)

/-- A caller's whole operation, whatever the others wait for. -/
def perform (i : Nat) (op : Operation) (c : Callers σ) : Callers σ :=
  join program i c.waitBound (c.begin i op)

/-- Whether some caller has not come to its end. -/
def isBusy (c : Callers σ) : Bool := c.callerIds.any fun i => (c.result? i).isNone

end Steps

end Callers

end AssemblyBrowser
