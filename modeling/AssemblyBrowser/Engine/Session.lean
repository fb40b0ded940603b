import AssemblyBrowser.Engine.Link
import AssemblyBrowser.Engine.Settings
import AssemblyBrowser.Engine.Trace
/-!
Sessions with the engine. A session starts the engine when it is first needed and again after it has
gone, loads the assemblies it held into a new one, and sends it requests, one at a time. A request
that fails is never repeated.
-/
namespace AssemblyBrowser

structure Session (σ : Type) where
  settings : EngineSettings
  locator : Option Locator
  supervisor : Supervisor σ Link
  /-- The trace, if there is one. -/
  trace : Option (List TraceRecord) := none

namespace Session

variable {σ : Type}

/-- A session whose engine has not been started. `environment` is that of the program itself. -/
def new (settings : EngineSettings) (locator : Option Locator)
    (environment : OrderedMap String String) (program : σ) (traced : Bool) : Session σ where
  settings
  locator
  supervisor :=
    { options := ⟨settings.command, settings.startupTimeout,
        environment.putAll settings.environment.entries⟩
      program
      owner := {} }
  trace := if traced then some [.begun] else none

def link (s : Session σ) : Link := s.supervisor.owner

def state (s : Session σ) : SessionState := s.link.state

def generation (s : Session σ) : Nat := s.supervisor.generation

/-- The assemblies that are remembered, in the order in which they were loaded. -/
def loadedAssemblies (s : Session σ) : List String := s.link.loaded.keys

def mapLink (s : Session σ) (f : Link → Link) : Session σ :=
  { s with supervisor := { s.supervisor with owner := f s.supervisor.owner } }

def setState (s : Session σ) (state : SessionState) : Session σ := s.mapLink ({ · with state })

def onSupervisor {α : Type} (a : Attempt (Supervisor σ Link) α) : Attempt (Session σ) α :=
  Attempt.within supervisor (fun supervisor s => { s with supervisor }) a

/-- Traces an operation. -/
def traced {α : Type} (op : TracedOperation) (arguments : List String) (shown : α → String)
    (a : Attempt (Session σ) α) : Attempt (Session σ) α := fun s =>
  let note (r : TraceRecord) (s : Session σ) : Session σ :=
    { s with trace := s.trace.map (· ++ [r]) }
  let (r, s) := a.runFrom (note (.call op arguments) s)
  match r with
  | .ok v => (.ok v, note (.ok op (shown v)) s)
  | .error f => (.error f, note (.fail op f) s)

/-- How the absence of a value is shown. -/
def noValue {α : Type} (_ : α) : String := "None"

/-! ## The life of the engine -/

/-- Whether requests can be sent. An engine found to have gone is marked as crashed. -/
def isRunning (s : Session σ) : Bool × Session σ :=
  match s.link.installed? with
  | none => (false, s)
  | some c =>
    if s.state ≠ .running || c.isClosed then (false, s)
    else if s.supervisor.isRunning then (true, s)
    else (false, s.mapLink fun l => l.markCrashed s.generation none)

/-- Takes the channel away, closed for a reason, and stops the engine if there is one. -/
def teardown (reason : String) (s : Session σ) : Session σ :=
  let s := match s.link.installed with
    | some g => s.mapLink fun l => ({ l with installed := none } : Link).update g (·.close reason)
    | none => s
  if s.state = .stopped && !s.supervisor.isRunning then s
  else
    let s := s.setState .stopping
    let s := { s with supervisor := s.supervisor.stop Link.listener }
    s.setState .stopped

section Requests

variable (program : Program σ)

/-- Starts a new engine, in place of any other, and installs its channel. -/
def launch : Attempt (Session σ) Channel := fun s =>
  let s := (s.teardown "engine restarting").setState .starting
  match (onSupervisor (Supervisor.start program Link.listener)).runFrom s with
  | (.error (.engine e), s) => (.error (.engine e), s.setState .stopped)
  | (.error f, s) => (.error f, s)
  | (.ok g, s) =>
    let c : Channel := { generation := g, timeout := s.settings.requestTimeout }
    (.ok c, (s.mapLink (·.install c)).setState .running)

/-- The refusal of a request by the channel of a generation. -/
def refusal? (s : Session σ) (g : Nat) (command : Command) : Option EngineError :=
  (s.link.channel? g).bind fun c => c.refusal? command s.generation s.supervisor.isRunning

/-- Registers a request with the channel of a generation and writes it. -/
def post (g : Nat) (command : Command) (arguments : Fields) : Attempt (Session σ) Nat := fun s =>
  match s.refusal? g command, s.link.channel? g with
  | some e, _ => (.error (.engine e), s)
  | none, none => (.error (.engine (.unavailable command.name none (some g))), s)
  | none, some c =>
    let (request, c) := c.register command arguments
    let id := request.id.toNat
    let s := s.mapLink fun l => l.update g fun _ => c
    match (onSupervisor (Supervisor.sendLine program Link.listener g request.encode)).runFrom s with
    | (.error f, s) => (.error f, s.mapLink fun l => l.update g (·.forget id))
    | (.ok (), s) => (.ok id, s)

/-- What the sender of a request gets when it waits no longer. -/
def collect (g id : Nat) (command : Command) : Attempt (Session σ) Answer := fun s =>
  match s.link.channel? g with
  | none => (.error (.engine (.unavailable command.name none (some g))), s)
  | some c =>
    ((c.await id command c.timeout).map (·.answer), s.mapLink fun l => l.update g (·.forget id))

/-- Sends a request and waits for its answer. -/
def send (g : Nat) (command : Command) (arguments : Fields) : Attempt (Session σ) Answer := do
  let id ← post program g command arguments
  collect g id command

def loadArguments (path : String) : Fields := [("path", .text path)]

def reloadFailed : String := "engine failed while reloading assemblies"

/-- What the answer to loading an assembly again leads to: one that is rejected is forgotten, and an
engine that fails is stopped. -/
def settleReload (path : String) (r : Except Failure Answer) (s : Session σ) :
    Except Failure Unit × Session σ :=
  match r with
  | .ok (.success _) => (.ok (), s)
  | .ok (.failure ..) => (.ok (), s.mapLink fun l => { l with loaded := l.loaded.erase path })
  | .error (.engine e) => (.error (.engine e), s.teardown reloadFailed)
  | .error f => (.error f, s)

/-- Loads assemblies again, one after another. -/
def reload (g : Nat) : List String → Attempt (Session σ) Unit
  | [] => fun s => (.ok (), s)
  | path :: rest => do
    let r ← (send program g .load (loadArguments path)).outcome
    (settleReload path r : Attempt (Session σ) Unit)
    reload g rest

/-- Starts a new engine and loads into it what the session remembers. -/
def relaunch : Attempt (Session σ) Unit := do
  let c ← launch program
  reload program c.generation (← get).loadedAssemblies

def runningNow : Attempt (Session σ) Bool := fun s =>
  let (running, s) := s.isRunning
  (.ok running, s)

def ensureRunning : Attempt (Session σ) Unit :=
  traced .ensureRunning [] noValue do
    if ← runningNow then return ()
    else relaunch program

def restart : Attempt (Session σ) Unit := traced .restart [] noValue (relaunch program)

/-- Stops the engine; this cannot fail. -/
def stop : Attempt (Session σ) Unit :=
  traced .stop [] noValue fun s => (.ok (), s.teardown "engine stopped")

/-! ## Requests -/

def stoppedEarly (command : Command) : Failure :=
  .engine (.unavailable command.name (some "engine stopped before the request was sent") none)

def timedOutReason : String := "engine timed out"

/-- An engine that did not answer in time is stopped, unless there is another one by now. -/
def giveUp (g : Nat) (r : Except Failure Answer) (s : Session σ) :
    Except Failure Answer × Session σ :=
  match r with
  | .error (.engine (.timeout ..)) =>
    (r, if s.link.installed = some g then s.teardown timedOutReason else s)
  | _ => (r, s)

def request (command : Command) (arguments : Fields) : Attempt (Session σ) Answer := do
  ensureRunning program
  match (← get).link.installed with
  | none => Attempt.fail (stoppedEarly command)
  | some g =>
    let r ← (send program g command arguments).outcome
    giveUp g r

/-- What an operation on a member sends. -/
def memberArguments (key : String) (assembly : Option String) : Fields :=
  ("key", .text key) :: match assembly with
    | some path => [("assembly", .text path)]
    | none => []

/-- Reads the body of a success; what does not follow the protocol is malformed. -/
def readBody {α : Type} (command : Command) (read : Fields → Except ProtocolError α)
    (failed : String → Option String → EngineError) : Answer → Except Failure α
  | .success body =>
    (read body).mapError fun e => .engine (.malformed command.name e.message none)
  | .failure code message => .error (.engine (failed message code))

def loadResult (path : String) : Answer → Except Failure Member :=
  readBody .load Member.ofLoadBody fun message code => .load path message code

def remember (path : String) (m : Member) (s : Session σ) : Session σ :=
  s.mapLink fun l => { l with loaded := l.loaded.put path m }

/-- Loads an assembly, which is remembered if the engine accepts it. -/
def load (path : String) : Attempt (Session σ) Member :=
  traced .load [Text.quoted path] Member.display do
    let answer ← request program .load (loadArguments path)
    let m ← Attempt.ofExcept (loadResult path answer)
    modify (·.remember path m)
    return m

/-- Forgets an assembly, so that it is not loaded again. -/
def unload (path : String) (s : Session σ) : Session σ :=
  s.mapLink fun l => { l with loaded := l.loaded.erase path }

def childrenResult (key : String) : Answer → Except Failure (List Member) :=
  readBody .enumerate Member.listOfBody fun message code =>
    .decompile key Command.enumerate.name message code

def displayMembers (ms : List Member) : String :=
  "[" ++ ", ".intercalate (ms.map (·.display)) ++ "]"

/-- The children of a member, in order. -/
def children (key : String) (assembly : Option String) : Attempt (Session σ) (List Member) :=
  traced .children (Text.quoted key :: assembly.toList.map Text.quoted) displayMembers do
    let answer ← request program .enumerate (memberArguments key assembly)
    Attempt.ofExcept (childrenResult key answer)

def codeResult (key : String) : Answer → Except Failure String :=
  readBody .decompile Member.codeOfBody fun message code =>
    .decompile key Command.decompile.name message code

/-- How the arguments of a decompilation are shown. -/
def decompileArguments (key : String) (language : Option Json) (assembly : Option String) :
    List String :=
  Text.quoted key :: (language.toList.map fun l => "language=" ++ l.display) ++
    (assembly.toList.map fun a => "assembly=" ++ Text.quoted a)

/-- The language that a value names, C# if there is none. -/
def languageOf : Option Json → Except Failure Language
  | none => .ok .csharp
  | some v => (Language.parse v.plain).mapError .language

/-- The text of a member in a language. -/
def decompile (key : String) (language : Option Json) (assembly : Option String) :
    Attempt (Session σ) String :=
  traced .decompile (decompileArguments key language assembly) Text.quoted do
    let l ← Attempt.ofExcept (languageOf language)
    let answer ← request program .decompile
      (memberArguments key assembly ++ [("language", .text l.name)])
    Attempt.ofExcept (codeResult key answer)

end Requests

/-! ## Diagnostics -/

def commandJson : Option (List String) → Json
  | some words => .texts words
  | none => .null

/-- Facts about the installation, if the session knows where to look. -/
def installation (m : Machine) : Attempt (Session σ) Fields := fun s =>
  match s.locator with
  | none => (.ok [], s)
  | some l =>
    let (r, l) := (Locator.diagnose m).runFrom l
    (r, { s with locator := some l })

/-- Facts about the session, for a person to look at; those about the installation take the place of
what the settings say. -/
def diagnose (m : Machine) : Attempt (Session σ) Fields := do
  let found ← installation m
  let state := (← get).state
  let running ← runningNow
  let s ← get
  let facts : Fields :=
    [("platform", .text m.platform), ("engine_command", commandJson s.settings.command),
     ("engine_found", .bool s.settings.command.isSome)]
  let facts := found.foldl (fun facts (key, v) => Assoc.put key v facts) facts
  return facts ++
    [("state", .text state.name), ("running", .bool running),
     ("pid", .ofInteger? (s.supervisor.pid?.map Int.ofNat)), ("generation", .integer s.generation),
     ("language", .text s.settings.language.name),
     ("request_timeout", .number s.settings.requestTimeout),
     ("loaded_assemblies", .texts s.loadedAssemblies)]

end Session

end AssemblyBrowser
