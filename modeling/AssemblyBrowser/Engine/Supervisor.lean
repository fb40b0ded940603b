import AssemblyBrowser.Attempt
/-!
Supervising the engine's process. A supervisor holds at most one child process; each child it
creates is a new generation. What children print and how they end is reported, with the generation,
to the owner.

The world outside is a `Program`, which decides how each attempt to start a child goes and how a
child reacts to a line. Output is consumed as soon as it is printed, so a wait for a line that is
not there is in vain.
-/
namespace AssemblyBrowser

/-- What a child does. -/
inductive Act
  | print (line : String)
  | closeOutput
  | exit (code : Int)
deriving DecidableEq, Repr

/-- How a child takes an attempt to end it. -/
inductive Resistance
  | none
  | ignores
  /-- The attempt itself is an error. -/
  | refuses
deriving DecidableEq, Repr

structure Temper where
  terminate : Resistance := .none
  kill : Resistance := .none
deriving DecidableEq, Repr

inductive Launch
  | failed (e : SystemError)
  | started (temper : Temper) (acts : List Act)
deriving DecidableEq, Repr

/-- What a line written to a child leads to, and the text of the error of writing, if any. -/
structure Reaction where
  acts : List Act
  error : Option String
deriving DecidableEq, Repr

/-- The behaviour of children, as far as it depends on what has happened. -/
structure Program (σ : Type) where
  launch : σ → Launch × σ
  react : σ → (child : Nat) → (line : String) → Reaction × σ

/-- What an owner does with reports: a line, which it may be unable to read, and the end of output
with the exit code of a child that has ended. -/
structure Listener (ρ : Type) where
  heard : ρ → (generation : Nat) → (line : String) → Option ρ
  ended : ρ → (generation : Nat) → (exitCode : Option Int) → ρ

structure Child where
  /-- The number of the attempt that started the child. -/
  number : Nat
  temper : Temper
  exitCode : Option Int := none
  /-- The first line that is not blank. -/
  greeting : Option String := none
  /-- Whether its output is still read. -/
  reading : Bool := true
deriving DecidableEq, Repr

/-- What is done to processes from outside. -/
inductive ProcessEvent
  | spawn (command : List String) (environment : OrderedMap String String)
  | write (generation : Nat) (line : String)
  | closeInput (generation : Nat)
  | terminate (generation : Nat)
  | kill (generation : Nat)
deriving DecidableEq

structure ProcessOptions where
  command : Option (List String)
  startupTimeout : Number
  /-- All variables of the children. -/
  environment : OrderedMap String String
deriving DecidableEq

structure Supervisor (σ ρ : Type) where
  options : ProcessOptions
  program : σ
  owner : ρ
  /-- The children created so far, one a generation. -/
  children : List Child := []
  /-- The generation of the child that is held. -/
  held : Option Nat := none
  /-- The latest generation whose output has ended. -/
  endedGeneration : Nat := 0
  attempts : Nat := 0
  log : List ProcessEvent := []

namespace Child

def isAlive (c : Child) : Bool := c.exitCode.isNone

/-- The process number. -/
def pid (c : Child) : Nat := 1000 + c.number

end Child

namespace Supervisor

variable {σ ρ : Type}

def generation (s : Supervisor σ ρ) : Nat := s.children.length

def child? (s : Supervisor σ ρ) (g : Nat) : Option Child :=
  if g = 0 then none else s.children[g - 1]?

def setChild (s : Supervisor σ ρ) (g : Nat) (c : Child) : Supervisor σ ρ :=
  { s with children := s.children.set (g - 1) c }

def record (s : Supervisor σ ρ) (e : ProcessEvent) : Supervisor σ ρ :=
  { s with log := s.log ++ [e] }

def heldChild? (s : Supervisor σ ρ) : Option Child := s.held.bind s.child?

def pid? (s : Supervisor σ ρ) : Option Nat := s.heldChild?.map Child.pid

/-- Whether the child that is held lives and its output is open. -/
def isRunning (s : Supervisor σ ρ) : Bool :=
  match s.heldChild? with
  | none => false
  | some c => s.endedGeneration ≠ s.generation && c.isAlive

/-! ## What children do -/

section Children

variable (listener : Listener ρ)

/-- The reader comes to the end of the output, or gives up, and reports the end. -/
def endOutput (s : Supervisor σ ρ) (g : Nat) (c : Child) : Supervisor σ ρ :=
  let s := s.setChild g { c with reading := false }
  { s with
    endedGeneration := max s.endedGeneration g
    owner := listener.ended s.owner g c.exitCode }

/-- A line is read: blank lines are skipped, the first other line is the greeting, and all later
ones are reported. -/
def hear (s : Supervisor σ ρ) (g : Nat) (c : Child) (line : String) : Supervisor σ ρ :=
  let line := Text.trim line
  if line = "" then s
  else match c.greeting with
    | none => s.setChild g { c with greeting := some line }
    | some _ =>
      match listener.heard s.owner g line with
      | some owner => { s with owner }
      | none => s.endOutput listener g c

def act (g : Nat) (s : Supervisor σ ρ) (a : Act) : Supervisor σ ρ :=
  match s.child? g with
  | none => s
  | some c =>
    match a with
    | .print line => if c.reading then s.hear listener g c line else s
    | .closeOutput => if c.reading then s.endOutput listener g c else s
    | .exit code =>
      let c := { c with exitCode := c.exitCode.or (some code) }
      if c.reading then s.endOutput listener g c else s.setChild g c

def acts (s : Supervisor σ ρ) (g : Nat) (as : List Act) : Supervisor σ ρ :=
  as.foldl (act listener g) s

/-! ## Ending children -/

/-- Exit codes of children that are terminated and killed. -/
def terminateCode : Int := -15
def killCode : Int := -9

def resist (r : Resistance) (g : Nat) (code : Int) (s : Supervisor σ ρ) : Supervisor σ ρ :=
  match r with
  | .none => s.act listener g (.exit code)
  | .ignores | .refuses => s

/-- Kills a child and lets errors pass. -/
def kill (s : Supervisor σ ρ) (g : Nat) : Supervisor σ ρ :=
  match s.child? g with
  | none => s
  | some c => (s.record (.kill g)).resist listener c.temper.kill g killCode

/-- Ends a live child: its input is closed, which may fail without further effect, it is terminated and,
if that does not end it, killed. A child that cannot even be told to terminate is left alone. -/
def shutDown (s : Supervisor σ ρ) (g : Nat) (c : Child) : Supervisor σ ρ :=
  let s := (s.record (.closeInput g)).record (.terminate g)
  if c.temper.terminate = .refuses then s
  else
    let s := s.resist listener c.temper.terminate g terminateCode
    match s.child? g with
    | some c => if c.isAlive then s.kill listener g else s
    | none => s

/-- Lets go of the child and ends it. -/
def stop (s : Supervisor σ ρ) : Supervisor σ ρ :=
  match s.held with
  | none => s
  | some g =>
    let s := { s with held := none }
    match s.child? g with
    | none => s
    | some c => if c.isAlive then s.shutDown listener g c else s

end Children

/-! ## Starting -/

section Starting

variable (program : Program σ) (listener : Listener ρ)

/-- The event that a child must greet with. -/
def readyEvent : String := "ready"

/-- As much of a greeting is shown. -/
def greetingLimit : Nat := 120

def exitText : Option Int → String
  | some code => toString code
  | none => "None"

def startupError (s : Supervisor σ ρ) (reason : String) (exitCode : Option Int) : Failure :=
  .engine (.startup s.options.command reason exitCode)

/-- What is wrong with a greeting. -/
inductive GreetingFault
  | invalid (e : ProtocolError)
  | unexpected
  | hugeInteger (digits : Nat)
deriving DecidableEq, Repr

def greetingFault? (line : String) : Option GreetingFault :=
  match decodeLine line with
  | .error (.hugeInteger digits) => some (.hugeInteger digits)
  | .error (.protocol e) => some (.invalid e)
  | .ok message =>
    if Assoc.find? "event" message = some (.text readyEvent) then none else some .unexpected

/-- Looks at the greeting of a new child, which is held if it is the expected one. -/
def greet (s : Supervisor σ ρ) (g : Nat) (c : Child) : Except Failure Nat × Supervisor σ ρ :=
  match c.greeting with
  | none =>
    if c.reading then
      match s.options.startupTimeout.wait with
      | .error e => (.error (.seconds e), s)
      | .ok () =>
        (.error (s.startupError ("Engine did not report ready within " ++
          s.options.startupTimeout.text ++ "s") none), s.kill listener g)
    else
      (.error (s.startupError ("Engine exited before reporting ready (exit code " ++
        exitText c.exitCode ++ ")") c.exitCode), s)
  | some line =>
    match greetingFault? line with
    | none => (.ok g, { s with held := some g })
    | some (.hugeInteger digits) => (.error (.hugeInteger digits), s)
    | some (.invalid e) =>
      (.error (s.startupError ("Invalid handshake line: " ++ e.message) none), s.kill listener g)
    | some .unexpected =>
      (.error (s.startupError ("Unexpected handshake: " ++ (line.take greetingLimit).toString)
        none), s.kill listener g)

/-- Creates a child and waits for its greeting. -/
def spawn (s : Supervisor σ ρ) : Except Failure Nat × Supervisor σ ρ :=
  match s.options.command with
  | none | some [] =>
    (.error (.engine (.startup none "No decompiler engine executable was found" none)), s)
  | some (word :: words) =>
    let s := s.record (.spawn (word :: words) s.options.environment)
    let (launch, state) := program.launch s.program
    let s := { s with program := state, attempts := s.attempts + 1 }
    match launch with
    | .failed e => (.error (s.startupError ("Cannot execute engine: " ++ e.message) none), s)
    | .started temper printed =>
      let child : Child := { number := s.attempts, temper }
      let s := { s with children := s.children ++ [child] }
      let g := s.generation
      let s := s.acts listener g printed
      match s.child? g with
      | some c => s.greet listener g c
      | none => (.ok g, s)

/-- Starts a child unless one is running. -/
def start : Attempt (Supervisor σ ρ) Nat := fun s =>
  if s.isRunning then (.ok s.generation, s) else (s.stop listener).spawn program listener

def restart : Attempt (Supervisor σ ρ) Nat := fun s => (s.stop listener).spawn program listener

/-- Writes a line to the child of a generation, which reacts at once. -/
def sendLine (g : Nat) (line : String) : Attempt (Supervisor σ ρ) Unit := fun s =>
  if s.held.isNone || g ≠ s.generation || !s.isRunning then
    (.error (.engine (.unavailable "send" (some "engine process is not running") (some g))), s)
  else
    let s := s.record (.write g line)
    let (reaction, state) := program.react s.program g line
    let s := ({ s with program := state } : Supervisor σ ρ).acts listener g reaction.acts
    match reaction.error with
    | none => (.ok (), s)
    | some text =>
      (.error (.engine (.unavailable "send" (some ("engine pipe closed: " ++ text)) (some g))), s)

end Starting

/-- A child of its own accord does something. -/
def happen (listener : Listener ρ) (s : Supervisor σ ρ) (g : Nat) (as : List Act) :
    Supervisor σ ρ :=
  s.acts listener g as

/-- The generation of the child that an attempt started. -/
def generationOf? (s : Supervisor σ ρ) (number : Nat) : Option Nat :=
  (s.children.findIdx? fun c => c.number = number).map (· + 1)

end Supervisor

end AssemblyBrowser
