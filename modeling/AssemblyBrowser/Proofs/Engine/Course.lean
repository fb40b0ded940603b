import AssemblyBrowser.Proofs.Engine.Run
/-!
The moments of a session's operations: the sessions that an operation passes through while it is
carried out. An attempt is watched by pairing it with its moments; watched attempts are put together
as the attempts are, so what is watched is what is run.

The course of an operation is orderly if the state of the session changes along the edges of its
state machine only, and if the session is at rest when the operation has ended.
-/
namespace AssemblyBrowser

/-- The ways in which the state of a session is meant to change. -/
inductive SessionState.Edge : SessionState → SessionState → Prop
  | launch : Edge .stopped .starting
  | run : Edge .starting .running
  | fail : Edge .starting .stopped
  | halt : Edge .running .stopping
  | crash : Edge .running .crashed
  | clear : Edge .crashed .stopping
  | stop : Edge .stopping .stopped

/-- From one moment to the next a state stays or goes along an edge. -/
def SessionState.Next (a b : SessionState) : Prop := b = a ∨ a.Edge b

theorem SessionState.Next.refl (a : SessionState) : a.Next a := .inl rfl

namespace Session

variable {σ α β : Type}

/-- What a session is between operations. -/
structure AtRest (s : Session σ) : Prop where
  state : s.state = .stopped ∨ s.state = .running ∨ s.state = .crashed
  stopped : s.state = .stopped → s.link.installed = none ∧ s.supervisor.held = none
  running : s.state = .running → ∃ c, s.link.installed? = some c ∧ c.generation = s.generation

/-- Moments that lead from one session to another, which is the last of them. -/
inductive Course : Session σ → List (Session σ) → Session σ → Prop
  | nil (s : Session σ) : Course s [] s
  | cons {s m t : Session σ} {ms : List (Session σ)} :
    s.state.Next m.state → Course m ms t → Course s (m :: ms) t

namespace Course

variable {s t u : Session σ} {ms ms' : List (Session σ)}

theorem one (h : s.state.Next t.state) : Course s [t] t := .cons h (.nil t)

theorem append (h : Course s ms t) (h' : Course t ms' u) : Course s (ms ++ ms') u := by
  induction h with
  | nil s => exact h'
  | cons hn _ ih => exact .cons hn (ih h')

/-- Moments in which the state stays the same. -/
theorem of_same (hs : ∀ m ∈ ms, m.state = s.state) (hl : ms.getLast? = some t) :
    Course s ms t := by
  induction ms generalizing s with
  | nil => cases hl
  | cons m ms ih =>
    have hm := hs m List.mem_cons_self
    refine .cons (.inl hm) ?_
    cases ms with
    | nil =>
      cases hl
      exact .nil m
    | cons m' ms =>
      refine ih (fun n hn => (hs n (List.mem_cons_of_mem _ hn)).trans hm.symm) ?_
      rw [List.getLast?_cons_cons] at hl
      exact hl

end Course

/-! ## Watched attempts -/

/-- An attempt with the moments that it passes through. -/
structure Watched (σ α : Type) where
  attempt : Attempt (Session σ) α
  moments : Session σ → List (Session σ)

namespace Watched

/-- What is done in one go has one moment, its end. -/
def once (a : Attempt (Session σ) α) : Watched σ α := ⟨a, fun s => [(a.runFrom s).2]⟩

def bind (a : Watched σ α) (f : α → Watched σ β) : Watched σ β where
  attempt := a.attempt >>= fun v => (f v).attempt
  moments s := a.moments s ++
    match a.attempt.runFrom s with
    | (.ok v, t) => (f v).moments t
    | (.error _, _) => []

def map (f : α → β) (a : Watched σ α) : Watched σ β := ⟨f <$> a.attempt, a.moments⟩

def outcome (a : Watched σ α) : Watched σ (Except Failure α) := ⟨a.attempt.outcome, a.moments⟩

/-- The session in which a traced operation begins. -/
def called (op : TracedOperation) (arguments : List String) (s : Session σ) : Session σ :=
  { s with trace := s.trace.map (· ++ [.call op arguments]) }

def traced (op : TracedOperation) (arguments : List String) (shown : α → String)
    (a : Watched σ α) : Watched σ α where
  attempt := Session.traced op arguments shown a.attempt
  moments s := called op arguments s :: a.moments (called op arguments s) ++
    [((Session.traced op arguments shown a.attempt).runFrom s).2]

theorem traced_called (op : TracedOperation) (arguments : List String) (shown : α → String)
    (a : Attempt (Session σ) α) (s : Session σ) : ∃ trace,
      (Session.traced op arguments shown a).runFrom s =
        ((a.runFrom (called op arguments s)).1,
          { (a.runFrom (called op arguments s)).2 with trace }) := by
  simp only [Attempt.runFrom, ExceptT.run, Session.traced, called]
  split
  · rename_i hr
    exact ⟨_, by rw [hr]⟩
  · rename_i hr
    exact ⟨_, by rw [hr]⟩

/-! ## The moments of each operation -/

def teardownMoments (reason : String) (s : Session σ) : List (Session σ) :=
  let s := s.closeChannel reason
  if s.state = .stopped && !s.supervisor.isRunning then [s]
  else
    let t := s.setState .stopping
    s :: t :: ((Supervisor.stopMoments Link.listener t.supervisor).map fun supervisor =>
      { t with supervisor }) ++ [s.haltEngine]

def teardown (reason : String) : Watched σ Unit :=
  ⟨fun s => (.ok (), s.teardown reason), teardownMoments reason⟩

/-- A channel is installed before the session counts as running. -/
def settleLaunchMoments (r : Except Failure Nat) (s : Session σ) : List (Session σ) :=
  match r with
  | .ok g =>
    [s.mapLink (·.install { generation := g, timeout := s.settings.requestTimeout }),
      (settleLaunch r s).2]
  | .error _ => [(settleLaunch r s).2]

/-- The session in which a new engine is started. -/
def readied (s : Session σ) : Session σ := (s.teardown "engine restarting").setState .starting

section

variable (program : Program σ)

def launchMoments (s : Session σ) : List (Session σ) :=
  let t := readied s
  let r := (Supervisor.start program Link.listener).runFrom t.supervisor
  teardownMoments "engine restarting" s ++ t ::
    ((Supervisor.HandleStep.start.moments program Link.listener t.supervisor).map fun supervisor =>
      { t with supervisor }) ++ settleLaunchMoments r.1 { t with supervisor := r.2 }

def launch : Watched σ Channel := ⟨Session.launch program, launchMoments program⟩

def postMoments (g : Nat) (command : Command) (arguments : Fields) (s : Session σ) :
    List (Session σ) :=
  match s.refusal? g command, s.link.channel? g with
  | none, some c =>
    let t := s.enlist g c command arguments
    let line := Request.encode ⟨c.nextId, command, arguments⟩
    t :: ((Supervisor.HandleStep.send g line).moments program Link.listener t.supervisor).map
      (fun supervisor => { t with supervisor }) ++
        [((Session.post program g command arguments).runFrom s).2]
  | _, _ => [s]

def post (g : Nat) (command : Command) (arguments : Fields) : Watched σ Nat :=
  ⟨Session.post program g command arguments, postMoments program g command arguments⟩

def send (g : Nat) (command : Command) (arguments : Fields) : Watched σ Answer :=
  (post program g command arguments).bind fun id => once (collect g id command)

def settleReload (path : String) (r : Except Failure Answer) : Watched σ Unit where
  attempt := Session.settleReload path r
  moments s :=
    match r with
    | .error (.engine _) => teardownMoments reloadFailed s
    | _ => [(Session.settleReload path r s).2]

def reload (g : Nat) : List String → Watched σ Unit
  | [] => once fun s => (.ok (), s)
  | path :: rest =>
    (send program g .load (loadArguments path)).outcome.bind fun r =>
      (settleReload path r).bind fun _ => reload g rest

def relaunch : Watched σ Unit :=
  (launch program).bind fun c => (once get).bind fun s =>
    reload program c.generation s.loadedAssemblies

def ensureRunning : Watched σ Unit :=
  traced .ensureRunning [] noValue ((once runningNow).bind fun running =>
    if running then once (pure ()) else relaunch program)

def giveUp (g : Nat) (r : Except Failure Answer) : Watched σ Answer where
  attempt := Session.giveUp g r
  moments s :=
    match r with
    | .error (.engine (.timeout ..)) =>
      if s.link.installed = some g then teardownMoments timedOutReason s else [s]
    | _ => [s]

def request (command : Command) (arguments : Fields) : Watched σ Answer :=
  (ensureRunning program).bind fun _ => (once get).bind fun s =>
    match s.link.installed with
    | none => once (Attempt.fail (stoppedEarly command))
    | some g => (send program g command arguments).outcome.bind fun r => giveUp g r

def load (path : String) : Watched σ Member :=
  traced .load [Text.quoted path] Member.display
    ((request program .load (loadArguments path)).bind fun answer => once do
      let m ← Attempt.ofExcept (loadResult path answer)
      modify (·.remember path m)
      return m)

/-- An operation, watched. -/
def operation : Operation → Watched σ Value
  | .ensureRunning => (ensureRunning program).map fun _ => .nothing
  | .restart => (traced .restart [] noValue (relaunch program)).map fun _ => .nothing
  | .stop => (traced .stop [] noValue (teardown "engine stopped")).map fun _ => .nothing
  | .load path => (load program path).map .member
  | .children key assembly =>
    (traced .children (Text.quoted key :: assembly.toList.map Text.quoted) displayMembers
      ((request program .enumerate (memberArguments key assembly)).bind fun answer =>
        once (Attempt.ofExcept (childrenResult key answer)))).map .members
  | .decompile key language assembly =>
    (traced .decompile (decompileArguments key language assembly) Text.quoted
      ((once (Attempt.ofExcept (languageOf language))).bind fun l =>
        (request program .decompile
          (memberArguments key assembly ++ [("language", .text l.name)])).bind fun answer =>
            once (Attempt.ofExcept (codeResult key answer)))).map .code

/-! ## What is watched is what is run -/

theorem reload_attempt (g : Nat) (paths : List String) :
    (reload program g paths).attempt = Session.reload program g paths := by
  induction paths with
  | nil => rfl
  | cons path rest ih =>
    simp only [reload, bind, outcome, Session.reload, ih]
    rfl

theorem relaunch_attempt : (relaunch program).attempt = Session.relaunch program := by
  simp only [relaunch, bind, reload_attempt]
  rfl

theorem ensureRunning_attempt :
    (ensureRunning program).attempt = Session.ensureRunning program := by
  have hbranch : ∀ running : Bool,
      (if running then once (pure ()) else relaunch program).attempt =
        if running then pure () else Session.relaunch program := by
    intro running
    cases running with
    | true => rfl
    | false => exact relaunch_attempt program
  simp only [ensureRunning, traced, bind, hbranch]
  rfl

theorem request_attempt (command : Command) (arguments : Fields) :
    (request program command arguments).attempt = Session.request program command arguments := by
  simp only [request, bind, ensureRunning_attempt, Session.request]
  refine congrArg _ (funext fun _ => congrArg _ (funext fun s => ?_))
  cases s.link.installed <;> rfl

theorem operation_attempt (op : Operation) : (operation program op).attempt = op.run program := by
  cases op with
  | ensureRunning => simp only [operation, map, ensureRunning_attempt, Operation.run]
  | restart =>
    simp only [operation, map, traced, relaunch_attempt, Operation.run]
    rfl
  | stop => rfl
  | load path =>
    simp only [operation, map, load, traced, bind, request_attempt, Operation.run]
    rfl
  | children key assembly =>
    simp only [operation, map, traced, bind, request_attempt, Operation.run]
    rfl
  | decompile key language assembly =>
    simp only [operation, map, traced, bind, request_attempt, Operation.run]
    rfl

end

end Watched

end Session

end AssemblyBrowser
