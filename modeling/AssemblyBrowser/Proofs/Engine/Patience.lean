import AssemblyBrowser.Proofs.Engine.Overtaking
import AssemblyBrowser.Proofs.Engine.Settings
import AssemblyBrowser.Proofs.Engine.Tracing
import AssemblyBrowser.Proofs.Engine.Upshot
import AssemblyBrowser.Proofs.Number.Wait
/-!
How long the settings let a session wait, and what it comes to if it waits in vain. Main statement: a time
in the settings is a finite number that is not negative unless its text says another number; and a request
without an answer fails with an error of time, and the engine is stopped, exactly if the time for requests
can be waited for and has a whole number of milliseconds.
-/
namespace AssemblyBrowser

/-! ## Times -/

namespace Number

/-- A finite number of seconds that is not negative. -/
def IsDuration : Number → Prop
  | .integer n => 0 ≤ n
  | .real x => x.IsDuration

/-- There is a finite number of milliseconds in so many seconds. -/
def HasMilliseconds : Number → Prop
  | .integer _ => True
  | .real x => ∃ negative mantissa exponent, x.timesNat 1000 = .finite negative mantissa exponent

theorem hasMilliseconds_iff (x : Number) : (∃ ms, x.milliseconds = .ok ms) ↔ x.HasMilliseconds := by
  cases x with
  | integer n => exact iff_of_true ⟨_, rfl⟩ trivial
  | real x => exact milliseconds_defined_iff x

theorem isUsable_iff (x : Number) : x.IsUsable ↔ x.wait = .ok () ∧ x.HasMilliseconds :=
  and_congr_right fun _ => x.hasMilliseconds_iff

/-- Of the times that are durations only those cannot be used that are too long for the clock. -/
theorem IsDuration.isUsable_iff {x : Number} (h : x.IsDuration) : x.IsUsable ↔ x.wait = .ok () := by
  refine ⟨And.left, fun hwait => ⟨hwait, ?_⟩⟩
  cases x with
  | integer n => exact ⟨_, rfl⟩
  | real x => exact milliseconds_of_wait h hwait

end Number

theorem EngineError.timedOut_defined_iff (operation : String) (x : Number) :
    (∃ e, timedOut operation x = .ok e) ↔ x.HasMilliseconds := by
  rw [← x.hasMilliseconds_iff, timedOut]
  cases x.milliseconds <;> simp [Except.map]

namespace Command

/-- Whether a wait in vain ends in an error of the engine is a matter of the time alone. -/
theorem unanswered_cases (command : Command) (x : Number) :
    (x.IsUsable ∧ ∃ ms, command.unanswered x = .engine (.timeout command.name x ms)) ∨
      (¬x.IsUsable ∧ ∃ e, command.unanswered x = .seconds e) := by
  rw [unanswered, EngineError.timedOut, Number.IsUsable]
  cases x.wait with
  | error e => exact .inr ⟨by simp, e, rfl⟩
  | ok _ =>
    cases x.milliseconds with
    | error e => exact .inr ⟨by simp, e, rfl⟩
    | ok ms => exact .inl ⟨⟨rfl, ms, rfl⟩, ms, rfl⟩

end Command

namespace EngineSettings

variable {m : Machine} {s : Settings} {found : EngineSettings}

theorem isDuration_default : ∀ x ∈ times, x.2.1.IsDuration := by
  have hdefaults : ∀ n ∈ [30, 60, 5], (Number.real (.ofNat n)).IsDuration := by
    intro n hn
    rw [Number.IsDuration]
    revert n
    decide +kernel
  intro x hx
  simp only [times, List.mem_cons, List.not_mem_nil, or_false] at hx
  rcases hx with rfl | rfl | rfl
  · exact hdefaults 30 (by simp)
  · exact hdefaults 60 (by simp)
  · exact hdefaults 5 (by simp)

/-- A time is what its text says, if it says a number, and its default otherwise. -/
theorem Agrees.times {l : Locator} (h : Agrees m s l found) {x : String × Number × (EngineSettings → Number)}
    (hx : x ∈ times) : ∃ value, s.lookUp m x.1 = .ok value ∧
      x.2.2 found = ((value.bind Binary64.read?).map .real).getD x.2.1 := by
  have hread : ∀ {key fallback time}, s.secondsOf m key fallback = .ok time →
      ∃ value, s.lookUp m key = .ok value ∧
        time = ((value.bind Binary64.read?).map .real).getD fallback := by
    intro key fallback time htime
    obtain ⟨value, hvalue, htime⟩ := ok_of_bind_eq_ok htime
    refine ⟨value, hvalue, ?_⟩
    cases value <;> exact (Except.ok.inj htime).symm
  simp only [EngineSettings.times, List.mem_cons, List.not_mem_nil, or_false] at hx
  rcases hx with rfl | rfl | rfl
  · exact hread h.startupTimeout
  · exact hread h.requestTimeout
  · exact hread h.stopGrace

end EngineSettings

/-- A request of an operation, not one to load an assembly again, waits for its answer. -/
def Phase.asksFor (g id : Nat) : Phase → Bool
  | .requesting _ _ g' (.waiting id') => g' = g && id' = id
  | _ => false

/-! ## Sessions -/

namespace Session

variable {σ : Type} {program : Program σ} {s t : Session σ} {found : EngineSettings} {g id : Nat}

/-- A request has been registered with a channel that has not settled it. -/
def Unsettled (s : Session σ) (g id : Nat) : Prop :=
  ∃ c, s.link.channel? g = some c ∧ c.settlement? id = none

/-- The request is forgotten, and nothing else is done. -/
def forgot (s : Session σ) (g id : Nat) : Session σ := s.mapLink fun l => l.update g (·.forget id)

/-- What a request comes to that waits in vain: an error of time if the time can be used, and the engine
is stopped then; otherwise a failure that is none of the engine, and nothing else happens. -/
structure InVain {α : Type} (timeout : Number) (command : Command) (s : Session σ) (g id : Nat)
    (r : Except Failure α) (t : Session σ) : Prop where
  usable : timeout.IsUsable →
    (∃ ms, r = .error (.engine (.timeout command.name timeout ms))) ∧ t.IsStopped
  unusable : ¬timeout.IsUsable →
    (∃ e, r = .error (.seconds e)) ∧ ∃ trace, t = { s.forgot g id with trace }

/-- The session has the settings that were found. -/
structure Under (found : EngineSettings) (s : Session σ) : Prop where
  letsGo : s.LetsGo
  settings : s.settings = found

theorem Under.moves (h : s.Under found) (ht : t.LetsGo) (hm : s.Moves t) : t.Under found :=
  ⟨ht, hm.ages.settings.trans h.settings⟩

/-- A session keeps its settings. -/
theorem under_abiding (program : Program σ) (found : EngineSettings) :
    Abiding program (Under found) where
  trace h trace := ⟨(letsGo_abiding program).trace h.letsGo trace, h.settings⟩
  isRunning h := h.moves ((letsGo_abiding program).isRunning h.letsGo) h.letsGo.sound.isRunning.1
  teardown h reason :=
    h.moves ((letsGo_abiding program).teardown h.letsGo reason) (h.letsGo.sound.teardown reason).1
  launch h := h.moves h.letsGo.launch (h.letsGo.sound.launch program).1
  post h g command arguments := h.moves ((letsGo_abiding program).post h.letsGo g command arguments)
    (h.letsGo.sound.post program g command arguments).1.moves
  collect {s} h g id command := by
    refine ⟨(letsGo_abiding program).collect h.letsGo g id command, ?_⟩
    simp only [Attempt.runFrom, ExceptT.run, Session.collect]
    split
    · exact h.settings
    · exact h.settings
  loaded h f := ⟨(letsGo_abiding program).loaded h.letsGo f, h.settings⟩
  happen h g as := h.moves ((letsGo_abiding program).happen h.letsGo g as)
    (h.letsGo.sound.happen g as)

theorem under_new (found : EngineSettings) (locator : Option Locator)
    (environment : OrderedMap String String) (w : σ) (traced : Bool) :
    (Session.new found locator environment w traced).Under found :=
  ⟨letsGo_new found locator environment w traced, rfl⟩

/-- Who waits for what is not settled gets what a wait in vain comes to, and the request is forgotten. -/
theorem Under.collect (h : s.Under found) (hs : s.Unsettled g id) (command : Command) :
    (Session.collect g id command).runFrom s =
      (.error (command.unanswered found.requestTimeout), s.forgot g id) := by
  obtain ⟨c, hc, hnone⟩ := hs
  have htimeout : c.timeout = found.requestTimeout :=
    (h.letsGo.sound.channels g c hc).2.trans (congrArg EngineSettings.requestTimeout h.settings)
  rw [collect_run hc, c.await_outcome, hnone, htimeout]
  rfl

theorem Under.forgot (h : s.Under found) (hs : s.Unsettled g id) : (s.forgot g id).LetsGo := by
  have hcollect := h.letsGo.drifts (h.letsGo.sound.drifts_collect g id .load)
  rwa [h.collect hs] at hcollect

theorem state_trace (s : Session σ) (trace : Option (List TraceRecord)) :
    ({ s with trace } : Session σ).state = s.state := rfl

/-- A caller that is alone makes the engine run, which has the generation `g`, and posts its request to
it, which then has not been settled. -/
structure AsksInVain (program : Program σ) (op : Operation) (s : Session σ) (g id : Nat)
    (t : Session σ) : Prop where
  posts : ∃ arguments u, op.request? = .ok (some (op.command, arguments)) ∧
    (ensureRunning program).runFrom s = (.ok (), u) ∧ u.link.installed = some g ∧
    (post program g op.command arguments).runFrom u = (.ok id, t)
  unsettled : t.Unsettled g id

theorem Under.run_in_vain (h : s.Under found) {op : Operation} (ha : AsksInVain program op s g id t) :
    InVain found.requestTimeout op.command t g id ((op.run program).runFrom s).1
      ((op.run program).runFrom s).2 := by
  obtain ⟨⟨arguments, u, hop, hensured, hi, hposted⟩, hunsettled⟩ := ha
  have hu : u.Under found := by
    have hkept := (under_abiding program found).kept.ensureRunning s h
    rwa [hensured] at hkept
  have hstays := (hu.letsGo.sound.post program g op.command arguments).1
  have ht := (under_abiding program found).post hu g op.command arguments
  rw [hposted] at hstays ht
  have hinstalled : (t.forgot g id).link.installed = some g := hstays.installed.trans hi
  have hrequest : (request program op.command arguments).runFrom s =
      giveUp g (.error (op.command.unanswered found.requestTimeout)) (t.forgot g id) := by
    have hsend : (send program g op.command arguments).runFrom u =
        (.error (op.command.unanswered found.requestTimeout), t.forgot g id) := by
      rw [send, Attempt.runFrom_bind_ok hposted, ht.collect hunsettled]
    rw [request, Attempt.runFrom_bind_ok hensured,
      Attempt.runFrom_bind_ok (Attempt.runFrom_get u), hi]
    dsimp only
    rw [Attempt.runFrom_bind, Attempt.runFrom_outcome, hsend]
    rfl
  -- all that the operation adds to the request is a trace
  obtain ⟨trace, trace', hrun⟩ := run_request program hop s
  rw [hrun, notes_request program op.command arguments s trace, hrequest]
  rcases op.command.unanswered_cases found.requestTimeout with
    ⟨husable, ms, hms⟩ | ⟨hnot, e, he⟩
  · rw [hms]
    simp only [giveUp, if_pos hinstalled]
    refine ⟨fun _ => ⟨⟨ms, rfl⟩, ?_⟩, fun hnot => absurd husable hnot⟩
    rw [Except.bind, keep_error]
    exact ((ht.forgot hunsettled).teardown timedOutReason).of_trace _
  · rw [he]
    refine ⟨fun husable => absurd husable hnot, fun _ => ⟨⟨e, rfl⟩, ?_⟩⟩
    simp only [giveUp, Except.bind, keep_error]
    exact ⟨_, rfl⟩

end Session

namespace Callers

open Session

variable {σ : Type} {program : Program σ} {found : EngineSettings} {c : Callers σ} {i g id : Nat}
  {op : Operation}

theorem session_finish (c : Callers σ) (i : Nat) (op : Operation) (r : Except Failure Value) :
    ∃ trace, (c.finish i op r).session = { c.session with trace } := by
  have hrelease : ∀ d : Callers σ, ((d.release i).goto i (.finished r)).session = d.session := by
    intro d
    unfold release
    split <;> rfl
  cases r with
  | ok v => exact ⟨_, hrelease _⟩
  | error f => exact ⟨_, hrelease _⟩

/-- An engine that could not be made to run is the end of the operation. -/
theorem afterLaunch_error (c : Callers σ) (i : Nat) (op : Operation) (f : Failure) :
    (c.afterLaunch i op (.error f)).phase? i = some (.finished (.error f)) ∧
      ∃ trace, (c.afterLaunch i op (.error f)).session = { c.session with trace } := by
  unfold afterLaunch
  split
  · obtain ⟨trace, hsession⟩ := session_finish (c.note (.fail .ensureRunning f)) i op (.error f)
    exact ⟨phase_finish _ i op _, trace, hsession⟩
  · exact ⟨phase_finish c i op _, session_finish c i op _⟩

theorem unsettled_of_demand (h : c.Registered none) (command : Command)
    (hd : c.demand? i = some (g, id, command)) (hs : c.isSettled g id = false) :
    c.session.Unsettled g id := by
  obtain ⟨channel, hc, -⟩ := h.minds i g id command (by simp) hd
  refine ⟨channel, hc, ?_⟩
  simpa [isSettled, hc] using hs

theorem registered_following (h : c.Registered none) (program : Program σ) (xs : List CallersStep) :
    (following program xs c).Registered none := by
  induction xs generalizing c with
  | nil => exact h
  | cons x xs ih => exact ih (h.after program x)

/-- How callers wait in vain: a caller whose request is not settled, and that waits no longer for it, can
go on. If the time can be used it gives up, and stops the engine when the life of that comes into its
hands, unless there is another engine by then; who loads assemblies again has it there already. -/
structure WaitInVain (program : Program σ) (timeout : Number) (c : Callers σ) : Prop where
  request : ∀ {i op arguments g id patient},
    c.phase? i = some (.requesting op arguments g (.waiting id)) → c.isSettled g id = false →
    (patient && c.mustWait g id) = false → ∃ c', c.step? program patient i = some c' ∧
      (∃ trace, c'.session = { c.session.forgot g id with trace }) ∧
      (timeout.IsUsable → ∃ ms, c'.phase? i =
        some (.givingUp op g (.engine (.timeout op.command.name timeout ms)))) ∧
      (¬timeout.IsUsable → ∃ e, c'.phase? i = some (.finished (.error (.seconds e))))
  stop : ∀ {i op g f patient}, c.phase? i = some (.givingUp op g f) → c.lifecycle = none →
    ∃ c', c.step? program patient i = some c' ∧ c'.phase? i = some (.finished (.error f)) ∧
      (c.session.link.installed = some g → c'.session.IsStopped) ∧
      (c.session.link.installed ≠ some g → ∃ trace, c'.session = { c.session with trace })
  reload : ∀ {i op g path rest id patient},
    c.phase? i = some (.reloading op g path rest (.waiting id)) → c.isSettled g id = false →
    (patient && c.mustWait g id) = false → ∃ c' r, c.step? program patient i = some c' ∧
      c'.phase? i = some (.finished r) ∧ InVain timeout .load c.session g id r c'.session

section Steps

variable {patient : Bool} (hgo : (patient && c.mustWait g id) = false)
include hgo

theorem step_requesting {arguments : Fields}
    (hp : c.phase? i = some (.requesting op arguments g (.waiting id))) :
    c.step? program patient i =
      some ((c.collect g id op.command).2.endRequest i op g (c.collect g id op.command).1) := by
  simp [step?, hp, hgo]

theorem step_reloading {path : String} {rest : List String}
    (hp : c.phase? i = some (.reloading op g path rest (.waiting id))) :
    c.step? program patient i =
      some ((c.collect g id .load).2.endReload i op g path rest (c.collect g id .load).1) := by
  simp [step?, hp, hgo]

end Steps

theorem collect_in_vain (hu : c.session.Under found) (hs : c.session.Unsettled g id)
    (command : Command) : c.collect g id command =
      (.error (command.unanswered found.requestTimeout),
        (c.withSession (c.session.forgot g id)).releaseSender g) := by
  rw [collect, hu.collect hs]

/-- To load an assembly again ends in a failure: one of the engine stops it, any other stops nothing. -/
theorem endReload_error (c : Callers σ) (i : Nat) (op : Operation) (g : Nat) (path : String)
    (rest : List String) (f : Failure) :
    let n := c.endReload i op g path rest (.error f)
    n.phase? i = some (.finished (.error f)) ∧
      ∃ trace, n.session = { (Session.settleReload path (.error f) c.session).2 with trace } := by
  have hsettled : (Session.settleReload path (.error f) c.session).1 = .error f := by
    cases f <;> rfl
  unfold endReload
  generalize Session.settleReload path (.error f) c.session = settled at hsettled
  obtain ⟨r, s⟩ := settled
  dsimp only at hsettled ⊢
  subst hsettled
  exact afterLaunch_error (c.withSession s) i op f

theorem waitInVain (h : c.Registered none) (hu : c.session.Under found) (program : Program σ) :
    c.WaitInVain program found.requestTimeout where
  request {i op arguments g id patient} hp hs hgo := by
    have hunsettled : c.session.Unsettled g id := unsettled_of_demand h op.command
      (i := i) (by rw [demand?, hp]; rfl) hs
    rw [step_requesting hgo hp, collect_in_vain hu hunsettled]
    rcases op.command.unanswered_cases found.requestTimeout with
      ⟨husable, ms, hms⟩ | ⟨hnot, e, he⟩
    · rw [hms]
      exact ⟨_, rfl, ⟨_, rfl⟩, fun _ => ⟨ms, phase_goto _ i _⟩, fun hnot => absurd husable hnot⟩
    · rw [he]
      exact ⟨_, rfl, session_finish _ i op _, fun husable => absurd husable hnot,
        fun _ => ⟨e, phase_finish _ i op _⟩⟩
  stop {i op g f patient} hp hl := by
    simp only [step?, hp, hl, Option.isNone_none, if_true]
    refine ⟨_, rfl, phase_finish _ i op _, fun hi => ?_, fun hi => ?_⟩
    · rw [if_pos hi]
      obtain ⟨trace, hsession⟩ := session_finish
        (c.withSession (c.session.teardown timedOutReason)) i op (.error f)
      rw [hsession]
      exact (hu.letsGo.teardown timedOutReason).of_trace trace
    · rw [if_neg hi]
      exact session_finish (c.withSession c.session) i op (.error f)
  reload {i op g path rest id patient} hp hs hgo := by
    have hunsettled : c.session.Unsettled g id := unsettled_of_demand h .load
      (i := i) (by rw [demand?, hp]; rfl) hs
    rw [step_reloading hgo hp, collect_in_vain hu hunsettled]
    obtain ⟨hphase, trace, hsession⟩ := endReload_error
      ((c.withSession (c.session.forgot g id)).releaseSender g) i op g path rest
      (Command.load.unanswered found.requestTimeout)
    refine ⟨_, _, rfl, hphase, ?_⟩
    rw [hsession]
    rcases Command.load.unanswered_cases found.requestTimeout with
      ⟨husable, ms, hms⟩ | ⟨hnot, e, he⟩
    · rw [hms]
      exact ⟨fun _ => ⟨⟨ms, rfl⟩, ((hu.forgot hunsettled).teardown reloadFailed).of_trace trace⟩,
        fun hnot => absurd husable hnot⟩
    · rw [he]
      exact ⟨fun husable => absurd husable hnot, fun _ => ⟨⟨e, rfl⟩, trace, rfl⟩⟩

theorem phase_of_asksFor {c : Callers σ} {i g id : Nat}
    (h : (c.phase? i).any (·.asksFor g id) = true) :
    ∃ op arguments, c.phase? i = some (.requesting op arguments g (.waiting id)) := by
  cases hp : c.phase? i with
  | none => simp [hp] at h
  | some p =>
    rw [hp] at h
    cases p with
    | requesting op arguments g' stage =>
      cases stage with
      | waiting id' =>
        simp only [Option.any_some, Phase.asksFor, Bool.and_eq_true, decide_eq_true_eq] at h
        obtain ⟨rfl, rfl⟩ := h
        exact ⟨op, arguments, rfl⟩
      | queued => cases h
    | _ => cases h

/-- The settings of a machine whose environment says that requests may take forever. -/
def endlessSettings : EngineSettings where
  command := some ["engine"]
  startupTimeout := EngineSettings.defaultStartupTimeout
  requestTimeout := .real (.infinite false)
  stopGrace := EngineSettings.defaultStopGrace

def endlessMachine : Machine := EngineSettings.sampleMachine [("ILSPY_REQUEST_TIMEOUT", "inf")] ""

/-- A caller has asked an engine that does not answer. -/
def endlessWait : Callers Unit :=
  following reticent waitingRun (fresh endlessSettings none ∅ () false)

theorem endlessWait_asks : (endlessWait.phase? 1).any (·.asksFor 1 1) = true := by decide +kernel

end Callers

end AssemblyBrowser
