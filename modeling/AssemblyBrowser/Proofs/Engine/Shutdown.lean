import AssemblyBrowser.Proofs.Engine.Abiding
import AssemblyBrowser.Proofs.Engine.Endurance
import AssemblyBrowser.Proofs.Engine.Rehydration
import AssemblyBrowser.Proofs.Engine.Service
import AssemblyBrowser.Proofs.Engine.Supersession
/-!
Stopping a session for good. Main statement: whenever a caller stops a session, however its child takes
it, the session is stopped afterwards and holds neither channel nor child, what it remembers is the same,
what waited has failed as unavailable, and whatever is done later, nothing is written to a child of that
time.
-/
namespace AssemblyBrowser

namespace Session

variable {σ : Type} {program : Program σ} {s t : Session σ}

/-! ## What is held when a session is stopped -/

/-- A session that is stopped holds no child. -/
structure LetsGo (s : Session σ) : Prop where
  sound : s.Sound
  held : s.state = .stopped → s.supervisor.held = none

theorem letsGo_new (settings : EngineSettings) (locator : Option Locator)
    (environment : OrderedMap String String) (w : σ) (traced : Bool) :
    (Session.new settings locator environment w traced).LetsGo :=
  ⟨sound_new settings locator environment w traced, fun _ => rfl⟩

theorem LetsGo.drifts (h : s.LetsGo) (hd : s.Drifts t) : t.LetsGo := by
  refine ⟨hd.sound, fun ht => hd.held.trans ?_⟩
  rcases hd.state with hsame | ⟨-, hcrashed⟩
  · exact h.held (hsame.symm.trans ht)
  · rw [hcrashed] at ht
    cases ht

/-- After a teardown no child is held, whatever errors there were on the way. -/
theorem LetsGo.teardown_held (h : s.LetsGo) (reason : String) :
    (s.teardown reason).supervisor.held = none := by
  have hteardown : s.teardown reason = (s.closeChannel reason).haltEngine := rfl
  rw [hteardown]
  unfold haltEngine
  split
  · rename_i hrests
    simp only [Bool.and_eq_true, decide_eq_true_eq] at hrests
    rw [closeChannel_held]
    exact h.held ((s.closeChannel_state reason).symm.trans hrests.1)
  · exact Supervisor.stop_held _ _

theorem LetsGo.launch (h : s.LetsGo) : ((Session.launch program).runFrom s).2.LetsGo := by
  refine ⟨(h.sound.launch program).1.sound, ?_⟩
  rw [launch_started]
  cases hr : (Session.started program s).1 with
  | error f =>
    obtain ⟨hheld, -⟩ := h.sound.started_error hr
    cases f <;> exact fun _ => hheld
  | ok g => exact fun hstopped => by cases hstopped

theorem letsGo_abiding (program : Program σ) : Abiding program LetsGo where
  trace h trace := h.drifts (h.sound.drifts_trace trace)
  isRunning h := h.drifts h.sound.drifts_isRunning
  teardown h reason := ⟨(h.sound.teardown reason).1.sound, fun _ => h.teardown_held reason⟩
  launch h := h.launch
  post h g command arguments := h.drifts (h.sound.course_post program g command arguments).2
  collect h g id command := h.drifts (h.sound.drifts_collect g id command)
  loaded h f := h.drifts (h.sound.drifts_loaded f)
  happen h g as := h.drifts (h.sound.drifts_happen g as)

/-- A stop is a teardown. -/
theorem stop_run (s : Session σ) :
    ∃ trace, Session.stop.runFrom s = (.ok (), { s.teardown "engine stopped" with trace }) := by
  obtain ⟨trace, trace', hrun⟩ := traced_run .stop [] noValue
    (fun s => (.ok (), s.teardown "engine stopped")) s
  have hdown : Attempt.runFrom (fun s : Session σ => ((.ok () : Except Failure Unit),
      s.teardown "engine stopped")) { s with trace } =
        (.ok (), { s.teardown "engine stopped" with trace }) :=
    congrArg (Prod.mk _) (s.teardown_trace "engine stopped" trace)
  rw [hdown] at hrun
  exact ⟨trace', hrun⟩

/-- A session that is stopped and has neither channel nor child. -/
structure IsStopped (s : Session σ) : Prop where
  state : s.state = .stopped
  installed : s.link.installed = none
  held : s.supervisor.held = none

theorem LetsGo.teardown (h : s.LetsGo) (reason : String) : (s.teardown reason).IsStopped :=
  ⟨s.teardown_state reason, (h.sound.teardown reason).2.1, h.teardown_held reason⟩

namespace IsStopped

variable (h : s.IsStopped)
include h

theorem of_trace (trace : Option (List TraceRecord)) : ({ s with trace } : Session σ).IsStopped :=
  ⟨h.state, h.installed, h.held⟩

theorem idle : s.supervisor.isRunning = false := Supervisor.isRunning_of_held_none h.held

theorem isRunning : s.isRunning.1 = false := by
  simpa using isRunning_of_ended h.idle

theorem pid : s.supervisor.pid? = none := by
  simp [Supervisor.pid?, Supervisor.heldChild?, h.held]

/-- There is nothing to take down. -/
theorem teardown (reason : String) : s.teardown reason = s := by
  have hclose : s.closeChannel reason = s := by simp only [closeChannel, h.installed]
  have hteardown : s.teardown reason = (s.closeChannel reason).haltEngine := rfl
  rw [hteardown, hclose, haltEngine, if_pos (by simp [h.state, h.idle])]

/-- Another stop changes nothing but the trace. -/
theorem stop : ∃ trace, Session.stop.runFrom s = (.ok (), { s with trace }) := by
  obtain ⟨trace, hstop⟩ := s.stop_run
  rw [h.teardown "engine stopped"] at hstop
  exact ⟨trace, hstop⟩

end IsStopped

theorem launch_writes (program : Program σ) (s : Session σ) :
    s.supervisor.Writes ((Session.launch program).runFrom s).2.supervisor [] := by
  rw [launch_started]
  refine (s.started_writes program).then_none (.of_log ?_)
  unfold settleLaunch
  split <;> rfl

theorem settleLaunch_error (hi : s.link.installed = none) (hheld : s.supervisor.held = none)
    (f : Failure) : (settleLaunch (.error f) s).2.link.installed = none ∧
      (settleLaunch (.error f) s).2.supervisor.isRunning = false := by
  have hidle := Supervisor.isRunning_of_held_none hheld
  cases f <;> exact ⟨hi, hidle⟩

/-! ## A session later -/

/-- A session later, in which nothing has been written to a child of the time of the other one; a child
that runs or has a channel now is a newer one. -/
structure Outlasts (s t : Session σ) : Prop where
  upright : t.Upright
  ages : s.link.Ages t.link
  writes : ∃ ws, s.supervisor.Writes t.supervisor ws ∧ ∀ w ∈ ws, s.generation < w.1
  generation : s.generation ≤ t.generation
  installed : ∀ g, t.link.installed = some g → s.generation < g
  running : t.supervisor.isRunning = true → s.generation < t.generation

/-- Where there is no engine, neither a channel nor a child can be an old one. -/
theorem outlasts_of_idle (hu : t.Upright) (ha : s.link.Ages t.link)
    (hw : ∃ ws, s.supervisor.Writes t.supervisor ws ∧ ∀ w ∈ ws, s.generation < w.1)
    (hg : s.generation ≤ t.generation) (hi : t.link.installed = none)
    (hr : t.supervisor.isRunning = false) : s.Outlasts t := by
  refine ⟨hu, ha, hw, hg, fun g hg' => ?_, fun hr' => ?_⟩
  · rw [hi] at hg'
    cases hg'
  · rw [hr] at hr'
    cases hr'

theorem IsStopped.outlasts (h : s.IsStopped) (hs : s.Upright) : s.Outlasts s :=
  outlasts_of_idle hs (.refl _) ⟨[], .of_log rfl, fun _ hw => by cases hw⟩ (Nat.le_refl _)
    h.installed h.idle

namespace Outlasts

variable {u : Session σ} (h : s.Outlasts t)
include h

theorem writes_later {ws : List (Nat × String)} (hw : t.supervisor.Writes u.supervisor ws)
    (hws : ∀ w ∈ ws, s.generation < w.1) :
    ∃ ws, s.supervisor.Writes u.supervisor ws ∧ ∀ w ∈ ws, s.generation < w.1 := by
  obtain ⟨before, hbefore, hall⟩ := h.writes
  refine ⟨before ++ ws, hbefore.trans hw, fun w hm => ?_⟩
  exact (List.mem_append.mp hm).elim (hall w) (hws w)

/-- What has nothing to do with the life of the engine. -/
theorem spares (hu : u.Upright) (ha : t.link.Ages u.link) (hs : t.Spares u) {ws : List (Nat × String)}
    (hw : t.supervisor.Writes u.supervisor ws) (hws : ∀ w ∈ ws, s.generation < w.1) :
    s.Outlasts u where
  upright := hu
  ages := h.ages.trans ha
  writes := h.writes_later hw hws
  generation := hs.generation ▸ h.generation
  installed g hg := h.installed g (hs.installed ▸ hg)
  running hr := by
    rw [hs.generation]
    cases hidle : t.supervisor.isRunning with
    | true => exact h.running hidle
    | false => rw [hs.idle hidle] at hr; cases hr

/-- The same where nothing is written. -/
theorem quiet (hu : u.Upright) (ha : t.link.Ages u.link) (hs : t.Spares u)
    (hw : t.supervisor.Writes u.supervisor []) : s.Outlasts u :=
  h.spares hu ha hs hw fun _ hm => by cases hm

theorem teardown (reason : String) : s.Outlasts (t.teardown reason) := by
  obtain ⟨-, hi, hr⟩ := h.upright.sound.teardown reason
  have htends := h.upright.teardown reason
  have hwrites := h.writes_later (t.teardown_writes reason) fun _ hm => by cases hm
  have hgeneration : s.generation ≤ (t.teardown reason).generation :=
    (t.teardown_generation reason).symm ▸ h.generation
  exact outlasts_of_idle htends.upright (h.ages.trans htends.ages) hwrites hgeneration hi hr

/-- A new engine is a newer one. -/
theorem launch (program : Program σ) : s.Outlasts ((Session.launch program).runFrom t).2 := by
  have hupright := (h.upright.launch program).upright
  have hages := h.ages.trans (h.upright.launch program).ages
  have hlaunch := h.upright.sound.launch program
  have hwrites := h.writes_later (t.launch_writes program) fun _ hm => by cases hm
  have hgeneration := Nat.le_trans h.generation hlaunch.1.ages.generation
  rw [launch_started] at hupright hages hlaunch hwrites hgeneration ⊢
  cases hr : (Session.started program t).1 with
  | error f =>
    obtain ⟨hheld, -⟩ := h.upright.sound.started_error hr
    obtain ⟨hi, hidle⟩ := settleLaunch_error (h.upright.sound.started program).2 hheld f
    rw [hr] at hupright hages hwrites hgeneration
    exact outlasts_of_idle hupright hages hwrites hgeneration hi hidle
  | ok g =>
    rw [hr] at hupright hages hlaunch hwrites hgeneration
    obtain ⟨-, hi, hg, hlt⟩ := hlaunch
    have hnew := Nat.lt_of_le_of_lt h.generation hlt
    refine ⟨hupright, hages, hwrites, hgeneration, fun g' hg' => ?_, fun _ => hnew⟩
    rw [hi] at hg'
    cases hg'
    rwa [hg]

/-- What is posted is written to the child that runs, which is a newer one. -/
theorem post (program : Program σ) (g : Nat) (command : Command) (arguments : Fields) :
    s.Outlasts ((Session.post program g command arguments).runFrom t).2 := by
  obtain ⟨htends, hspares, -⟩ := h.upright.post program g command arguments
  by_cases htakes : t.Takes g command
  · obtain ⟨hr, c, hc⟩ := id htakes
    obtain ⟨hg, hrunning⟩ := refusal_none hc hr
    obtain ⟨hposts, -⟩ := h.upright.sound.posts program hc hr arguments
    refine h.spares htends.upright htends.ages hspares hposts.writes fun w hw => ?_
    rw [List.mem_singleton.mp hw, hg]
    exact h.running hrunning
  · obtain ⟨e, he⟩ := post_refused program htakes arguments
    rw [he]
    exact h

theorem collect (g id : Nat) (command : Command) :
    s.Outlasts ((Session.collect g id command).runFrom t).2 := by
  obtain ⟨hdrops, hspares⟩ := h.upright.collect g id command
  refine h.quiet hdrops.upright hdrops.ages hspares (.of_log ?_)
  simp only [Attempt.runFrom, ExceptT.run, Session.collect]
  split <;> rfl

theorem happen (g : Nat) (as : List Act) :
    s.Outlasts { t with supervisor := t.supervisor.happen Link.listener g as } :=
  have htends := h.upright.happen g as
  h.quiet htends.upright htends.ages (h.upright.spares_happen g as)
    ((Supervisor.writes_keptByStop Link.listener t.supervisor).acts (.of_log rfl) g as)

end Outlasts

/-- Whatever is done in a session, it stays one in which nothing is written to a child of that time. -/
theorem outlasts_abiding (program : Program σ) (s : Session σ) : Abiding program s.Outlasts where
  trace h trace := h.quiet (h.upright.of_trace trace).upright (.refl _)
    ⟨rfl, rfl, fun _ hn => hn, fun hr => hr⟩ (.of_log rfl)
  isRunning h := h.quiet h.upright.isRunning.upright h.upright.isRunning.ages
    h.upright.spares_isRunning (isRunning_writes _)
  teardown h reason := h.teardown reason
  launch h := h.launch program
  post h g command arguments := h.post program g command arguments
  collect h g id command := h.collect g id command
  loaded h f := h.quiet (h.upright.mapLoaded f).upright (h.upright.mapLoaded f).ages
    ⟨rfl, rfl, fun _ hn => hn, fun hr => hr⟩ (.of_log rfl)
  happen h g as := h.happen g as

/-! ## An engine that has been made to run -/

section

variable (program : Program σ)

theorem Sound.installed_of_relaunch (h : s.Sound)
    (hr : (relaunch program).runFrom s = (.ok (), t)) : ∃ g, t.link.installed = some g := by
  cases hstarted : (Session.started program s).1 with
  | error f =>
    obtain ⟨c, u, hlaunch, -⟩ := Attempt.bind_returns hr
    rw [launch_started, hstarted] at hlaunch
    cases f <;> cases hlaunch
  | ok g =>
    obtain ⟨-, answered, left, -, hrest⟩ := h.relaunch_rehydrates program hstarted
    rw [hr] at hrest
    cases left with
    | nil =>
      obtain ⟨-, -, -, hi⟩ := hrest.finished rfl
      exact ⟨g, hi⟩
    | cons path rest =>
      obtain ⟨-, f, herr, -⟩ := hrest.failed path rest rfl
      cases herr

/-- Where the engine has been made to run, there is a channel. -/
theorem Sound.installed_of_ensureRunning (h : s.Sound)
    (hr : (ensureRunning program).runFrom s = (.ok (), t)) : ∃ g, t.link.installed = some g := by
  obtain ⟨trace, trace', hrun⟩ := traced_run .ensureRunning [] noValue (do
    if ← runningNow then return () else Session.relaunch program) s
  rw [ensureRunning, hrun] at hr
  have hlook := (h.of_trace trace).isRunning
  generalize ({ s with trace } : Session σ) = v at hr hlook
  generalize hbody : Attempt.runFrom _ v = r at hr
  obtain ⟨res, u⟩ := r
  cases hr
  have hnow : (runningNow : Attempt (Session σ) Bool).runFrom v =
      (.ok v.isRunning.1, v.isRunning.2) := rfl
  rw [Attempt.runFrom_bind_ok hnow] at hbody
  cases hrunning : v.isRunning.1 with
  | true =>
    rw [hrunning] at hbody
    cases hbody
    obtain ⟨⟨c, hc, -⟩, -⟩ := isRunning_iff.mp hrunning
    exact ⟨c.generation, hlook.2.trans (Link.channel_of_installed hc).1⟩
  | false =>
    rw [hrunning] at hbody
    obtain ⟨g, hi⟩ := hlook.1.sound.installed_of_relaunch program hbody
    exact ⟨g, hi⟩

end

namespace Outlasts

variable (h : s.Outlasts t)
include h

/-- What has failed fails later. -/
theorem fails {g id : Nat} {c : Channel} {command : Command} {e : EngineError}
    (hc : s.link.channel? g = some c) (hs : c.settlement? id = some (.error e)) :
    t.Fails g id command e := by
  obtain ⟨c', hc', hage⟩ := h.ages g c hc
  exact fails_of_settlement hc' (hage.settled id _ hs)

/-- An engine that has been made to run is a newer one. -/
theorem ensureRunning (program : Program σ)
    (hr : (Session.ensureRunning program).runFrom t = (.ok (), u)) :
    u.link.installed = some u.generation ∧ s.generation < u.generation := by
  obtain ⟨g, hg⟩ := h.upright.sound.installed_of_ensureRunning program hr
  have hlater := (outlasts_abiding program s).kept.ensureRunning t h
  rw [hr] at hlater
  obtain rfl := hlater.upright.sound.current g hg
  exact ⟨hg, hlater.installed _ hg⟩

end Outlasts

/-! ## Stopping -/

/-- A request that waits does so at the installed channel, and no other waits there. -/
theorem Accounted.awaits {past : List Passage} (h : s.Accounted past) {g id : Nat}
    {command : Command} (hw : (id, command) ∈ s.link.waiting g) :
    s.link.installed = some g ∧ ∃ c, s.link.channel? g = some c ∧ c.Awaits id command := by
  obtain ⟨c, hc, hopen, hp⟩ := h.open_of_waits hw
  refine ⟨h.link.opened g c hc hopen, c, hc, hp, fun command' hp' => ?_, hopen⟩
  exact (Prod.mk.inj ((h.link.channel g c hc).only hp _ hp')).2

/-- After a teardown what waited has failed as unavailable. -/
theorem Accounted.teardown_settles {past : List Passage} (h : s.Accounted past) {g id : Nat}
    {command : Command} (hw : (id, command) ∈ s.link.waiting g) (reason : String) :
    ∃ c, (s.teardown reason).link.channel? g = some c ∧ c.settlement? id =
      some (.error (.unavailable command.name (some reason) (some g))) := by
  obtain ⟨hi, c, hc, hawaits⟩ := h.awaits hw
  obtain ⟨hclosed, hnone⟩ := h.sound.closeChannel reason
  obtain ⟨hhalted, -⟩ := hclosed.sound.haltEngine hnone
  obtain ⟨d, hd, hsettled⟩ := h.sound.closeChannel_settles hi hc hawaits reason
  obtain ⟨d', hd', hage⟩ := hhalted.ages.link g d hd
  exact ⟨d', hd', hage.settled id _ hsettled⟩

end Session

/-! ## Runs -/

def Phase.wantsToStop : Phase → Bool
  | .wanting .stop => true
  | _ => false

namespace Callers

variable {σ : Type}

theorem phase_of_wantsToStop {c : Callers σ} {i : Nat}
    (h : (c.phase? i).any Phase.wantsToStop = true) : c.phase? i = some (.wanting .stop) := by
  obtain ⟨p, hp, hstop⟩ := (Option.any_eq_true _ _).mp h
  unfold Phase.wantsToStop at hstop
  split at hstop
  · exact hp
  · cases hstop

/-- The session after a caller has stopped it is that after a teardown, but for the trace. -/
theorem after_stop (program : Program σ) {c : Callers σ} {i : Nat} (patient : Bool)
    (hp : c.phase? i = some (.wanting .stop)) (hl : c.lifecycle = none) :
    let n := (CallersStep.step i patient).after program c
    n.phase? i = some (.finished (.ok .nothing)) ∧
      ∃ trace, n.session = { c.session.teardown "engine stopped" with trace } := by
  intro n
  let stopped := ({ c with lifecycle := some i } : Callers σ).withSession
    (c.session.teardown "engine stopped")
  have hn : n = stopped.finish i .stop (.ok .nothing) := by
    simp only [n, CallersStep.after, step?, hp, hl, Option.isNone_none, if_true, takeLifecycle]
    rfl
  rw [hn]
  refine ⟨phase_goto _ i _,
    stopped.session.trace.map (· ++ [.ok .stop Value.nothing.display]), ?_⟩
  rw [finish]
  dsimp only
  unfold release
  split <;> rfl

/-- A caller waits for an answer, and another is about to stop the engine. -/
def stopBegun : List CallersStep := waitingRun ++ [.begin 2 .stop, .step 2 true]

/-- The engine answers after all and exits, and another one is started. -/
def answeredAfterStop : List CallersStep :=
  [.happen 1 (.print (loadAnswer "1" "k")), .happen 1 (.exit 0), .begin 3 .ensureRunning,
    .step 3 true, .step 3 true]

def stopping : Callers Unit := following Changeover.stubborn stopBegun patientCallers

def stopped : Callers Unit := (CallersStep.step 2 true).after Changeover.stubborn stopping

theorem stopping_wants : (stopping.phase? 2).any Phase.wantsToStop = true := by decide +kernel

end Callers

end AssemblyBrowser
