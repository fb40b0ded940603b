import AssemblyBrowser.Engine.Session
import AssemblyBrowser.Proofs.Engine.Settlement
/-!
What sessions keep: the installed channel is that of the current generation, and what was written
and answered stays so. Main statement: a request that is answered was written to the generation
whose channel answered it.
-/
namespace AssemblyBrowser

/-- A wait of so many seconds can be made, and reported if it was in vain. -/
def Number.IsUsable (x : Number) : Prop := x.wait = .ok () ∧ ∃ ms, x.milliseconds = .ok ms

namespace Session

variable {σ : Type}

structure Sound (s : Session σ) : Prop where
  link : s.link.Sound
  channels : ∀ g c, s.link.channel? g = some c →
    g ≤ s.generation ∧ c.timeout = s.settings.requestTimeout
  current : ∀ g, s.link.installed = some g → g = s.generation
  ended : s.supervisor.endedGeneration ≤ s.generation

/-- A session later: what was written is written, and what was settled is settled. -/
structure Ages (s t : Session σ) : Prop where
  settings : t.settings = s.settings
  options : t.supervisor.options = s.supervisor.options
  log : s.supervisor.log <+: t.supervisor.log
  generation : s.generation ≤ t.generation
  link : s.link.Ages t.link

theorem Ages.refl (s : Session σ) : s.Ages s :=
  ⟨rfl, rfl, List.prefix_refl _, Nat.le_refl _, .refl _⟩

theorem Ages.trans {s t u : Session σ} (h : s.Ages t) (h' : t.Ages u) : s.Ages u where
  settings := h'.settings.trans h.settings
  options := h'.options.trans h.options
  log := h.log.trans h'.log
  generation := Nat.le_trans h.generation h'.generation
  link := h.link.trans h'.link

/-- A session later that remembers the same assemblies. -/
structure Moves (s t : Session σ) : Prop where
  sound : t.Sound
  ages : s.Ages t
  loaded : t.link.loaded = s.link.loaded

theorem Sound.refl {s : Session σ} (h : s.Sound) : s.Moves s := ⟨h, .refl s, rfl⟩

theorem Moves.trans {s t u : Session σ} (h : s.Moves t) (h' : t.Moves u) : s.Moves u :=
  ⟨h'.sound, h.ages.trans h'.ages, h'.loaded.trans h.loaded⟩

theorem Moves.loadedAssemblies {s t : Session σ} (h : s.Moves t) :
    t.loadedAssemblies = s.loadedAssemblies := congrArg OrderedMap.keys h.loaded

/-- The same but for the trace. -/
theorem Sound.of_trace {s : Session σ} (h : s.Sound) (trace : Option (List TraceRecord)) :
    ({ s with trace } : Session σ).Sound := ⟨h.link, h.channels, h.current, h.ended⟩

theorem sound_new (settings : EngineSettings) (locator : Option Locator)
    (environment : OrderedMap String String) (w : σ) (traced : Bool) :
    (Session.new settings locator environment w traced).Sound where
  link := ⟨fun _ hc => (by cases hc), List.nodup_nil, fun _ hg => (by cases hg)⟩
  channels _ _ hc := by cases hc
  current _ hg := by cases hg
  ended := Nat.le_refl _

variable {s : Session σ}

/-! ## Steps -/

theorem Sound.mapLink (h : s.Sound) {f : Link → Link} (hf : s.link.Hears (f s.link)) :
    s.Moves (s.mapLink f) where
  sound := by
    refine ⟨hf.sound, fun g c' hc' => ?_, fun g hg => h.current g (hf.frame.installed ▸ hg),
      h.ended⟩
    obtain ⟨c, hc, ha⟩ := hf.back hc'
    obtain ⟨hle, ht⟩ := h.channels g c hc
    exact ⟨hle, ha.timeout.trans ht⟩
  ages := ⟨rfl, rfl, List.prefix_refl _, Nat.le_refl _, hf.ages⟩
  loaded := hf.frame.loaded

theorem Sound.setState (h : s.Sound) (state : SessionState) : s.Moves (s.setState state) :=
  h.mapLink (.of_channels h.link rfl rfl rfl)

theorem Sound.uninstall (h : s.Sound) : s.Moves (s.mapLink ({ · with installed := none })) where
  sound := ⟨⟨h.link.channels, h.link.nodup, fun _ hg => by cases hg⟩, h.channels,
    fun _ hg => (by cases hg), h.ended⟩
  ages := ⟨rfl, rfl, List.prefix_refl _, Nat.le_refl _, .of_channels rfl⟩
  loaded := rfl

/-- What is done with the supervisor starts no new generation under an installed channel. -/
theorem Sound.onSupervisor (h : s.Sound) {t : Supervisor σ Link}
    (ha : Supervisor.Ages (fun l l' => l.Sound → l.Hears l') s.supervisor t)
    (hg : s.link.installed = none ∨ t.generation = s.generation) :
    s.Moves { s with supervisor := t } ∧
      ({ s with supervisor := t } : Session σ).link.installed = s.link.installed := by
  have hh : s.link.Hears t.owner := ha.owner h.link
  refine ⟨⟨⟨hh.sound, fun g c' hc' => ?_, fun g hi => ?_, ha.ended h.ended⟩,
    ⟨rfl, ha.options, ha.log, ha.generation, hh.ages⟩, hh.frame.loaded⟩, hh.frame.installed⟩
  · obtain ⟨c, hc, hca⟩ := hh.back hc'
    obtain ⟨hle, ht⟩ := h.channels g c hc
    exact ⟨Nat.le_trans hle ha.generation, hca.timeout.trans ht⟩
  · have hi' : s.link.installed = some g := hh.frame.installed ▸ hi
    cases hg with
    | inl hn => rw [hn] at hi'; cases hi'
    | inr hg => exact (h.current g hi').trans hg.symm

/-- The end of a teardown, when the channel has been taken away. -/
def haltEngine (s : Session σ) : Session σ :=
  if s.state = .stopped && !s.supervisor.isRunning then s
  else
    let s := s.setState .stopping
    ({ s with supervisor := s.supervisor.stop Link.listener } : Session σ).setState .stopped

def closeChannel (reason : String) (s : Session σ) : Session σ :=
  match s.link.installed with
  | some g => s.mapLink fun l => ({ l with installed := none } : Link).update g (·.close reason)
  | none => s

theorem Sound.closeChannel (h : s.Sound) (reason : String) :
    s.Moves (s.closeChannel reason) ∧ (s.closeChannel reason).link.installed = none := by
  unfold Session.closeChannel
  split
  · rename_i g _
    have hu := h.uninstall
    obtain ⟨hs, ha, hf⟩ := hu.sound.link.update (f := (·.close reason)) (g := g) fun c hc =>
      (hu.sound.link.channel hc).close reason
    exact ⟨hu.trans (hu.sound.mapLink (f := (·.update g (·.close reason))) ⟨hs, ha, hf⟩), rfl⟩
  · rename_i hn
    exact ⟨h.refl, hn⟩

theorem Sound.haltEngine (h : s.Sound) (hn : s.link.installed = none) :
    s.Moves s.haltEngine ∧ s.haltEngine.link.installed = none ∧
      s.haltEngine.supervisor.isRunning = false := by
  unfold Session.haltEngine
  split
  · rename_i hc
    simp only [Bool.and_eq_true, Bool.not_eq_true', decide_eq_true_eq] at hc
    exact ⟨h.refl, hn, hc.2⟩
  · have h₁ := h.setState .stopping
    obtain ⟨h₂, hi⟩ := h₁.sound.onSupervisor
      (Supervisor.stop_ages Link.listener_respects (s.setState .stopping).supervisor) (.inl hn)
    exact ⟨(h₁.trans h₂).trans (h₂.sound.setState .stopped), hi.trans hn,
      Supervisor.isRunning_of_held_none (Supervisor.stop_held _ (s.setState .stopping).supervisor)⟩

theorem Sound.teardown (h : s.Sound) (reason : String) :
    s.Moves (s.teardown reason) ∧ (s.teardown reason).link.installed = none ∧
      (s.teardown reason).supervisor.isRunning = false := by
  obtain ⟨hc, hn⟩ := h.closeChannel reason
  obtain ⟨hh, hi, hr⟩ := hc.sound.haltEngine hn
  exact ⟨hc.trans hh, hi, hr⟩

section

variable (program : Program σ)

/-- The end of a launch, when a child has been started or not. -/
def settleLaunch (r : Except Failure Nat) (s : Session σ) : Except Failure Channel × Session σ :=
  match r with
  | .error (.engine e) => (.error (.engine e), s.setState .stopped)
  | .error f => (.error f, s)
  | .ok g =>
    let c : Channel := { generation := g, timeout := s.settings.requestTimeout }
    (.ok c, (s.mapLink (·.install c)).setState .running)

theorem launch_run (s : Session σ) :
    let ready := (s.teardown "engine restarting").setState .starting
    let r := (Supervisor.start program Link.listener).runFrom ready.supervisor
    (launch program).runFrom s = settleLaunch r.1 { ready with supervisor := r.2 } := by
  dsimp only
  cases hr : (Supervisor.start program Link.listener).runFrom
      ((s.teardown "engine restarting").setState .starting).supervisor with
  | mk r t =>
    simp only [Attempt.runFrom, ExceptT.run] at hr
    simp only [Attempt.runFrom, ExceptT.run, launch, onSupervisor, Attempt.within, hr]
    cases r with
    | error f => cases f <;> rfl
    | ok g => rfl

theorem Sound.settleLaunch_error (h : s.Sound) (hn : s.link.installed = none) (f : Failure) :
    (∃ f', (settleLaunch (.error f) s).1 = .error f') ∧ s.Moves (settleLaunch (.error f) s).2 ∧
      (settleLaunch (.error f) s).2.link.installed = none := by
  unfold settleLaunch
  split
  · exact ⟨⟨_, rfl⟩, h.setState .stopped, hn⟩
  · exact ⟨⟨_, rfl⟩, h.refl, hn⟩
  · rename_i he
    cases he

/-- The channel of a new generation is installed. -/
theorem Sound.settleLaunch_ok (h : s.Sound) {g : Nat} (hg : g = s.generation)
    (hnew : s.link.channel? g = none) : s.Moves (settleLaunch (.ok g) s).2 := by
  let c : Channel := { generation := g, timeout := s.settings.requestTimeout }
  obtain ⟨hs, ha⟩ := h.link.install (c := c) .fresh hnew
  have hinstall : s.Moves (s.mapLink (·.install c)) := by
    refine ⟨⟨hs, fun g' c' hc' => ?_, fun g' hg' => ?_, h.ended⟩,
      ⟨rfl, rfl, List.prefix_refl _, Nat.le_refl _, ha⟩, rfl⟩
    · have hc' : (s.link.install c).channel? g' = some c' := hc'
      rw [Link.channel?_install, Option.or_eq_some_iff] at hc'
      obtain hold | ⟨-, hnew⟩ := hc'
      · exact h.channels g' c' hold
      · split at hnew
        · rename_i hgg
          cases hnew
          exact ⟨Nat.le_of_eq (hgg.symm.trans hg), rfl⟩
        · cases hnew
    · cases hg'
      exact hg
  exact hinstall.trans (hinstall.sound.setState .running)

/-- A new engine has a channel of its own; if it cannot be started there is none. -/
theorem Sound.launch (h : s.Sound) :
    let t := ((launch program).runFrom s).2
    s.Moves t ∧
      match ((launch program).runFrom s).1 with
      | .ok c => t.link.installed = some c.generation ∧ c.generation = t.generation ∧
          s.generation < t.generation
      | .error _ => t.link.installed = none := by
  obtain ⟨h₁, hn, hr⟩ := h.teardown "engine restarting"
  rw [launch_run]
  dsimp only
  generalize hready : (s.teardown "engine restarting").setState .starting = ready
  have h₂ : s.Moves ready := hready ▸ h₁.trans (h₁.sound.setState .starting)
  have hn : ready.link.installed = none := hready ▸ hn
  have hr : ready.supervisor.isRunning = false := hready ▸ hr
  have hages := Supervisor.start_ages Link.listener_respects program ready.supervisor
  obtain ⟨h₃, hi⟩ := h₂.sound.onSupervisor hages (.inl hn)
  have hlink := hages.owner h₂.sound.link
  have h₄ := h₂.trans h₃
  cases hstart : (Supervisor.start program Link.listener).runFrom ready.supervisor with
  | mk r u =>
    rw [hstart] at h₃ h₄ hi hlink
    cases r with
    | error f =>
      obtain ⟨⟨f', hf⟩, h₅, hi'⟩ := h₄.sound.settleLaunch_error (hi.trans hn) f
      rw [hf]
      exact ⟨h₄.trans h₅, hi'⟩
    | ok g =>
      obtain ⟨hg, hnew, -⟩ := Supervisor.start_ok Link.listener program hr hstart
      have hlt : s.generation < g := by
        have := h₂.ages.generation
        simp only [generation] at this ⊢
        omega
      refine ⟨h₄.trans (h₄.sound.settleLaunch_ok hg ?_), rfl, hg, hg ▸ hlt⟩
      cases hc : ({ ready with supervisor := u } : Session σ).link.channel? g with
      | none => rfl
      | some c =>
        obtain ⟨c₀, hc₀, -⟩ := hlink.back hc
        have := (h₂.sound.channels g c₀ hc₀).1
        simp only [generation] at this
        omega

/-! ## Requests -/

/-- The end of posting, when the line has been written or not. -/
def settlePost (g id : Nat) (r : Except Failure Unit) (s : Session σ) :
    Except Failure Nat × Session σ :=
  match r with
  | .error f => (.error f, s.mapLink fun l => l.update g (·.forget id))
  | .ok () => (.ok id, s)

/-- A request with the next id of a channel is registered. -/
def enlist (g : Nat) (c : Channel) (command : Command) (arguments : Fields) (s : Session σ) :
    Session σ :=
  s.mapLink fun l => l.update g fun _ => (c.register command arguments).2

theorem post_run {g : Nat} {c : Channel} (hc : s.link.channel? g = some c) {command : Command}
    (hr : s.refusal? g command = none) (arguments : Fields) :
    let t := s.enlist g c command arguments
    let r := (Supervisor.sendLine program Link.listener g
      (Request.encode ⟨c.nextId, command, arguments⟩)).runFrom t.supervisor
    (post program g command arguments).runFrom s =
      settlePost g c.nextId r.1 { t with supervisor := r.2 } := by
  dsimp only
  cases hsend : (Supervisor.sendLine program Link.listener g
      (Request.encode ⟨c.nextId, command, arguments⟩)).runFrom
      (s.enlist g c command arguments).supervisor with
  | mk r t =>
    simp only [Attempt.runFrom, ExceptT.run, enlist, Channel.register] at hsend
    simp only [Attempt.runFrom, ExceptT.run, post, hr, hc, Channel.register, onSupervisor,
      Attempt.within, hsend]
    cases r <;> rfl

theorem Sound.enlist (h : s.Sound) {g : Nat} {c : Channel} (hc : s.link.channel? g = some c)
    (command : Command) (arguments : Fields) : s.Moves (s.enlist g c command arguments) := by
  obtain ⟨hs, ha, hf⟩ := h.link.update (g := g) (f := fun _ => (c.register command arguments).2)
    fun d hd => by
      cases hc.symm.trans hd
      exact ⟨(h.link.channel hc).register command arguments, c.register_ages command arguments⟩
  exact h.mapLink (f := (·.update g fun _ => (c.register command arguments).2)) ⟨hs, ha, hf⟩

theorem Sound.forget (h : s.Sound) (g id : Nat) :
    s.Moves (s.mapLink fun l => l.update g (·.forget id)) := by
  obtain ⟨hs, ha, hf⟩ := h.link.update (g := g) (f := (·.forget id)) fun c hc =>
    ⟨(h.link.channel hc).forget id, c.forget_ages id⟩
  exact h.mapLink (f := (·.update g (·.forget id))) ⟨hs, ha, hf⟩

/-- A step that neither installs a channel nor takes one away. -/
structure Stays (s t : Session σ) : Prop where
  moves : s.Moves t
  installed : t.link.installed = s.link.installed
  generation : t.generation = s.generation

theorem Stays.trans {s t u : Session σ} (h : s.Stays t) (h' : t.Stays u) : s.Stays u :=
  ⟨h.moves.trans h'.moves, h'.installed.trans h.installed, h'.generation.trans h.generation⟩

theorem Sound.stays (h : s.Sound) : s.Stays s := ⟨h.refl, rfl, rfl⟩

/-- A request of a generation was written. -/
def Wrote (s : Session σ) (g id : Nat) (command : Command) (arguments : Fields) : Prop :=
  .write g (Request.encode ⟨id, command, arguments⟩) ∈ s.supervisor.log

theorem Sound.post (h : s.Sound) (g : Nat) (command : Command) (arguments : Fields) :
    let t := ((post program g command arguments).runFrom s).2
    s.Stays t ∧
      match ((post program g command arguments).runFrom s).1 with
      | .ok id => t.Wrote g id command arguments
      | .error f => ∃ e, f = .engine e := by
  cases hr : s.refusal? g command with
  | some e =>
    have : (Session.post program g command arguments).runFrom s = (.error (.engine e), s) := by
      simp only [Attempt.runFrom, ExceptT.run, Session.post, hr]
    rw [this]
    exact ⟨h.stays, e, rfl⟩
  | none =>
    cases hc : s.link.channel? g with
    | none =>
      have : (Session.post program g command arguments).runFrom s =
          (.error (.engine (.unavailable command.name none (some g))), s) := by
        simp only [Attempt.runFrom, ExceptT.run, Session.post, hr, hc]
      rw [this]
      exact ⟨h.stays, _, rfl⟩
    | some c =>
      rw [post_run program hc hr]
      dsimp only
      have h₁ : s.Stays (s.enlist g c command arguments) :=
        ⟨h.enlist hc command arguments, rfl, rfl⟩
      generalize s.enlist g c command arguments = t at h₁ ⊢
      generalize hline : Request.encode ⟨c.nextId, command, arguments⟩ = line
      obtain ⟨hm, hi⟩ := h₁.moves.sound.onSupervisor
        (Supervisor.sendLine_ages Link.listener_respects program t.supervisor g line)
        (.inr (Supervisor.sendLine_generation Link.listener program t.supervisor g line))
      have h₂ := h₁.trans ⟨hm, hi,
        Supervisor.sendLine_generation Link.listener program t.supervisor g line⟩
      cases hsend : (Supervisor.sendLine program Link.listener g line).runFrom t.supervisor with
      | mk r u =>
        rw [hsend] at h₂
        cases r with
        | error f =>
          exact ⟨h₂.trans ⟨h₂.moves.sound.forget g c.nextId, rfl, rfl⟩,
            Supervisor.sendLine_error Link.listener program hsend⟩
        | ok _ =>
          refine ⟨h₂, ?_⟩
          simp only [settlePost, Wrote, hline]
          exact Supervisor.sendLine_ok Link.listener program hsend

/-- An answer has come for a request. -/
def Answered (s : Session σ) (g id : Nat) (answer : Answer) : Prop :=
  ∃ c, s.link.channel? g = some c ∧ c.settlement? id = some (.ok ⟨id, answer⟩)

theorem collect_run {g : Nat} {c : Channel} (hc : s.link.channel? g = some c) (id : Nat)
    (command : Command) : (collect g id command).runFrom s =
      ((c.await id command c.timeout).map (·.answer),
        s.mapLink fun l => l.update g (·.forget id)) := by
  simp only [Attempt.runFrom, ExceptT.run, collect, hc]

/-- An answer is returned only if it has settled the request. -/
theorem Sound.collect_answered (h : s.Sound) {g id : Nat} {command : Command} {answer : Answer}
    (ha : ((Session.collect g id command).runFrom s).1 = .ok answer) :
    ((Session.collect g id command).runFrom s).2.Answered g id answer := by
  cases hc : s.link.channel? g with
  | none =>
    simp only [Attempt.runFrom, ExceptT.run, Session.collect, hc] at ha
    cases ha
  | some c =>
    rw [collect_run hc] at ha ⊢
    obtain ⟨c', hc', hage⟩ := (h.forget g id).ages.link g c hc
    have hset : c.settlement? id = some (.ok ⟨id, answer⟩) := by
      unfold Channel.await at ha
      cases hs : c.settlement? id with
      | none =>
        simp only [hs] at ha
        split at ha
        · cases ha
        · split at ha <;> cases ha
      | some r =>
        cases r with
        | error e =>
          simp only [hs] at ha
          cases ha
        | ok r =>
          simp only [hs, Except.map, Except.ok.injEq] at ha
          have hid := (h.link.channel hc).answered id r (Channel.mem_of_settlement hs)
          rw [← ha, ← hid]
    exact ⟨c', hc', hage.settled id _ hset⟩

theorem Sound.collect (h : s.Sound) (hw : s.settings.requestTimeout.IsUsable) (g id : Nat)
    (command : Command) :
    let t := ((collect g id command).runFrom s).2
    s.Stays t ∧
      match ((collect g id command).runFrom s).1 with
      | .ok answer => t.Answered g id answer
      | .error f => ∃ e, f = .engine e := by
  cases hc : s.link.channel? g with
  | none =>
    have : (Session.collect g id command).runFrom s =
        (.error (.engine (.unavailable command.name none (some g))), s) := by
      simp only [Attempt.runFrom, ExceptT.run, Session.collect, hc]
    rw [this]
    exact ⟨h.stays, _, rfl⟩
  | some c =>
    rw [collect_run hc]
    have hf := h.forget g id
    refine ⟨⟨hf, rfl, rfl⟩, ?_⟩
    obtain ⟨c', hc', hage⟩ := hf.ages.link g c hc
    have ht := (h.channels g c hc).2
    unfold Channel.await
    cases hs : c.settlement? id with
    | some r =>
      cases r with
      | ok r =>
        have hid := (h.link.channel hc).answered id r (Channel.mem_of_settlement hs)
        refine ⟨c', hc', hage.settled id _ ?_⟩
        rw [hs, ← hid]
      | error e => exact ⟨e, rfl⟩
    | none =>
      obtain ⟨hwait, ms, hms⟩ := hw
      simp only [ht, hwait, EngineError.timedOut, hms, Except.map]
      exact ⟨_, rfl⟩

/-- A request that is answered has been written, and fails only as the engine does. -/
theorem Sound.send (h : s.Sound) (hw : s.settings.requestTimeout.IsUsable) (g : Nat)
    (command : Command) (arguments : Fields) :
    let t := ((send program g command arguments).runFrom s).2
    s.Stays t ∧
      match ((send program g command arguments).runFrom s).1 with
      | .ok answer => ∃ id, t.Wrote g id command arguments ∧ t.Answered g id answer
      | .error f => ∃ e, f = .engine e := by
  have hp := h.post program g command arguments
  unfold Session.send
  rw [Attempt.runFrom_bind]
  cases hpost : (Session.post program g command arguments).runFrom s with
  | mk r t =>
    rw [hpost] at hp
    obtain ⟨h₁, hr⟩ := hp
    cases r with
    | error f => exact ⟨h₁, hr⟩
    | ok id =>
      have hw' : t.settings.requestTimeout.IsUsable := h₁.moves.ages.settings ▸ hw
      obtain ⟨h₂, hc⟩ := h₁.moves.sound.collect hw' g id command
      refine ⟨h₁.trans h₂, ?_⟩
      dsimp only
      cases hres : ((Session.collect g id command).runFrom t).1 with
      | error f =>
        rw [hres] at hc
        exact hc
      | ok answer =>
        rw [hres] at hc
        exact ⟨id, h₂.moves.ages.log.subset hr, hc⟩

end

end Session

end AssemblyBrowser
