import AssemblyBrowser.Proofs.Browser
import AssemblyBrowser.Proofs.Engine.Abiding
import AssemblyBrowser.Proofs.Engine.Endurance
import AssemblyBrowser.Proofs.Engine.Registry
import AssemblyBrowser.Proofs.Engine.Rehydration
import AssemblyBrowser.Proofs.Engine.Resting
import AssemblyBrowser.Proofs.Engine.Service
/-!
The facts that a session tells about its engine. Its state is read first, and to find out afterwards
whether the engine runs can change it: an engine found to have gone is marked as crashed. Main
statement: the facts are those of one moment unless the session overlooks that its engine has gone, and
it comes to do so only by starting an engine that goes before the session has a channel to it.
-/
namespace AssemblyBrowser

variable {σ : Type}

theorem SessionState.name_injective : Function.Injective SessionState.name := by
  intro state state' h
  cases state <;> cases state' <;> first | rfl | simp [name] at h

/-! ## The child that is held -/

namespace Supervisor

variable {ρ : Type} (listener : Listener ρ) {s : Supervisor σ ρ} {g : Nat}

theorem Consistent.serves (h : s.Consistent) (hended : s.endedGeneration ≤ s.generation)
    (hr : s.isRunning = true) : s.Serves s.generation := by
  obtain ⟨c, hc, hreading, hgreeting⟩ := h.isRunning hended hr
  unfold Supervisor.isRunning heldChild? at hr
  cases hheld : s.held with
  | none => simp [hheld] at hr
  | some g =>
    obtain ⟨rfl, -⟩ := h.held g hheld
    simp only [hheld, Option.bind_some, hc, Bool.and_eq_true, decide_eq_true_eq] at hr
    exact ⟨hheld, rfl, ⟨c, hc, ⟨hreading, hgreeting⟩, hr.2⟩, hr.1⟩

/-- A child that serves goes on serving when a child acts, unless its own end is reported. -/
theorem Serves.act (h : s.Serves g) (g' : Nat) (a : Act) :
    (s.act listener g' a).Serves g ∨
      ∃ exitCode, (s.act listener g' a).owner = listener.ended s.owner g exitCode := by
  have hturn := act_turn listener g' s a
  have hcurrent := h.current
  have hended := h.ended
  obtain ⟨d, hd, hspeaks, halive⟩ := h.child
  by_cases hg : g = g'
  · subst hg
    cases a with
    | print line =>
      by_cases hb : Text.trim line = ""
      · rw [act_blank listener s g hb]
        exact .inl h
      · cases ho : listener.heard s.owner g (Text.trim line) with
        | some o =>
          rw [act_print hd hspeaks hb ho]
          exact .inl (h.of_children rfl rfl rfl)
        | none =>
          obtain ⟨greeting, hgreeting⟩ := Option.isSome_iff_exists.mp hspeaks.greeted
          refine .inr ⟨d.exitCode, ?_⟩
          simp [Supervisor.act, hd, hspeaks.reading, hear, hb, hgreeting, ho, endOutput, setChild]
    | closeOutput =>
      exact .inr ⟨d.exitCode, by simp [Supervisor.act, hd, hspeaks.reading, endOutput, setChild]⟩
    | exit code =>
      refine .inr ⟨d.exitCode.or (some code), ?_⟩
      simp [Supervisor.act, hd, hspeaks.reading, endOutput, setChild]
  · -- another child acts
    refine .inl ⟨hturn.frame.held.trans h.held, hcurrent.trans hturn.frame.generation.symm,
      ⟨d, (hturn.others g hg).trans hd, hspeaks, halive⟩, ?_⟩
    have hlater := hturn.ended
    omega

end Supervisor

/-! ## The channel of a running session -/

namespace Link

variable {l l' : Link} {g : Nat}

/-- A running session has an open channel. -/
def Connected (l : Link) : Prop :=
  l.state = .running → ∃ c, l.installed? = some c ∧ c.isClosed = false

theorem Connected.of_not_running (h : l.state ≠ .running) : l.Connected := fun hs => absurd hs h

theorem Connected.of_channels (h : l.Connected) (hs : l'.state = l.state)
    (hc : l'.channels = l.channels) (hi : l'.installed = l.installed) : l'.Connected := by
  intro hrunning
  obtain ⟨c, hinstalled, hopen⟩ := h (hs ▸ hrunning)
  refine ⟨c, ?_, hopen⟩
  rw [← hinstalled, installed?, installed?, hi]
  exact congrArg _ (funext (channel?_congr hc))

/-- A channel may be replaced by one that is as open. -/
theorem Connected.update (h : l.Connected) {f : Channel → Channel}
    (hgen : ∀ c ∈ l.channels, c.generation = g → (f c).generation = g)
    (hopen : ∀ c, l.channel? g = some c → c.isClosed = false → (f c).isClosed = false) :
    (l.update g f).Connected := by
  intro hs
  obtain ⟨c, hc, ho⟩ := h hs
  obtain ⟨hi, hchannel⟩ := channel_of_installed hc
  have hinstalled : (l.update g f).installed? = (l.update g f).channel? c.generation :=
    installed?_eq hi
  rw [hinstalled, channel?_update l hgen]
  split
  · rename_i hg
    rw [hg] at hchannel
    exact ⟨f c, by rw [hchannel]; rfl, hopen c hchannel ho⟩
  · exact ⟨c, hchannel, ho⟩

theorem connected_respects : listener.Respects fun l l' => l.Sound → l.Hears l' ∧
    (l.Connected → l'.Connected) where
  refl l h := ⟨.refl h, id⟩
  trans h h' hs := by
    obtain ⟨hears, hconnected⟩ := h hs
    obtain ⟨hears', hconnected'⟩ := h' hears.sound
    exact ⟨hears.trans hears', hconnected' ∘ hconnected⟩
  heard {l l' g line} hl hs := by
    refine ⟨hs.hear hl, fun h => ?_⟩
    rcases hear_cases hl with ⟨rfl, -⟩ | ⟨c, c', hi, rfl, hline, rfl⟩
    · exact h
    · obtain ⟨-, hc⟩ := channel_of_installed hi
      obtain ⟨reading, -, rfl⟩ := Channel.handleLine_ok hline
      have hages := ((hs.channel hc).take line reading).2
      refine h.update (fun _ _ _ => hages.generation) fun d hd ho => ?_
      cases hc.symm.trans hd
      rw [Channel.isClosed_take]
      exact ho
  ended l g exitCode hs := by
    refine ⟨hs.markCrashed g exitCode, fun h => ?_⟩
    simp only [listener, markCrashed]
    split
    · exact h
    · split
      · exact h
      · split
        · exact .of_not_running fun hcrashed => by cases hcrashed
        · rename_i hs
          exact .of_not_running hs

end Link

namespace Supervisor

variable {s : Supervisor σ Link}

/-- The owner knows whether the child that is held runs. -/
structure Attentive (s : Supervisor σ Link) : Prop where
  consistent : s.Consistent
  sound : s.owner.Sound
  connected : s.owner.Connected
  current : ∀ g, s.owner.installed = some g → g = s.generation
  ended : s.endedGeneration ≤ s.generation
  awake : s.owner.state = .running → s.isRunning = true

/-- What children do is noticed. -/
theorem Attentive.act (h : s.Attentive) (g : Nat) (a : Act) :
    (s.act Link.listener g a).Attentive := by
  have hturn := act_turn Link.listener g s a
  have hages := act_ages Link.connected_respects g s a
  obtain ⟨hears, hconnected⟩ := hages.owner h.sound
  have hgen := hturn.frame.generation
  refine ⟨h.consistent.act g a, hears.sound, hconnected h.connected, fun g' hi => ?_,
    hages.ended h.ended, fun hs => ?_⟩
  · rw [hgen]
    exact h.current g' (hears.frame.installed ▸ hi)
  · have hbefore : s.owner.state = .running := by
      rcases owner_act Link.crash_respects g s a with hsame | ⟨hrunning, -⟩
      · exact hsame.symm.trans hs
      · exact hrunning
    have hserves := h.consistent.serves h.ended (h.awake hbefore)
    rcases hserves.act Link.listener g a with hstill | ⟨exitCode, hend⟩
    · exact hstill.isRunning
    · -- the end of the child that is held is reported: the session has crashed
      obtain ⟨c, hc, -⟩ := h.connected hbefore
      obtain ⟨hi, hchannel⟩ := Link.channel_of_installed hc
      have hsame := h.current c.generation hi
      rw [hsame] at hi hchannel
      have hcrashed := Link.markCrashed_running hi hchannel hbefore exitCode
      rw [hend, show Link.listener.ended = Link.markCrashed from rfl, hcrashed] at hs
      cases hs

theorem Attentive.acts (h : s.Attentive) (g : Nat) (as : List Act) :
    (s.acts Link.listener g as).Attentive := by
  induction as generalizing s with
  | nil => exact h
  | cons a as ih => exact ih (h.act g a)

theorem Attentive.sendLine (h : s.Attentive) (program : Program σ) (g : Nat) (line : String) :
    ((Supervisor.sendLine program Link.listener g line).runFrom s).2.Attentive := by
  simp only [Attempt.runFrom, ExceptT.run, Supervisor.sendLine]
  split
  · exact h
  · have hwritten : ({ s.record (.write g line) with
        program := (program.react s.program g line).2 } : Supervisor σ Link).Attentive :=
      ⟨h.consistent.of_children (fun _ hg => hg) rfl rfl, h.sound, h.connected, h.current, h.ended,
        h.awake⟩
    have hacts := hwritten.acts g (program.react s.program g line).1.acts
    split <;> exact hacts

end Supervisor

namespace Session

variable {s t u : Session σ} {program : Program σ}

/-- The session is running as far as it knows, but its engine has gone. -/
def Overlooks (s : Session σ) : Prop := s.state = .running ∧ s.supervisor.isRunning = false

/-- A sound session that has an open channel while it is running, and no other that is open. -/
structure Staffed (s : Session σ) : Prop where
  upright : s.Upright
  connected : s.link.Connected

/-- A session later. It overlooks nothing that it did not overlook before, unless another engine has
been started since. -/
structure Leads (s t : Session σ) : Prop where
  staffed : t.Staffed
  generation : s.generation ≤ t.generation
  noticed : t.Overlooks → s.Overlooks ∨ s.generation < t.generation

theorem Leads.trans (h : s.Leads t) (h' : t.Leads u) : s.Leads u where
  staffed := h'.staffed
  generation := Nat.le_trans h.generation h'.generation
  noticed ho := by
    have hle := h'.generation
    rcases h'.noticed ho with ht | hgrown
    · rcases h.noticed ht with hs | hgrown
      · exact .inl hs
      · exact .inr (Nat.lt_of_lt_of_le hgrown hle)
    · exact .inr (Nat.lt_of_le_of_lt h.generation hgrown)

namespace Staffed

variable (h : s.Staffed)
include h

theorem refl : s.Leads s := ⟨h, Nat.le_refl _, .inl⟩

theorem attentive (hn : ¬s.Overlooks) : s.supervisor.Attentive where
  consistent := h.upright.consistent
  sound := h.upright.sound.link
  connected := h.connected
  current := h.upright.sound.current
  ended := h.upright.sound.ended
  awake hs := by
    cases hr : s.supervisor.isRunning with
    | true => rfl
    | false => exact absurd ⟨hs, hr⟩ hn

omit h in
/-- Where the state and what is known of the engine stay, nothing new is overlooked. -/
theorem leads_of_same (ht : t.Staffed) (hgen : t.generation = s.generation)
    (hstate : t.state = .running → s.state = .running)
    (hrunning : t.supervisor.isRunning = s.supervisor.isRunning) : s.Leads t :=
  ⟨ht, Nat.le_of_eq hgen.symm, fun ho => .inl ⟨hstate ho.1, hrunning ▸ ho.2⟩⟩

theorem trace (trace : Option (List TraceRecord)) : s.Leads { s with trace } :=
  leads_of_same ⟨(h.upright.of_trace trace).upright, h.connected⟩ rfl id rfl

theorem loaded (f : OrderedMap String Member → OrderedMap String Member) :
    s.Leads (s.mapLink fun l => { l with loaded := f l.loaded }) :=
  leads_of_same ⟨(h.upright.mapLoaded f).upright, h.connected.of_channels rfl rfl rfl⟩ rfl id rfl

theorem forget (g id : Nat) : s.Leads (s.mapLink fun l => l.update g (·.forget id)) :=
  leads_of_same ⟨(h.upright.forget g id).upright,
    h.connected.update (fun _ _ hg => hg) fun _ _ ho => ho⟩ rfl (fun hs => hs) rfl

theorem collect (g id : Nat) (command : Command) :
    s.Leads ((Session.collect g id command).runFrom s).2 := by
  simp only [Attempt.runFrom, ExceptT.run, Session.collect]
  split
  · exact h.refl
  · exact h.forget g id

/-- What is done with the supervisor under the same generation. -/
theorem onSupervisor {v : Supervisor σ Link}
    (hupright : ({ s with supervisor := v } : Session σ).Upright)
    (hages : Supervisor.Ages (fun l l' => l.Sound → l.Hears l' ∧ (l.Connected → l'.Connected))
      s.supervisor v)
    (hattentive : s.supervisor.Attentive → v.Attentive) :
    s.Leads { s with supervisor := v } := by
  refine ⟨⟨hupright, (hages.owner h.upright.sound.link).2 h.connected⟩, hages.generation,
    fun ho => .inl ?_⟩
  by_contra hn
  have hrunning := (hattentive (h.attentive hn)).awake ho.1
  rw [ho.2] at hrunning
  cases hrunning

theorem happen (g : Nat) (as : List Act) :
    s.Leads { s with supervisor := s.supervisor.happen Link.listener g as } :=
  h.onSupervisor (h.upright.happen g as).upright
    (Supervisor.acts_ages Link.connected_respects g as s.supervisor) fun ha => ha.acts g as

theorem post (program : Program σ) (g : Nat) (command : Command) (arguments : Fields) :
    s.Leads ((Session.post program g command arguments).runFrom s).2 := by
  by_cases htakes : s.Takes g command
  · obtain ⟨hr, c, hc⟩ := id htakes
    have hgen : c.generation = g := (Link.mem_of_channel hc).2
    have henlist : s.Leads (s.enlist g c command arguments) := by
      obtain ⟨htends, -⟩ := h.upright.enlist htakes hc arguments
      have hopen : c.isClosed = false := htakes.isOpen hc
      exact leads_of_same ⟨htends.upright,
        h.connected.update (fun _ _ _ => hgen) fun _ _ _ => hopen⟩ rfl (fun hs => hs) rfl
    rw [post_run program hc hr]
    generalize s.enlist g c command arguments = t at henlist
    generalize Request.encode ⟨c.nextId, command, arguments⟩ = line
    have ht := henlist.staffed
    have hsend := henlist.trans (ht.onSupervisor (ht.upright.sendLine program g line).1.upright
      (Supervisor.sendLine_ages Link.connected_respects program t.supervisor g line)
      fun ha => ha.sendLine program g line)
    cases hresult : (Supervisor.sendLine program Link.listener g line).runFrom t.supervisor with
    | mk r v =>
      rw [hresult] at hsend
      cases r with
      | error f => exact hsend.trans (hsend.staffed.forget g c.nextId)
      | ok _ => exact hsend
  · obtain ⟨e, he⟩ := post_refused program htakes arguments
    rw [he]
    exact h.refl

theorem teardown (reason : String) : s.Leads (s.teardown reason) := by
  have hstopped := s.teardown_state reason
  have hnot : (s.teardown reason).state ≠ .running := by
    rw [hstopped]
    exact fun hs => by cases hs
  exact ⟨⟨(h.upright.teardown reason).upright, .of_not_running hnot⟩,
    (h.upright.sound.teardown reason).1.ages.generation, fun ho => absurd ho.1 hnot⟩

/-- An engine is started that may have gone already. -/
theorem launch (program : Program σ) : s.Leads ((Session.launch program).runFrom s).2 := by
  have hupright := (h.upright.launch program).upright
  obtain ⟨hmoves, hlaunched⟩ := h.upright.sound.launch program
  have hready := (h.teardown "engine restarting").staffed.upright.setState .starting
  obtain ⟨-, hn, hidle⟩ := h.upright.sound.teardown "engine restarting"
  rw [launch_run] at hupright hmoves hlaunched ⊢
  generalize hr : (s.teardown "engine restarting").setState .starting = ready at *
  have hn : ready.link.installed = none := hr ▸ hn
  have hidle : ready.supervisor.isRunning = false := hr ▸ hidle
  have hstate : ready.link.state = .starting := hr ▸ rfl
  have howner := (Supervisor.start_ages Link.silent_respects program ready.supervisor).owner hn
  cases hstart : (Supervisor.start program Link.listener).runFrom ready.supervisor with
  | mk r v =>
    rw [hstart] at hupright hmoves hlaunched howner
    have hlink : v.owner = ready.link := howner
    cases r with
    | error f =>
      have hnot : (settleLaunch (.error f) { ready with supervisor := v }).2.state ≠ .running := by
        have hstarting : ({ ready with supervisor := v } : Session σ).state = .starting :=
          (congrArg Link.state hlink).trans hstate
        cases f with
        | engine e => exact fun hs => by cases hs
        | _ => exact fun hs => by cases hstarting.symm.trans hs
      exact ⟨⟨hupright, .of_not_running hnot⟩, hmoves.ages.generation, fun ho => absurd ho.1 hnot⟩
    | ok g =>
      obtain ⟨-, -, hnew⟩ := hready.upright.started hn hidle hstart
      obtain ⟨hinstalled, -, hgrown⟩ := hlaunched
      refine ⟨⟨hupright, fun _ => ⟨{ generation := g, timeout := ready.settings.requestTimeout }, ?_,
        rfl⟩⟩, hmoves.ages.generation, fun _ => .inr hgrown⟩
      rw [Link.installed?_eq hinstalled]
      have hinstall := Link.channel?_install v.owner
        { generation := g, timeout := ready.settings.requestTimeout } g
      rw [if_pos rfl, show v.owner.channel? g = none from hnew, Option.none_or] at hinstall
      exact hinstall

/-! ## Looking -/

theorem isRunning_of_overlooks (ho : s.Overlooks) :
    s.isRunning.1 = false ∧ s.isRunning.2.state = .crashed := by
  obtain ⟨c, hc, hopen⟩ := h.connected ho.1
  obtain ⟨hi, hchannel⟩ := Link.channel_of_installed hc
  have hcurrent := h.upright.sound.current c.generation hi
  rw [hcurrent] at hi hchannel
  have hlook : s.isRunning = (false, s.mapLink fun l => l.markCrashed s.generation none) := by
    simp [Session.isRunning, hc, ho.1, hopen, ho.2]
  rw [hlook]
  exact ⟨rfl, congrArg Link.state (Link.markCrashed_running hi hchannel ho.1 none)⟩

theorem isRunning_of_not_overlooks (hn : ¬s.Overlooks) :
    (s.isRunning.1 = true ↔ s.state = .running) ∧ s.isRunning.2 = s := by
  have hiff : s.isRunning.1 = true ↔ s.state = .running := by
    rw [isRunning_iff]
    exact ⟨fun hall => hall.2.1, fun hs => ⟨h.connected hs, hs, (h.attentive hn).awake hs⟩⟩
  refine ⟨hiff, ?_⟩
  unfold Session.isRunning
  cases hi : s.link.installed? with
  | none => rfl
  | some c =>
    by_cases hs : s.state = .running
    · have hr := (h.attentive hn).awake hs
      simp only [hr, if_true]
      split <;> rfl
    · simp [hs]

/-- Looking finds out what the session overlooks. -/
theorem look : s.Leads s.isRunning.2 ∧ ¬s.isRunning.2.Overlooks := by
  by_cases ho : s.Overlooks
  · obtain ⟨-, hcrashed⟩ := h.isRunning_of_overlooks ho
    have hnot : s.isRunning.2.state ≠ .running := by
      rw [hcrashed]
      exact fun hs => by cases hs
    exact ⟨⟨⟨h.upright.isRunning.upright, .of_not_running hnot⟩,
      Nat.le_of_eq h.upright.spares_isRunning.generation.symm, fun ho => absurd ho.1 hnot⟩,
      fun ho => hnot ho.1⟩
  · rw [(h.isRunning_of_not_overlooks ho).2]
    exact ⟨h.refl, ho⟩

end Staffed

/-- Whatever callers do, and children: only to start an engine can make a session overlook one. -/
theorem leads_abiding (program : Program σ) (s : Session σ) : Abiding program s.Leads where
  trace h trace := h.trans (h.staffed.trace trace)
  isRunning h := h.trans h.staffed.look.1
  teardown h reason := h.trans (h.staffed.teardown reason)
  launch h := h.trans (h.staffed.launch program)
  collect h g id command := h.trans (h.staffed.collect g id command)
  loaded h f := h.trans (h.staffed.loaded f)
  post h g command arguments := h.trans (h.staffed.post program g command arguments)
  happen h g as := h.trans (h.staffed.happen g as)

theorem staffed_new (settings : EngineSettings) (locator : Option Locator)
    (environment : OrderedMap String String) (w : σ) (traced : Bool) :
    (Session.new settings locator environment w traced).Staffed :=
  ⟨upright_new settings locator environment w traced, .of_not_running fun hs => by cases hs⟩

/-! ## Facts -/

/-- Facts that say that the engine runs exactly if they say that the session is running. -/
def Concordant (facts : Fields) : Prop :=
  ∃ (state : SessionState) (running : Bool), Assoc.find? "state" facts = some (.text state.name) ∧
    Assoc.find? "running" facts = some (.bool running) ∧ (running = true ↔ state = .running)

/-- Facts that are those of the live child that is held. -/
structure Identifies (facts : Fields) (s : Session σ) (c : Child) : Prop where
  held : s.supervisor.held = some s.generation
  child : s.supervisor.child? s.generation = some c
  alive : c.isAlive = true
  pid : Assoc.find? "pid" facts = some (.integer c.pid)
  generation : Assoc.find? "generation" facts = some (.integer s.generation)

/-- Facts about the installation do not get in the way of those about the engine. -/
theorem installation_keys {m : Machine} {found : Fields}
    (h : (installation m).runFrom s = (.ok found, t)) {k : String}
    (hk : k ∈ ["state", "running", "pid", "generation"]) :
    k ∉ Assoc.keys found ∧ ∃ locator, t = { s with locator } := by
  simp only [Attempt.runFrom, ExceptT.run, installation] at h
  cases hl : s.locator with
  | none =>
    simp only [hl, Prod.mk.injEq, Except.ok.injEq] at h
    obtain ⟨rfl, rfl⟩ := h
    exact ⟨List.not_mem_nil, none, by rw [← hl]⟩
  | some l =>
    simp only [hl, Prod.mk.injEq] at h
    obtain ⟨hfound, rfl⟩ := h
    refine ⟨?_, _, rfl⟩
    obtain ⟨engine, l₁, -, hrest⟩ := Attempt.bind_returns (Prod.ext hfound rfl :
      (Locator.diagnose m).runFrom l = (.ok found, ((Locator.diagnose m).runFrom l).2))
    obtain ⟨host, l₂, -, hrest⟩ := Attempt.bind_returns hrest
    rw [Attempt.runFrom_bind_ok (Attempt.runFrom_get l₂)] at hrest
    cases hrest
    simp only [List.mem_cons, List.not_mem_nil, or_false] at hk
    rcases hk with rfl | rfl | rfl | rfl <;> simp [Assoc.keys]

/-- What is told: the state before it is looked whether the engine runs, and all else after that. -/
structure Told (facts : Fields) (s t : Session σ) : Prop where
  state : Assoc.find? "state" facts = some (.text s.state.name)
  running : Assoc.find? "running" facts = some (.bool s.isRunning.1)
  pid : Assoc.find? "pid" facts = some (.ofInteger? (t.supervisor.pid?.map Int.ofNat))
  generation : Assoc.find? "generation" facts = some (.integer t.generation)

theorem diagnose_tells {m : Machine} {facts : Fields}
    (h : (diagnose m).runFrom s = (.ok facts, t)) :
    ∃ locator, t = ({ s with locator } : Session σ).isRunning.2 ∧ Told facts { s with locator } t := by
  obtain ⟨found, s₁, hfound, hrest⟩ := Attempt.bind_returns h
  obtain ⟨locator, rfl⟩ := (installation_keys hfound (k := "state") (by simp)).2
  have hnow : (runningNow : Attempt (Session σ) Bool).runFrom { s with locator } =
      (.ok ({ s with locator } : Session σ).isRunning.1,
        ({ s with locator } : Session σ).isRunning.2) := rfl
  rw [Attempt.runFrom_bind_ok (Attempt.runFrom_get _), Attempt.runFrom_bind_ok hnow,
    Attempt.runFrom_bind_ok (Attempt.runFrom_get _)] at hrest
  cases hrest
  have hfind := fun k hk => Assoc.find?_foldl_put (installation_keys hfound (k := k) hk).1
  refine ⟨locator, rfl, ?_, ?_, ?_, ?_⟩ <;>
    rw [Assoc.find?_append, hfind _ (by simp)] <;> rfl

namespace Staffed

variable (h : s.Staffed)
include h

theorem locator (locator : Option Locator) : s.Leads { s with locator } :=
  leads_of_same ⟨⟨⟨h.upright.sound.link, h.upright.sound.channels, h.upright.sound.current,
    h.upright.sound.ended⟩, h.upright.consistent, h.upright.tidy⟩, h.connected⟩ rfl (fun hs => hs) rfl

/-- What is told is of one moment unless something is overlooked. -/
theorem concordant_iff {facts : Fields} (ht : Told facts s s.isRunning.2) :
    Concordant facts ↔ ¬s.Overlooks := by
  constructor
  · rintro ⟨state, running, hstate, hrunning, hiff⟩ ho
    rw [ht.state] at hstate
    rw [ht.running] at hrunning
    obtain rfl := SessionState.name_injective (Json.text.inj (Option.some.inj hstate))
    obtain rfl := Json.bool.inj (Option.some.inj hrunning)
    rw [(h.isRunning_of_overlooks ho).1] at hiff
    cases hiff.mpr ho.1
  · intro hn
    exact ⟨s.state, s.isRunning.1, ht.state, ht.running, (h.isRunning_of_not_overlooks hn).1⟩

/-- The engine that is said to run is the live child that is held. -/
theorem identifies {facts : Fields} (ht : Told facts s s.isRunning.2)
    (hr : Assoc.find? "running" facts = some (.bool true)) :
    ∃ c, Identifies facts s.isRunning.2 c := by
  have hrunning : s.isRunning.1 = true := by
    rw [ht.running] at hr
    exact Json.bool.inj (Option.some.inj hr)
  have hn : ¬s.Overlooks := fun ho => by
    rw [(h.isRunning_of_overlooks ho).1] at hrunning
    cases hrunning
  have hsame := (h.isRunning_of_not_overlooks hn).2
  have hserves := h.upright.consistent.serves h.upright.sound.ended (isRunning_iff.mp hrunning).2.2
  obtain ⟨c, hc, -, halive⟩ := hserves.child
  have hpid := ht.pid
  have hgen := ht.generation
  rw [hsame] at hpid hgen ⊢
  refine ⟨c, hserves.held, hc, halive, ?_, hgen⟩
  rw [hpid, Supervisor.pid?, Supervisor.heldChild?, hserves.held, Option.bind_some, hc]
  rfl

theorem diagnose (m : Machine) : s.Leads ((Session.diagnose m).runFrom s).2 := by
  have hinstallation : Keeps s.Leads (installation m : Attempt (Session σ) Fields) := by
    intro t ht
    simp only [Attempt.runFrom, ExceptT.run, installation]
    split
    · exact ht
    · exact ht.trans (ht.staffed.locator _)
  have hnow : Keeps s.Leads (runningNow : Attempt (Session σ) Bool) :=
    fun _ ht => ht.trans ht.staffed.look.1
  exact hinstallation.bind (fun _ => keeps_get.bind fun _ => hnow.bind fun _ =>
    keeps_get.bind fun _ => .pure _) s h.refl

end Staffed

end Session

/-! ## Runs -/

/-- What happens to a session of several callers that is also asked for facts. -/
inductive InquiryStep
  | step (x : CallersStep)
  | diagnose (m : Machine)

def InquiryStep.after (program : Program σ) (x : InquiryStep) (c : Callers σ) : Callers σ :=
  match x with
  | .step x => x.after program c
  | .diagnose m => c.withSession ((Session.diagnose m).runFrom c.session).2

namespace Callers

/-- The callers after a run. -/
def inquiring (program : Program σ) (xs : List InquiryStep) (c : Callers σ) : Callers σ :=
  xs.foldl (fun c x => x.after program c) c

end Callers

namespace Session

variable {program : Program σ} {s : Session σ} {c : Callers σ}

theorem Leads.after (h : s.Leads c.session) (x : InquiryStep) :
    s.Leads (x.after program c).session := by
  cases x with
  | step x => exact (leads_abiding program s).after h x
  | diagnose m => exact h.trans (h.staffed.diagnose m)

theorem Leads.inquiring (h : s.Leads c.session) (xs : List InquiryStep) :
    s.Leads (c.inquiring program xs).session := by
  induction xs generalizing c with
  | nil => exact h
  | cons x xs ih => exact ih (h.after x)

end Session

namespace Callers

open Session

/-- An engine that greets and is gone. -/
def brief : Program Unit where
  launch w := (.started {} [.print "\x7b\"event\": \"ready\"\x7d", .exit 0], w)
  react w _ _ := (⟨[], none⟩, w)

def briefCallers : Callers Unit :=
  inquiring brief [.step (.alone .ensureRunning)] (fresh plainSettings none ∅ () false)

theorem briefCallers_overlooks :
    briefCallers.session.locator = none ∧ briefCallers.session.Overlooks :=
  ⟨by decide +kernel, by decide +kernel, by decide +kernel⟩

end Callers

end AssemblyBrowser
