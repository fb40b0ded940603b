import AssemblyBrowser.Proofs.Engine.Attribution
/-!
The requests that several callers wait for. Only the installed channel is open, and a caller that waits
for the answer to a request waits for one that is still with its channel: the request waits there, alone
under its id, or it has been settled. Main statement: whatever the other callers and the children do,
and in whatever order, keeps this so, and what has been settled stays settled.
-/
namespace AssemblyBrowser

/-! ## Channels -/

namespace Channel

variable {c c' : Channel} {id : Nat} {command : Command}

/-- A request waits at an open channel, and no other has its id. -/
structure Awaits (c : Channel) (id : Nat) (command : Command) : Prop where
  pending : (id, command) ∈ c.pending
  only : ∀ command', (id, command') ∈ c.pending → command' = command
  isOpen : c.isClosed = false

/-- A request waits, or has been settled. -/
def Minds (c : Channel) (id : Nat) (command : Command) : Prop :=
  c.Awaits id command ∨ (c.settlement? id).isSome = true

/-- A channel later: it has lost no request and has not been opened again. -/
structure Tends (c c' : Channel) : Prop where
  ages : c.Ages c'
  isOpen : c'.isClosed = false → c.isClosed = false
  minds : ∀ id command, c.Minds id command → c'.Minds id command

theorem Ages.isSome (h : c.Ages c') (hs : (c.settlement? id).isSome = true) :
    (c'.settlement? id).isSome = true := by
  obtain ⟨r, hr⟩ := Option.isSome_iff_exists.mp hs
  rw [h.settled id r hr]
  rfl

theorem Minds.lt (h : c.Minds id command) (hs : c.Sound) : id < c.nextId := by
  rcases h with hw | hd
  · exact hs.pending _ hw.pending
  · obtain ⟨r, hr⟩ := Option.isSome_iff_exists.mp hd
    exact hs.settled _ (mem_of_settlement hr)

/-- Where no other request has its id, a request fails with the error for its own command. -/
theorem settlement_failed (h : c.Sound) (hp : (id, command) ∈ c.pending)
    (honly : ∀ command', (id, command') ∈ c.pending → command' = command)
    (error : Command → EngineError) :
    (c.failAll error).settlement? id = some (.error (error command)) := by
  have hmem : (id, (.error (error command) : Settlement)) ∈ (c.failAll error).settled := by
    simp only [failAll, List.mem_append, List.mem_reverse, List.mem_map]
    exact .inl ⟨_, hp, rfl⟩
  cases hs : (c.failAll error).settlement? id with
  | none =>
    have hnone := List.lookup_eq_none_iff.mp hs _ hmem
    simp at hnone
  | some r =>
    have hr := mem_of_settlement hs
    simp only [failAll, List.mem_append, List.mem_reverse, List.mem_map, Prod.mk.injEq] at hr
    rcases hr with ⟨⟨id', command'⟩, hp', rfl, rfl⟩ | hold
    · rw [honly command' hp']
    · exact absurd rfl (h.apart _ hp _ hold)

theorem Awaits.settle (h : c.Awaits id command) (id' : Nat) (r : Settlement) :
    (c.settle id' r).Minds id command := by
  by_cases hid : id = id'
  · subst hid
    exact .inr (by simp [Channel.settle, settlement?])
  · refine .inl ⟨?_, fun command' hp => h.only command' (List.mem_filter.mp hp).1, h.isOpen⟩
    exact List.mem_filter.mpr ⟨h.pending, by simpa using hid⟩

/-- A request that all fail with is settled. -/
theorem Awaits.failAll (h : c.Awaits id command) (hs : c.Sound) (error : Command → EngineError) :
    (c.failAll error).Minds id command := by
  refine .inr ?_
  rw [settlement_failed hs h.pending h.only error]
  rfl

theorem Sound.tends_take (h : c.Sound) (line : String) (reading : Reading) :
    c.Tends (c.take line reading) := by
  have hages := (h.take line reading).2
  refine ⟨hages, fun ho => ?_, fun id command hm => ?_⟩
  · obtain ⟨pending, settled, htake, -⟩ := c.take_eq line reading
    rw [htake] at ho
    exact ho
  · rcases hm with hw | hd
    · cases reading with
      | event => exact .inl hw
      | response r =>
        simp only [Channel.take]
        split
        · exact hw.settle _ _
        · exact .inl hw
      | malformed e claimed =>
        simp only [Channel.take]
        split
        · exact hw.settle _ _
        · exact hw.failAll h _
    · exact .inr (hages.isSome hd)

/-- What an open channel is closed for, its requests fail with. -/
theorem settlement_close (h : c.Sound) (hw : c.Awaits id command) (reason : String) :
    (c.close reason).settlement? id =
      some (.error (.unavailable command.name (some reason) (some c.generation))) := by
  have hsound : ({ c with closedReason := some reason } : Channel).Sound :=
    ⟨h.pending, h.settled, h.apart, h.answered⟩
  have hopen := hw.isOpen
  simp only [close, hopen, Bool.false_eq_true, if_false]
  exact settlement_failed hsound hw.pending hw.only fun command =>
    .unavailable command.name (some reason) (some c.generation)

theorem Sound.tends_close (h : c.Sound) (reason : String) : c.Tends (c.close reason) := by
  have hages := (h.close reason).2
  refine ⟨hages, fun ho => ?_, fun id command hm => .inr ?_⟩
  · rw [c.isClosed_close reason] at ho
    cases ho
  · rcases hm with hw | hd
    · rw [settlement_close h hw reason]
      rfl
    · exact hages.isSome hd

theorem Sound.tends_register (h : c.Sound) (command : Command) (arguments : Fields) :
    c.Tends (c.register command arguments).2 := by
  refine ⟨c.register_ages command arguments, fun ho => ho, fun id command' hm => ?_⟩
  rcases hm with hw | hd
  · refine .inl ⟨List.mem_append_left _ hw.pending, fun command'' hp => ?_, hw.isOpen⟩
    rcases List.mem_append.mp hp with hold | hnew
    · exact hw.only command'' hold
    · -- the new request has an id of its own
      have hlt : id < c.nextId := h.pending _ hw.pending
      have hid : id = c.nextId := congrArg Prod.fst (List.mem_singleton.mp hnew)
      omega
  · exact .inr hd

/-- The request that is registered waits. -/
theorem Sound.minds_register (h : c.Sound) (hopen : c.isClosed = false) (command : Command)
    (arguments : Fields) : (c.register command arguments).2.Minds c.nextId command := by
  refine .inl ⟨List.mem_append_right _ (List.mem_singleton.mpr rfl), fun command' hp => ?_, hopen⟩
  rcases List.mem_append.mp hp with hold | hnew
  · exact absurd (h.pending _ hold) (Nat.lt_irrefl _)
  · exact congrArg Prod.snd (List.mem_singleton.mp hnew)

theorem Minds.forget (h : c.Minds id command) {id' : Nat} (hid : id ≠ id') :
    (c.forget id').Minds id command := by
  rcases h with hw | hd
  · refine .inl ⟨?_, fun command' hp => hw.only command' (List.mem_filter.mp hp).1, hw.isOpen⟩
    exact List.mem_filter.mpr ⟨hw.pending, by simpa using hid⟩
  · exact .inr hd

end Channel

/-! ## Supervisors and links -/

namespace Supervisor

variable {σ ρ : Type} {s t : Supervisor σ ρ}

/-- A child that does not run does not run again. -/
theorem Turn.idle {g : Nat} (h : Turn g s t) (hr : s.isRunning = false) : t.isRunning = false := by
  have hgen := h.frame.generation
  have hlater := h.ended
  cases hheld : s.held with
  | none => exact isRunning_of_held_none (h.frame.held.trans hheld)
  | some g' =>
    have hheld' : t.held = some g' := h.frame.held.trans hheld
    cases hd : t.child? g' with
    | none => simp [Supervisor.isRunning, heldChild?, hheld', hd]
    | some d =>
      obtain ⟨c, hc, hgrows⟩ := h.wanes.back hd
      simp only [Supervisor.isRunning, heldChild?, hheld, hheld', hc, hd, Option.bind_some,
        Bool.and_eq_false_iff, decide_eq_false_iff_not, ne_eq, Decidable.not_not] at hr ⊢
      rcases hr with hover | hdead
      · left
        omega
      · right
        cases hlive : d.isAlive with
        | false => rfl
        | true => exact absurd (hgrows.alive hlive) (by simp [hdead])

theorem Consistent.sendLine {listener : Listener ρ} (h : s.Consistent) (program : Program σ) (g : Nat)
    (line : String) : ((Supervisor.sendLine program listener g line).runFrom s).2.Consistent := by
  simp only [Attempt.runFrom, ExceptT.run, Supervisor.sendLine]
  split
  · exact h
  · have hwritten : ({ s.record (.write g line) with
        program := (program.react s.program g line).2 } : Supervisor σ ρ).Consistent :=
      h.of_children (fun _ hg => hg) rfl rfl
    have hacts := (consistent_keptByStop listener).acts hwritten g
      (program.react s.program g line).1.acts
    split <;> exact hacts

end Supervisor

namespace Link

variable {l l' l'' : Link} {g id : Nat} {command : Command}

theorem Hears.absent (h : l.Hears l') (hn : l.channel? g = none) : l'.channel? g = none := by
  cases hc : l'.channel? g with
  | none => rfl
  | some c =>
    obtain ⟨d, hd, -⟩ := h.back hc
    rw [hn] at hd
    cases hd

/-- Only the installed channel is open. -/
def Tidy (l : Link) : Prop :=
  ∀ g c, l.channel? g = some c → c.isClosed = false → l.installed = some g

/-- A request is with the channel of a generation. -/
def Minds (l : Link) (g id : Nat) (command : Command) : Prop :=
  ∃ c, l.channel? g = some c ∧ c.Minds id command

/-- A link later that has lost no request. -/
structure Tends (l l' : Link) : Prop where
  tidy : l.Tidy → l'.Tidy
  minds : ∀ g id command, l.Minds g id command → l'.Minds g id command

theorem Tends.refl (l : Link) : l.Tends l := ⟨fun h => h, fun _ _ _ h => h⟩

theorem Tends.trans (h : l.Tends l') (h' : l'.Tends l'') : l.Tends l'' :=
  ⟨h'.tidy ∘ h.tidy, fun g id command hm => h'.minds g id command (h.minds g id command hm)⟩

theorem channel?_congr (h : l'.channels = l.channels) (g : Nat) : l'.channel? g = l.channel? g := by
  simp only [channel?, h]

theorem Tidy.of_channels (h : l.Tidy) (hc : l'.channels = l.channels)
    (hi : l'.installed = l.installed) : l'.Tidy := fun g c hg ho =>
  hi.trans (h g c ((channel?_congr hc g).symm.trans hg) ho)

theorem Minds.of_channels (h : l.Minds g id command) (hc : l'.channels = l.channels) :
    l'.Minds g id command := by
  obtain ⟨c, hg, hm⟩ := h
  exact ⟨c, (channel?_congr hc g).trans hg, hm⟩

theorem Tends.of_channels (hc : l'.channels = l.channels) (hi : l'.installed = l.installed) :
    l.Tends l' := ⟨fun h => h.of_channels hc hi, fun _ _ _ h => h.of_channels hc⟩

section

variable {f : Channel → Channel} {g' : Nat}
  (hgen : ∀ c ∈ l.channels, c.generation = g' → (f c).generation = g')
include hgen

theorem Tidy.update (h : l.Tidy)
    (hf : ∀ c, l.channel? g' = some c → (f c).isClosed = false → c.isClosed = false) :
    (l.update g' f).Tidy := by
  intro g c hg ho
  rw [channel?_update l hgen] at hg
  split at hg
  · rename_i hsame
    obtain ⟨d, hd, rfl⟩ := Option.map_eq_some_iff.mp hg
    exact h g d (hsame ▸ hd) (hf d hd ho)
  · exact h g c hg ho

theorem Minds.update (h : l.Minds g id command)
    (hf : ∀ c, g = g' → c.Minds id command → l.channel? g' = some c → (f c).Minds id command) :
    (l.update g' f).Minds g id command := by
  obtain ⟨c, hc, hm⟩ := h
  by_cases hg : g = g'
  · refine ⟨f c, ?_, hf c hg hm (hg ▸ hc)⟩
    rw [channel?_update l hgen, if_pos hg, ← hg, hc]
    rfl
  · refine ⟨c, ?_, hm⟩
    rw [channel?_update l hgen, if_neg hg, hc]

end

/-- A channel may be replaced by a later one that has lost no request. -/
theorem Sound.tends_update (h : l.Sound) {f : Channel → Channel}
    (hf : ∀ c, l.channel? g = some c → c.Tends (f c)) : l.Tends (l.update g f) := by
  have hgen : ∀ c ∈ l.channels, c.generation = g → (f c).generation = g := fun c hc hg =>
    (hf c (hg ▸ h.channel_of_mem hc)).ages.generation.trans hg
  exact ⟨fun ht => ht.update hgen fun c hc => (hf c hc).isOpen, fun _ _ _ hm =>
    hm.update hgen fun c _ hm hc => (hf c hc).minds _ _ hm⟩

/-- No report loses a request. -/
theorem tends_respects : listener.Respects fun l l' => l.Sound → l.Hears l' ∧ l.Tends l' where
  refl l h := ⟨.refl h, .refl l⟩
  trans h h' hs := by
    obtain ⟨hears, htends⟩ := h hs
    obtain ⟨hears', htends'⟩ := h' hears.sound
    exact ⟨hears.trans hears', htends.trans htends'⟩
  heard {l l' g line} hl hs := by
    refine ⟨hs.hear hl, ?_⟩
    rcases hear_cases hl with ⟨rfl, -⟩ | ⟨c, c', hi, rfl, hline, rfl⟩
    · exact .refl _
    · obtain ⟨-, hc⟩ := channel_of_installed hi
      refine hs.tends_update fun d hd => ?_
      cases hc.symm.trans hd
      obtain ⟨reading, -, rfl⟩ := Channel.handleLine_ok hline
      exact (hs.channel hc).tends_take line reading
  ended l g exitCode hs := by
    have hclose : l.Tends (l.update g fun c => c.close (crashReason exitCode)) :=
      hs.tends_update fun c hc => (hs.channel hc).tends_close _
    refine ⟨hs.markCrashed g exitCode, ?_⟩
    simp only [listener, markCrashed]
    split
    · exact .refl l
    · split
      · exact .refl l
      · split
        · exact hclose.trans (.of_channels rfl rfl)
        · exact hclose

/-- The installed channel is taken away, closed. -/
theorem Sound.tends_uninstall (h : l.Sound) (hi : l.installed = some g) (reason : String) :
    l.Tends (({ l with installed := none } : Link).update g (·.close reason)) := by
  have hgen : ∀ c ∈ ({ l with installed := none } : Link).channels, c.generation = g →
      (c.close reason).generation = g := fun c _ hc => (c.generation_close reason).trans hc
  refine ⟨fun ht g' c hc ho => ?_, fun g' id command hm => ?_⟩
  · rw [channel?_update _ hgen] at hc
    split at hc
    · obtain ⟨d, -, rfl⟩ := Option.map_eq_some_iff.mp hc
      rw [d.isClosed_close reason] at ho
      cases ho
    · rename_i hg
      have hother := ht g' c hc ho
      exact absurd (Option.some.inj (hother.symm.trans hi)) hg
  · have hsame : ({ l with installed := none } : Link).Minds g' id command := hm.of_channels rfl
    exact hsame.update hgen fun c _ hm hc => ((h.channel hc).tends_close reason).minds _ _ hm

/-- A channel is installed where there is none. -/
theorem tends_install (hn : l.installed = none) (c : Channel) : l.Tends (l.install c) := by
  refine ⟨fun ht g d hd ho => ?_, fun g id command hm => ?_⟩
  · rw [channel?_install, Option.or_eq_some_iff] at hd
    rcases hd with hold | ⟨-, hnew⟩
    · have hi := ht g d hold ho
      rw [hn] at hi
      cases hi
    · split at hnew
      · rename_i hg
        exact congrArg some hg
      · cases hnew
  · obtain ⟨d, hd, hm⟩ := hm
    exact ⟨d, by rw [channel?_install, hd, Option.some_or], hm⟩

end Link

/-! ## Sessions -/

namespace Session

variable {σ : Type} {s t u : Session σ}

/-- A sound session in which only the installed channel is open. -/
structure Upright (s : Session σ) : Prop where
  sound : s.Sound
  consistent : s.supervisor.Consistent
  tidy : s.link.Tidy

/-- A session later that has lost no request. -/
structure Tends (s t : Session σ) : Prop where
  upright : t.Upright
  ages : s.link.Ages t.link
  minds : ∀ g id command, s.link.Minds g id command → t.link.Minds g id command

theorem Tends.trans (h : s.Tends t) (h' : t.Tends u) : s.Tends u :=
  ⟨h'.upright, h.ages.trans h'.ages, fun g id command hm =>
    h'.minds g id command (h.minds g id command hm)⟩

theorem upright_new (settings : EngineSettings) (locator : Option Locator)
    (environment : OrderedMap String String) (w : σ) (traced : Bool) :
    (Session.new settings locator environment w traced).Upright where
  sound := sound_new settings locator environment w traced
  consistent := ⟨fun _ hg => (by cases hg), fun g c hc => by simp [Session.new, Supervisor.child?] at hc⟩
  tidy _ _ hc := by cases hc

/-- What waits when the channel is taken away fails for the reason of it. -/
theorem Sound.closeChannel_settles (h : s.Sound) {g id : Nat} {command : Command} {c : Channel}
    (hi : s.link.installed = some g) (hc : s.link.channel? g = some c) (hw : c.Awaits id command)
    (reason : String) :
    ∃ c', (s.closeChannel reason).link.channel? g = some c' ∧ c'.settlement? id =
      some (.error (.unavailable command.name (some reason) (some g))) := by
  have hclosed := Channel.settlement_close (h.link.channel hc) hw reason
  rw [(Link.mem_of_channel hc).2] at hclosed
  refine ⟨_, ?_, hclosed⟩
  simp only [Session.closeChannel, hi]
  have hupdate := ({ s.link with installed := none } : Link).channel?_update
    (f := (·.close reason)) (g := g) (fun d _ hd => (d.generation_close _).trans hd) g
  rw [if_pos rfl, show ({ s.link with installed := none } : Link).channel? g = _ from hc] at hupdate
  exact hupdate

namespace Upright

variable (h : s.Upright)
include h

theorem refl : s.Tends s := ⟨h, .refl _, fun _ _ _ hm => hm⟩

theorem of_trace (trace : Option (List TraceRecord)) : s.Tends { s with trace } :=
  ⟨⟨h.sound.of_trace trace, h.consistent, h.tidy⟩, .refl _, fun _ _ _ hm => hm⟩

theorem mapLink {f : Link → Link} (hsound : (s.mapLink f).Sound) (hages : s.link.Ages (f s.link))
    (htends : s.link.Tends (f s.link)) : s.Tends (s.mapLink f) :=
  ⟨⟨hsound, h.consistent.of_children (fun _ hg => hg) rfl rfl, htends.tidy h.tidy⟩, hages,
    htends.minds⟩

theorem setState (state : SessionState) : s.Tends (s.setState state) :=
  have hmoves := h.sound.setState state
  h.mapLink hmoves.sound hmoves.ages.link (.of_channels rfl rfl)

theorem mapLoaded (f : OrderedMap String Member → OrderedMap String Member) :
    s.Tends (s.mapLink fun l => { l with loaded := f l.loaded }) :=
  h.mapLink (h.sound.mapLoaded f).1 (.of_channels rfl) (.of_channels rfl rfl)

theorem isRunning : s.Tends s.isRunning.2 := by
  have hmoves := h.sound.mapLink (f := (·.markCrashed s.generation none))
    (h.sound.link.markCrashed s.generation none)
  have hcrashed : s.Tends (s.mapLink (·.markCrashed s.generation none)) :=
    h.mapLink hmoves.sound hmoves.ages.link
      (Link.tends_respects.ended s.link s.generation none h.sound.link).2
  unfold Session.isRunning
  split
  · exact h.refl
  · split
    · exact h.refl
    · split
      · exact h.refl
      · exact hcrashed

/-- What is done with the supervisor loses no request. -/
theorem onSupervisor {v : Supervisor σ Link}
    (ha : Supervisor.Ages (fun l l' => l.Sound → l.Hears l' ∧ l.Tends l') s.supervisor v)
    (hconsistent : v.Consistent) (hg : s.link.installed = none ∨ v.generation = s.generation) :
    s.Tends { s with supervisor := v } := by
  obtain ⟨hears, htends⟩ := ha.owner h.sound.link
  have hages : Supervisor.Ages (fun l l' => l.Sound → l.Hears l') s.supervisor v :=
    ⟨ha.options, ha.log, ha.generation, ha.ended, fun _ => hears⟩
  obtain ⟨hmoves, -⟩ := h.sound.onSupervisor hages hg
  exact ⟨⟨hmoves.sound, hconsistent, htends.tidy h.tidy⟩, hears.ages, htends.minds⟩

theorem happen (g : Nat) (as : List Act) :
    s.Tends { s with supervisor := s.supervisor.happen Link.listener g as } :=
  h.onSupervisor (Supervisor.acts_ages Link.tends_respects g as s.supervisor)
    ((Supervisor.consistent_keptByStop _).acts h.consistent g as)
    (.inr (Supervisor.acts_turn Link.listener g as s.supervisor).frame.generation)

/-! The engine is stopped, and another one started. -/

theorem closeChannel (reason : String) : s.Tends (s.closeChannel reason) := by
  have hmoves := (h.sound.closeChannel reason).1
  unfold Session.closeChannel at hmoves ⊢
  cases hi : s.link.installed with
  | none => exact h.refl
  | some g =>
    simp only [hi] at hmoves ⊢
    exact h.mapLink hmoves.sound hmoves.ages.link (h.sound.link.tends_uninstall hi reason)

theorem stop (hn : s.link.installed = none) :
    s.Tends { s with supervisor := s.supervisor.stop Link.listener } :=
  h.onSupervisor (Supervisor.stop_ages Link.tends_respects s.supervisor)
    ((Supervisor.consistent_keptByStop _).stop h.consistent) (.inl hn)

theorem haltEngine (hn : s.link.installed = none) : s.Tends s.haltEngine := by
  have hstopping := h.setState .stopping
  have hstopped := hstopping.upright.stop hn
  unfold Session.haltEngine
  split
  · exact h.refl
  · exact (hstopping.trans hstopped).trans (hstopped.upright.setState .stopped)

theorem teardown (reason : String) : s.Tends (s.teardown reason) := by
  have hteardown : s.teardown reason = (s.closeChannel reason).haltEngine := rfl
  have hclose := h.closeChannel reason
  rw [hteardown]
  exact hclose.trans (hclose.upright.haltEngine (h.sound.closeChannel reason).2)

theorem start (program : Program σ) (hn : s.link.installed = none) :
    s.Tends { s with
      supervisor := ((Supervisor.start program Link.listener).runFrom s.supervisor).2 } :=
  h.onSupervisor (Supervisor.start_ages Link.tends_respects program s.supervisor)
    ((Supervisor.consistent_keptByStart program Link.listener).start h.consistent) (.inl hn)

/-- An engine that is started where none runs has no channel yet. -/
theorem started {program : Program σ} (hn : s.link.installed = none)
    (hidle : s.supervisor.isRunning = false) {g : Nat} {v : Supervisor σ Link}
    (hstart : (Supervisor.start program Link.listener).runFrom s.supervisor = (.ok g, v)) :
    ({ s with supervisor := v } : Session σ).link.installed = none ∧
      ({ s with supervisor := v } : Session σ).generation = g ∧
      ({ s with supervisor := v } : Session σ).link.channel? g = none := by
  have howner := (Supervisor.start_ages Link.silent_respects program s.supervisor).owner hn
  rw [hstart] at howner
  have hlink : ({ s with supervisor := v } : Session σ).link = s.link := howner
  obtain ⟨hg, hnew, -⟩ := Supervisor.start_ok Link.listener program hidle hstart
  refine ⟨hlink ▸ hn, hg.symm, ?_⟩
  rw [hlink]
  cases hc : s.link.channel? g with
  | none => rfl
  | some c =>
    have hle := (h.sound.channels g c hc).1
    have hgen : s.generation = s.supervisor.generation := rfl
    omega

theorem install (hn : s.link.installed = none) {g : Nat} (hg : s.generation = g)
    (hnew : s.link.channel? g = none) :
    s.Tends (s.mapLink (·.install { generation := g, timeout := s.settings.requestTimeout })) := by
  -- whether a session is sound does not depend on its state
  have hmoves := h.sound.settleLaunch_ok hg.symm hnew
  have hsound := (hmoves.sound.setState s.state).sound
  exact h.mapLink hsound hmoves.ages.link (Link.tends_install hn _)

theorem launch (program : Program σ) : s.Tends ((Session.launch program).runFrom s).2 := by
  have hdown := h.teardown "engine restarting"
  obtain ⟨-, hn, hidle⟩ := h.sound.teardown "engine restarting"
  rw [launch_run]
  generalize hready : (s.teardown "engine restarting").setState .starting = ready
  have hstarting : s.Tends ready := hready ▸ hdown.trans (hdown.upright.setState .starting)
  have hn : ready.link.installed = none := hready ▸ hn
  have hidle : ready.supervisor.isRunning = false := hready ▸ hidle
  have hstarted := hstarting.upright.start program hn
  cases hstart : (Supervisor.start program Link.listener).runFrom ready.supervisor with
  | mk r v =>
    rw [hstart] at hstarted
    cases r with
    | error f =>
      have hlater := hstarting.trans hstarted
      cases f with
      | engine e => exact hlater.trans (hlater.upright.setState .stopped)
      | _ => exact hlater
    | ok g =>
      obtain ⟨hn', hg, hnew⟩ := hstarting.upright.started hn hidle hstart
      have hinstall := hstarted.upright.install hn' hg hnew
      exact ((hstarting.trans hstarted).trans hinstall).trans (hinstall.upright.setState .running)

end Upright

/-- A session later that has lost no request but one. -/
structure Drops (g id : Nat) (s t : Session σ) : Prop where
  upright : t.Upright
  ages : s.link.Ages t.link
  minds : ∀ g' id' command, (g', id') ≠ (g, id) → s.link.Minds g' id' command →
    t.link.Minds g' id' command

theorem Upright.forget (h : s.Upright) (g id : Nat) :
    s.Drops g id (s.mapLink fun l => l.update g (·.forget id)) := by
  have hmoves := h.sound.forget g id
  have hgen : ∀ c ∈ s.link.channels, c.generation = g → (c.forget id).generation = g :=
    fun _ _ hc => hc
  refine ⟨⟨hmoves.sound, h.consistent.of_children (fun _ hg => hg) rfl rfl,
    h.tidy.update hgen fun _ _ ho => ho⟩, hmoves.ages.link, fun g' id' command hne hm => ?_⟩
  exact hm.update hgen fun c hg hm _ => hm.forget fun hid => hne (by rw [hg, hid])

theorem Tends.drops {g id : Nat} (h : s.Tends t) (hd : t.Drops g id u)
    (hnot : ∀ command, ¬s.link.Minds g id command) : s.Tends u := by
  refine ⟨hd.upright, h.ages.trans hd.ages, fun g' id' command hm => ?_⟩
  refine hd.minds g' id' command (fun he => ?_) (h.minds g' id' command hm)
  cases he
  exact hnot command hm

/-! ## The life of the engine -/

/-- What is done has nothing to do with the life of the engine: no channel is made, installed or taken
away, and an engine that does not run is not started. -/
structure Spares (s t : Session σ) : Prop where
  installed : t.link.installed = s.link.installed
  generation : t.generation = s.generation
  absent : ∀ g, s.link.channel? g = none → t.link.channel? g = none
  idle : s.supervisor.isRunning = false → t.supervisor.isRunning = false

theorem Spares.refl (s : Session σ) : s.Spares s := ⟨rfl, rfl, fun _ h => h, fun h => h⟩

theorem Spares.trans (h : s.Spares t) (h' : t.Spares u) : s.Spares u where
  installed := h'.installed.trans h.installed
  generation := h'.generation.trans h.generation
  absent g := h'.absent g ∘ h.absent g
  idle := h'.idle ∘ h.idle

theorem spares_update (s : Session σ) {g : Nat} {f : Channel → Channel}
    (hgen : ∀ c ∈ s.link.channels, c.generation = g → (f c).generation = g) :
    s.Spares (s.mapLink fun l => l.update g f) := by
  refine ⟨rfl, rfl, fun g' hn => ?_, fun hr => hr⟩
  show (s.link.update g f).channel? g' = none
  rw [Link.channel?_update _ hgen]
  split
  · rename_i hg
    rw [← hg, hn]
    rfl
  · exact hn

theorem Upright.spares_isRunning (h : s.Upright) : s.Spares s.isRunning.2 := by
  have hears := h.sound.link.markCrashed s.generation none
  have hcrashed : s.Spares (s.mapLink (·.markCrashed s.generation none)) :=
    ⟨hears.frame.installed, rfl, fun _ => hears.absent, fun hr => hr⟩
  unfold Session.isRunning
  split
  · exact .refl s
  · split
    · exact .refl s
    · split
      · exact .refl s
      · exact hcrashed

theorem Upright.spares_happen (h : s.Upright) (g : Nat) (as : List Act) :
    s.Spares { s with supervisor := s.supervisor.happen Link.listener g as } := by
  have hturn := Supervisor.acts_turn Link.listener g as s.supervisor
  have hears := (Supervisor.acts_ages Link.listener_respects g as s.supervisor).owner h.sound.link
  exact ⟨hears.frame.installed, hturn.frame.generation, fun _ => hears.absent,
    hturn.idle⟩

/-! ## Requests -/

/-- Where a request can be registered, the engine runs and its channel is open. -/
theorem Takes.isOpen {g : Nat} {command : Command} {c : Channel} (h : s.Takes g command)
    (hc : s.link.channel? g = some c) : c.isClosed = false := by
  have hr := h.1
  cases hclosed : c.closedReason with
  | none => simp [Channel.isClosed, hclosed]
  | some reason => simp [refusal?, hc, Channel.refusal?, hclosed] at hr

theorem Upright.enlist (h : s.Upright) {g : Nat} {command : Command} {c : Channel}
    (htakes : s.Takes g command) (hc : s.link.channel? g = some c) (arguments : Fields) :
    s.Tends (s.enlist g c command arguments) ∧ s.Spares (s.enlist g c command arguments) ∧
      (s.enlist g c command arguments).link.Minds g c.nextId command := by
  have hsound := h.sound.link.channel hc
  have hgen : c.generation = g := (Link.mem_of_channel hc).2
  have hmoves := h.sound.enlist hc command arguments
  refine ⟨h.mapLink hmoves.sound hmoves.ages.link (h.sound.link.tends_update fun d hd => ?_),
    s.spares_update fun _ _ _ => hgen,
    _, ?_, hsound.minds_register (htakes.isOpen hc) command arguments⟩
  · cases hc.symm.trans hd
    exact hsound.tends_register command arguments
  · have hupdate := s.link.channel?_update (g := g) (f := fun _ => (c.register command arguments).2)
      (fun _ _ _ => hgen) g
    rw [if_pos rfl, hc] at hupdate
    exact hupdate

theorem Upright.sendLine (h : s.Upright) (program : Program σ) (g : Nat) (line : String) :
    let v := ((Supervisor.sendLine program Link.listener g line).runFrom s.supervisor).2
    s.Tends { s with supervisor := v } ∧
      (s.supervisor.isRunning = true → s.Spares { s with supervisor := v }) := by
  intro v
  have hages := Supervisor.sendLine_ages Link.tends_respects program s.supervisor g line
  have hgen := Supervisor.sendLine_generation Link.listener program s.supervisor g line
  have hears := (hages.owner h.sound.link).1
  refine ⟨h.onSupervisor hages (h.consistent.sendLine program g line) (.inr hgen), fun hr => ?_⟩
  exact ⟨hears.frame.installed, hgen, fun _ => hears.absent, fun hidle => by
    rw [hidle] at hr
    cases hr⟩

/-- A request that is posted is with its channel. -/
theorem Upright.post (h : s.Upright) (program : Program σ) (g : Nat) (command : Command)
    (arguments : Fields) :
    let r := (Session.post program g command arguments).runFrom s
    s.Tends r.2 ∧ s.Spares r.2 ∧ ∀ id, r.1 = .ok id → r.2.link.Minds g id command := by
  by_cases htakes : s.Takes g command
  · obtain ⟨hr, c, hc⟩ := id htakes
    have hrunning : (s.enlist g c command arguments).supervisor.isRunning = true :=
      (refusal_none hc hr).2
    have hnot : ∀ command', ¬s.link.Minds g c.nextId command' := by
      rintro command' ⟨d, hd, hm⟩
      cases hc.symm.trans hd
      exact Nat.lt_irrefl _ (hm.lt (h.sound.link.channel hc))
    obtain ⟨henlist, hspares, hminds⟩ := h.enlist htakes hc arguments
    rw [post_run program hc hr]
    dsimp only
    generalize s.enlist g c command arguments = t at henlist hspares hminds hrunning
    generalize Request.encode ⟨c.nextId, command, arguments⟩ = line
    obtain ⟨hsend, hkept⟩ := henlist.upright.sendLine program g line
    have hwritten := hspares.trans (hkept hrunning)
    cases hresult : (Supervisor.sendLine program Link.listener g line).runFrom t.supervisor with
    | mk r v =>
      rw [hresult] at hsend hwritten
      have hlater := henlist.trans hsend
      cases r with
      | error f =>
        refine ⟨hlater.drops (hlater.upright.forget g c.nextId) hnot,
          hwritten.trans (spares_update _ fun _ _ hg => hg), fun _ hid => by cases hid⟩
      | ok _ =>
        refine ⟨hlater, hwritten, fun id hid => ?_⟩
        cases hid
        exact hsend.minds g _ command hminds
  · obtain ⟨e, he⟩ := post_refused program htakes arguments
    rw [he]
    exact ⟨h.refl, .refl s, fun _ hid => by cases hid⟩

/-- A request whose sender waits no longer is the only one that is lost. -/
theorem Upright.collect (h : s.Upright) (g id : Nat) (command : Command) :
    let t := ((Session.collect g id command).runFrom s).2
    s.Drops g id t ∧ s.Spares t := by
  cases hc : s.link.channel? g with
  | none =>
    have hsame : ((Session.collect g id command).runFrom s).2 = s := by
      simp only [Attempt.runFrom, ExceptT.run, Session.collect, hc]
    rw [hsame]
    exact ⟨⟨h, .refl _, fun _ _ _ _ hm => hm⟩, .refl s⟩
  | some c =>
    rw [collect_run hc]
    exact ⟨h.forget g id, spares_update s fun _ _ hg => hg⟩

/-- Whatever a caller does that is alone. -/
theorem upright_kept (program : Program σ) (s : Session σ) :
    Kept program fun t => t.Upright ∧ s.link.Ages t.link where
  trace h trace := ⟨(h.1.of_trace trace).upright, h.2⟩
  isRunning h := ⟨h.1.isRunning.upright, h.2.trans h.1.isRunning.ages⟩
  teardown h reason := ⟨(h.1.teardown reason).upright, h.2.trans (h.1.teardown reason).ages⟩
  launch h := ⟨(h.1.launch program).upright, h.2.trans (h.1.launch program).ages⟩
  send {t} h g command arguments := by
    have hpost : Keeps (fun t => t.Upright ∧ s.link.Ages t.link)
        (Session.post program g command arguments) := fun t ht => by
      obtain ⟨htends, -⟩ := ht.1.post program g command arguments
      exact ⟨htends.upright, ht.2.trans htends.ages⟩
    refine hpost.bind (fun id t ht => ?_) t h
    obtain ⟨hdrops, -⟩ := ht.1.collect g id command
    exact ⟨hdrops.upright, ht.2.trans hdrops.ages⟩
  loaded h f := ⟨(h.1.mapLoaded f).upright, h.2.trans (h.1.mapLoaded f).ages⟩

end Session

end AssemblyBrowser
