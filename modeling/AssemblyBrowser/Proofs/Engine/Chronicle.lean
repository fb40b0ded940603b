import AssemblyBrowser.Proofs.Engine.Account
/-!
Sessions whose program lays down what passes. Whatever is done with such a session, the history only
grows, and it gives account of the session. Main statements: a request that is posted is the next
passage, and an answer that is returned is that of the line that has decided the request.
-/
namespace AssemblyBrowser

open History

theorem Supervisor.program_keptByStop {σ ρ : Type} (listener : Listener ρ) (w : σ) :
    KeptByStop listener fun s : Supervisor σ ρ => s.program = w where
  act h g a := (act_turn listener g _ a).frame.program.trans h
  record h _ _ := h
  letGo h := h

/-- Nothing is laid down when a child is started. -/
theorem Supervisor.past_keptByStart {σ ρ : Type} (program : Program σ) (listener : Listener ρ)
    (past : List Passage) : KeptByStart program.recorded listener
      fun s : Supervisor (σ × List Passage) ρ => s.program.2 = past where
  act h g a := (congrArg Prod.snd (act_turn listener g _ a).frame.program).trans h
  record h _ _ := h
  letGo h := h
  launch h := h
  bear h _ _ _ := h
  hold h _ _ _ := h

namespace Session

variable {σ : Type} {s t u : Session (σ × List Passage)} {g id : Nat} {command : Command}
  {arguments : Fields}

/-- What has passed so far. -/
def past (s : Session (σ × List Passage)) : List Passage := s.supervisor.program.2

/-- The session after a child has done something of its own accord, which is laid down. -/
def witness (s : Session (σ × List Passage)) (g : Nat) (a : Act) : Session (σ × List Passage) :=
  { s with
    supervisor := { s.supervisor.happen Link.listener g [a] with
      program := (s.supervisor.program.1, s.past ++ [.did g a]) } }

/-- The session is accounted for by its own history. -/
def IsFaithful (s : Session (σ × List Passage)) : Prop := s.Accounted s.past

/-- The history goes on, and no request waits that did not wait before. -/
structure Continues (s t : Session (σ × List Passage)) : Prop where
  faithful : t.IsFaithful
  past : s.past <+: t.past
  calms : s.link.Calms t.link

theorem Continues.trans (h : s.Continues t) (h' : t.Continues u) : s.Continues u :=
  ⟨h'.faithful, h.past.trans h'.past, h.calms.trans h'.calms⟩

/-- Nothing is laid down meanwhile. -/
theorem Subsides.continues (h : s.Subsides s.past t) (hp : t.past = s.past) : s.Continues t := by
  refine ⟨?_, hp ▸ List.prefix_refl _, h.calms⟩
  unfold IsFaithful
  rw [hp]
  exact h.accounted

theorem isRunning_past (s : Session (σ × List Passage)) : s.isRunning.2.past = s.past := by
  unfold Session.isRunning
  split
  · rfl
  · split
    · rfl
    · split <;> rfl

theorem teardown_past (s : Session (σ × List Passage)) (reason : String) :
    (s.teardown reason).past = s.past := by
  have hclose : (s.closeChannel reason).supervisor.program = s.supervisor.program := by
    unfold closeChannel
    split <;> rfl
  have hhalt : ∀ t : Session (σ × List Passage),
      t.haltEngine.supervisor.program = t.supervisor.program := by
    intro t
    unfold haltEngine
    split
    · rfl
    · exact (Supervisor.program_keptByStop Link.listener t.supervisor.program).stop rfl
  have hteardown : s.teardown reason = (s.closeChannel reason).haltEngine := rfl
  rw [past, past, hteardown, hhalt, hclose]

theorem launch_past (program : Program σ) (s : Session (σ × List Passage)) :
    ((launch program.recorded).runFrom s).2.past = s.past := by
  have hready := s.teardown_past "engine restarting"
  have hsettle : ∀ r (t : Session (σ × List Passage)), (settleLaunch r t).2.past = t.past := by
    intro r t
    unfold settleLaunch
    split <;> rfl
  rw [launch_run]
  refine (hsettle _ _).trans ?_
  exact (Supervisor.past_keptByStart program Link.listener s.past).start hready

namespace IsFaithful

variable (h : s.IsFaithful)
include h

theorem refl : s.Continues s := ⟨h, List.prefix_refl _, .refl _⟩

theorem of_trace (trace : Option (List TraceRecord)) : s.Continues { s with trace } :=
  (Accounted.of_trace h trace).continues rfl

theorem mapLoaded (f : OrderedMap String Member → OrderedMap String Member) :
    s.Continues (s.mapLink fun l => { l with loaded := f l.loaded }) :=
  (Accounted.mapLoaded h f).continues rfl

theorem isRunning : s.Continues s.isRunning.2 :=
  (Accounted.isRunning h).continues s.isRunning_past

theorem teardown (reason : String) : s.Continues (s.teardown reason) :=
  (Accounted.teardown h reason).continues (s.teardown_past reason)

theorem launch (program : Program σ) :
    s.Continues ((Session.launch program.recorded).runFrom s).2 :=
  (Accounted.launch h program.recorded).continues (launch_past program s)

theorem settleReload (path : String) (r : Except Failure Answer) :
    s.Continues (Session.settleReload path r s).2 := by
  unfold Session.settleReload
  split
  · exact h.refl
  · exact h.mapLoaded (·.erase path)
  · exact h.teardown reloadFailed
  · exact h.refl

/-- What a child does of its own accord is the next passage. -/
theorem witness (g : Nat) (a : Act) : s.Continues (s.witness g a) := by
  obtain ⟨hact, hcalms⟩ := Accounted.act h g a
  have hsame := hact.same (t := s.witness g a) ⟨hact.sound.link, hact.sound.channels,
    hact.sound.current, hact.sound.ended⟩ rfl rfl rfl rfl
  exact ⟨hsame.accounted, List.prefix_append _ _, hcalms⟩

/-- What is written is written to a generation that has been started. -/
theorem generation_of_wrote {line : String} (hmem : .wrote g line ∈ s.past) : g ≤ s.generation := by
  cases hc : s.link.channel? g with
  | none =>
    have hpos : 0 < writes s.past g :=
      List.countP_pos_iff.mpr ⟨_, hmem, by simp [Passage.isWrite]⟩
    rw [h.link.unwritten g hc] at hpos
    cases hpos
  | some c => exact (h.sound.channels g c hc).1

/-- What settles the request of an answer is a line of the history. -/
theorem answered {answer : Answer} (ha : s.Answered g id answer) : ∃ j k command arguments,
    Decides s.past g j k id command arguments (.ok ⟨id, answer⟩) := by
  obtain ⟨c, hc, hs⟩ := ha
  rcases (h.link.channel g c hc).settled id _ (Channel.mem_of_settlement hs) with
    ⟨command, reason, he⟩ | hd
  · cases he
  · rw [(Link.mem_of_channel hc).2] at hd
    exact hd

end IsFaithful

/-! ## Requests -/

/-- A request is the next passage, and waits; or it is not posted. -/
structure Asks (g : Nat) (command : Command) (arguments : Fields)
    (s : Session (σ × List Passage)) (r : Except Failure Nat × Session (σ × List Passage)) :
    Prop where
  faithful : r.2.IsFaithful
  past : s.past <+: r.2.past
  waiting : ∀ g' p, p ∈ r.2.link.waiting g' →
    p ∈ s.link.waiting g' ∨ g' = g ∧ ∃ id, r.1 = .ok id ∧ p = (id, command)
  asked : ∀ id, r.1 = .ok id → Asked r.2.past g s.past.length id command arguments

/-- The session after the next request of a channel has been written to a child that runs. -/
def written (program : Program σ) (g : Nat) (c : Channel) (command : Command) (arguments : Fields)
    (s : Session (σ × List Passage)) : Session (σ × List Passage) :=
  let s := s.enlist g c command arguments
  let line := Request.encode ⟨c.nextId, command, arguments⟩
  let (reaction, state) := program.recorded.react s.supervisor.program g line
  { s with supervisor := ({ s.supervisor.record (.write g line) with program := state } :
      Supervisor (σ × List Passage) Link).acts Link.listener g reaction.acts }

theorem post_written (program : Program σ) {c : Channel} (hc : s.link.channel? g = some c)
    (hr : s.refusal? g command = none) (arguments : Fields) :
    ∃ r, (post program.recorded g command arguments).runFrom s =
      settlePost g c.nextId r (s.written program g c command arguments) := by
  obtain ⟨hg, hrunning⟩ := refusal_none hc hr
  have hsend := Supervisor.sendLine_run Link.listener program.recorded
    (s := (s.enlist g c command arguments).supervisor)
    (Request.encode ⟨c.nextId, command, arguments⟩) hg hrunning
  have hpost := post_run program.recorded hc hr arguments
  dsimp only at hpost
  rw [hsend] at hpost
  exact ⟨_, hpost⟩

theorem written_past (program : Program σ) (g : Nat) (c : Channel) (command : Command)
    (arguments : Fields) (s : Session (σ × List Passage)) :
    let line := Request.encode ⟨c.nextId, command, arguments⟩
    let reaction := (program.react s.supervisor.program.1 g line).1
    (s.written program g c command arguments).past =
      s.past ++ .wrote g line :: reaction.acts.map (.did g) :=
  congrArg Prod.snd (Supervisor.acts_turn Link.listener g _ _).frame.program

/-- Nothing is laid down when a request is refused, and else it is the next passage. -/
theorem post_past (program : Program σ) (g : Nat) (command : Command) (arguments : Fields)
    (s : Session (σ × List Passage)) :
    let t := ((post program.recorded g command arguments).runFrom s).2
    t.past = s.past ∨ g = s.generation ∧
      ∃ line, ∃ acts : List Act, t.past = s.past ++ .wrote g line :: acts.map (.did g) := by
  intro t
  by_cases htakes : s.Takes g command
  · obtain ⟨hr, c, hc⟩ := htakes
    obtain ⟨r, hpost⟩ := post_written program hc hr arguments
    have hsettle : t.past = (s.written program g c command arguments).past := by
      simp only [t, hpost]
      cases r <;> rfl
    have hpast := s.written_past program g c command arguments
    exact .inr ⟨(refusal_none hc hr).1, _, _, hsettle.trans hpast⟩
  · obtain ⟨e, he⟩ := post_refused program.recorded htakes arguments
    exact .inl (congrArg (fun r => r.2.past) he)

/-- After the request a child may have done more, and the request is the only one that waits. -/
theorem IsFaithful.written (h : s.IsFaithful) (program : Program σ) {c : Channel}
    (hc : s.link.channel? g = some c) (hr : s.refusal? g command = none)
    (hfree : s.link.waiting g = []) (arguments : Fields) :
    let t := s.written program g c command arguments
    t.IsFaithful ∧ s.past <+: t.past ∧ Asked t.past g s.past.length c.nextId command arguments ∧
      (∀ g' ≠ g, ∀ p ∈ t.link.waiting g', p ∈ s.link.waiting g') ∧
      ∀ p ∈ t.link.waiting g, p = (c.nextId, command) := by
  intro t
  let line := Request.encode ⟨c.nextId, command, arguments⟩
  let reaction := program.react s.supervisor.program.1 g line
  let base : Session (σ × List Passage) :=
    { s.enlist g c command arguments with
      supervisor := { (s.enlist g c command arguments).supervisor.record (.write g line) with
        program := (reaction.2, s.past ++ .wrote g line :: reaction.1.acts.map (.did g)) } }
  obtain ⟨hwrote, hothers, hregistered⟩ := Accounted.enlist h hc hr hfree arguments
  have hbase : base.Accounted (s.past ++ [.wrote g line]) :=
    (hwrote.same (t := base) ⟨hwrote.sound.link, hwrote.sound.channels, hwrote.sound.current,
      hwrote.sound.ended⟩ rfl rfl rfl rfl).accounted
  obtain ⟨hacts, hcalms⟩ := hbase.acts g reaction.1.acts
  have hpast : t.past = s.past ++ [.wrote g line] ++ reaction.1.acts.map (.did g) := by
    rw [List.append_assoc, List.singleton_append]
    exact written_past program g c command arguments s
  have hnumber : c.nextId = writes s.past g + 1 := by
    rw [← (Link.mem_of_channel hc).2]
    exact (h.link.channel g c hc).nextId
  have hasked : Asked (s.past ++ [.wrote g line]) g s.past.length c.nextId command arguments := by
    simp only [line, hnumber]
    exact asked_concat s.past g command arguments
  refine ⟨?_, ?_, ?_, fun g' hne p hp => ?_, fun p hp => ?_⟩
  · unfold IsFaithful
    rw [hpast]
    exact hacts
  · rw [hpast, List.append_assoc]
    exact List.prefix_append _ _
  · rw [hpast]
    exact hasked.append _
  · have hbefore := hcalms g' p hp
    rw [← hothers g' hne]
    exact hbefore
  · have hbefore : p ∈ (s.enlist g c command arguments).link.waiting g := hcalms g p hp
    rw [hregistered] at hbefore
    exact List.mem_singleton.mp hbefore

/-- A request may be posted where none waits. -/
theorem IsFaithful.post (h : s.IsFaithful) (program : Program σ) (hfree : s.link.waiting g = [])
    (command : Command) (arguments : Fields) :
    Asks g command arguments s ((Session.post program.recorded g command arguments).runFrom s) := by
  by_cases htakes : s.Takes g command
  · obtain ⟨hr, c, hc⟩ := htakes
    obtain ⟨r, hpost⟩ := post_written program hc hr arguments
    obtain ⟨hfaithful, hpast, hasked, hothers, hnew⟩ := h.written program hc hr hfree arguments
    rw [hpost]
    cases r with
    | ok _ =>
      refine ⟨hfaithful, hpast, fun g' p hp => ?_, fun id hid => ?_⟩
      · by_cases hg : g' = g
        · subst hg
          exact .inr ⟨rfl, c.nextId, rfl, hnew p hp⟩
        · exact .inl (hothers g' hg p hp)
      · cases hid
        exact hasked
    | error f =>
      have hforget := Accounted.forget hfaithful g c.nextId
      refine ⟨hforget.accounted, hpast, fun g' p hp => .inl ?_, fun id hid => by cases hid⟩
      by_cases hg : g' = g
      · -- it does not wait any more
        subst hg
        obtain ⟨hwaits, hne⟩ := Link.waiting_forget hp
        exact absurd (congrArg Prod.fst (hnew p hwaits)) hne
      · exact hothers g' hg p (hforget.calms g' p hp)
  · obtain ⟨e, he⟩ := post_refused program.recorded htakes arguments
    rw [he]
    exact ⟨h, List.prefix_refl _, fun _ _ hp => .inl hp, fun _ hid => by cases hid⟩

/-- A request that is waited for no longer does not wait; if it is answered, then by the line that
has decided it. -/
theorem IsFaithful.collect (h : s.IsFaithful) (g id : Nat) (command : Command) :
    let r := (Session.collect g id command).runFrom s
    s.Continues r.2 ∧ r.2.past = s.past ∧
      (∀ p ∈ r.2.link.waiting g, p ∈ s.link.waiting g ∧ p.1 ≠ id) ∧
      ∀ answer, r.1 = .ok answer → ∃ j k command arguments,
        Decides s.past g j k id command arguments (.ok ⟨id, answer⟩) := by
  intro r
  have hanswered : ∀ answer, r.1 = .ok answer → r.2.Answered g id answer := fun answer ha =>
    h.sound.collect_answered ha
  cases hc : s.link.channel? g with
  | none =>
    have hr : r = (.error (.engine (.unavailable command.name none (some g))), s) := by
      simp only [r, Attempt.runFrom, ExceptT.run, Session.collect, hc]
    rw [hr]
    refine ⟨h.refl, rfl, fun p hp => ?_, fun _ ha => by cases ha⟩
    rw [Link.waiting_of_none hc] at hp
    cases hp
  | some c =>
    have hr : r.2 = s.mapLink fun l => l.update g (·.forget id) :=
      congrArg Prod.snd (collect_run hc id command)
    have hforget := (Accounted.forget h g id).continues rfl
    rw [← hr] at hforget
    have hpast : r.2.past = s.past := by rw [hr]; rfl
    refine ⟨hforget, hpast, fun p hp => ?_, fun answer ha => ?_⟩
    · rw [hr] at hp
      exact Link.waiting_forget hp
    · rw [← hpast]
      exact hforget.faithful.answered (hanswered answer ha)

end Session

end AssemblyBrowser
