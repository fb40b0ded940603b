import AssemblyBrowser.Proofs.Engine.Course
import AssemblyBrowser.Proofs.Engine.Orphan
/-!
Sessions at rest, as they are between operations: stopped, running with the engine that is installed,
or crashed. What is done with a session at rest is done in order and leaves it at rest, unless an
engine is started that is baffling: its first output does not tell whether it greets.
-/
namespace AssemblyBrowser

/-- It cannot be told from the first output of a new child whether it greets. -/
def Child.Baffles (c : Child) (startupTimeout : Number) : Prop :=
  match c.greeting with
  | none => c.reading = true ∧ startupTimeout.wait ≠ .ok ()
  | some line => ∃ digits, Supervisor.greetingFault? line = some (.hugeInteger digits)

/-- Failures that sessions expect. -/
def Failure.IsEngine (f : Failure) : Prop := ∃ e, f = .engine e

/-! ## Starting -/

namespace Supervisor

variable {σ ρ : Type} (program : Program σ) (listener : Listener ρ) {s t : Supervisor σ ρ}

/-- A child comes to be, and its first output is baffling. -/
def Baffled (s : Supervisor σ ρ) : Prop :=
  ∃ t printed c, hatch? program s = some (t, printed) ∧
    (t.acts listener t.generation printed).child? t.generation = some c ∧
    c.Baffles s.options.startupTimeout

theorem greet_error {g : Nat} {c : Child} {f : Failure}
    (h : s.greet listener g c = (.error f, t)) :
    t.held = s.held ∧ (c.Baffles s.options.startupTimeout ↔ ¬f.IsEngine) := by
  have hkill := (kill_wanes listener s g).held
  unfold greet at h
  unfold Child.Baffles
  cases hg : c.greeting with
  | none =>
    simp only [hg] at h ⊢
    cases hr : c.reading with
    | false =>
      simp only [hr, Bool.false_eq_true, if_false, Prod.mk.injEq] at h
      obtain ⟨hf, rfl⟩ := h
      cases hf
      simp [Failure.IsEngine, startupError]
    | true =>
      simp only [hr, if_true] at h
      cases hw : s.options.startupTimeout.wait with
      | error e =>
        simp only [hw, Prod.mk.injEq, Except.error.injEq] at h
        obtain ⟨rfl, rfl⟩ := h
        simp [Failure.IsEngine]
      | ok u =>
        simp only [hw, Prod.mk.injEq, Except.error.injEq] at h
        obtain ⟨rfl, rfl⟩ := h
        simp [Failure.IsEngine, startupError, hkill]
  | some line =>
    simp only [hg] at h ⊢
    cases hfault : greetingFault? line with
    | none => simp [hfault] at h
    | some fault =>
      cases fault with
      | hugeInteger digits =>
        simp only [hfault, Prod.mk.injEq, Except.error.injEq] at h
        obtain ⟨rfl, rfl⟩ := h
        simp [Failure.IsEngine]
      | invalid e =>
        simp only [hfault, Prod.mk.injEq, Except.error.injEq] at h
        obtain ⟨rfl, rfl⟩ := h
        simp [Failure.IsEngine, startupError, hkill]
      | unexpected =>
        simp only [hfault, Prod.mk.injEq, Except.error.injEq] at h
        obtain ⟨rfl, rfl⟩ := h
        simp [Failure.IsEngine, startupError, hkill]

theorem not_baffles_of_greet_ok {g g' : Nat} {c : Child}
    (h : s.greet listener g c = (.ok g', t)) : ¬c.Baffles s.options.startupTimeout := by
  unfold greet at h
  unfold Child.Baffles
  cases hg : c.greeting with
  | none =>
    simp only [hg] at h
    split at h
    · split at h <;> cases h
    · cases h
  | some line =>
    simp only [hg] at h ⊢
    rintro ⟨digits, hf⟩
    simp [hf] at h

/-- Where no child comes to be, the failure is an expected one. -/
theorem isEngine_of_hatch_none {f : Failure} (hh : hatch? program s = none)
    (h : s.spawn program listener = (.error f, t)) : f.IsEngine := by
  revert h hh
  unfold hatch? spawn Failure.IsEngine
  cases s.options.command with
  | none =>
    simp only [Prod.mk.injEq, Except.error.injEq]
    rintro - ⟨rfl, -⟩
    exact ⟨_, rfl⟩
  | some words =>
    cases words with
    | nil =>
      simp only [Prod.mk.injEq, Except.error.injEq]
      rintro - ⟨rfl, -⟩
      exact ⟨_, rfl⟩
    | cons word words =>
      cases hl : program.launch s.program with
      | mk launch state =>
        cases launch with
        | failed e =>
          simp only [record, hl, Prod.mk.injEq, Except.error.injEq]
          rintro - ⟨rfl, -⟩
          exact ⟨_, rfl⟩
        | started temper printed => simp [record, hl]

/-- A start that fails leaves no child held, and fails unexpectedly only if it is baffled. -/
theorem spawn_error {f : Failure} (h : s.spawn program listener = (.error f, t)) :
    t.held = s.held ∧ (s.Baffled program listener ↔ ¬f.IsEngine) := by
  cases hh : hatch? program s with
  | none =>
    obtain ⟨⟨f', hf'⟩, -, -, hheld⟩ := spawn_of_hatch_none program listener hh
    rw [h] at hheld
    refine ⟨hheld, ?_⟩
    have hno : ¬s.Baffled program listener := by
      rintro ⟨u, printed, c, hu, -⟩
      rw [hh] at hu
      cases hu
    have hengine := isEngine_of_hatch_none program listener hh h
    exact iff_of_false hno (not_not_intro hengine)
  | some p =>
    obtain ⟨u, printed⟩ := p
    obtain ⟨c, hc, hspawn⟩ := spawn_of_hatch program listener hh
    rw [hspawn] at h
    obtain ⟨hheld, hiff⟩ := greet_error listener h
    have hold := hatched_of_hatch program hh
    have hturn := acts_turn listener u.generation printed u
    rw [hatch_options program listener hh] at hiff
    refine ⟨hheld.trans (hturn.frame.held.trans hold.held), Iff.trans ?_ hiff⟩
    constructor
    · rintro ⟨u', printed', c', hu', hc', hb⟩
      rw [hh] at hu'
      cases hu'
      rw [hc] at hc'
      cases hc'
      exact hb
    · intro hb
      exact ⟨u, printed, c, hh, hc, hb⟩

theorem not_baffled_of_spawn_ok {g : Nat} (h : s.spawn program listener = (.ok g, t)) :
    ¬s.Baffled program listener := by
  rintro ⟨u, printed, c, hh, hc, hb⟩
  obtain ⟨c', hc', hspawn⟩ := spawn_of_hatch program listener hh
  rw [hc] at hc'
  cases hc'
  rw [hspawn] at h
  rw [← hatch_options program listener hh] at hb
  exact not_baffles_of_greet_ok listener h hb

theorem start_run (h : s.isRunning = false) :
    (Supervisor.start program listener).runFrom s = (s.stop listener).spawn program listener := by
  simp [Attempt.runFrom, ExceptT.run, start, h]

end Supervisor

namespace Link

/-- The only change of state that is reported is that of a running engine to a crashed one. -/
theorem crash_respects : listener.Respects fun l l' =>
    l'.state = l.state ∨ l.state = .running ∧ l'.state = .crashed where
  refl _ := .inl rfl
  trans {a b c} h h' := by
    rcases h with h | ⟨h, hb⟩
    · rcases h' with h' | ⟨h', hc⟩
      · exact .inl (h'.trans h)
      · exact .inr ⟨h ▸ h', hc⟩
    · rcases h' with h' | ⟨h', -⟩
      · exact .inr ⟨h, h'.trans hb⟩
      · rw [hb] at h'
        cases h'
  heard {l l' g line} hl := by
    left
    simp only [listener, hear] at hl
    split at hl
    · cases hl
      rfl
    · split at hl
      · cases hl
        rfl
      · split at hl
        · cases hl
          rfl
        · cases hl
  ended l g exitCode := by
    simp only [listener, markCrashed]
    split
    · exact .inl rfl
    · split
      · exact .inl rfl
      · split
        · rename_i hs
          exact .inr ⟨hs, rfl⟩
        · exact .inl rfl

end Link

namespace Session

variable {σ α β : Type} {s t u : Session σ}

/-! ## Sessions at rest -/

structure Resting (s : Session σ) : Prop where
  sound : s.Sound
  rest : s.AtRest

/-- A session later with the same child and the same channel; the engine may have crashed. -/
structure Drifts (s t : Session σ) : Prop where
  sound : t.Sound
  installed : t.link.installed = s.link.installed
  held : t.supervisor.held = s.supervisor.held
  state : t.state = s.state ∨ s.state = .running ∧ t.state = .crashed

theorem next_of_crash (h : t.state = s.state ∨ s.state = .running ∧ t.state = .crashed) :
    s.state.Next t.state := by
  rcases h with h | ⟨hs, ht⟩
  · exact .inl h
  · rw [hs, ht]
    exact .inr .crash

theorem Drifts.trans (h : s.Drifts t) (h' : t.Drifts u) : s.Drifts u where
  sound := h'.sound
  installed := h'.installed.trans h.installed
  held := h'.held.trans h.held
  state := Link.crash_respects.trans h.state h'.state

theorem Drifts.next (h : s.Drifts t) : s.state.Next t.state := next_of_crash h.state

theorem Sound.channel_installed (h : s.Sound) {g : Nat} (hi : s.link.installed = some g) :
    ∃ c, s.link.installed? = some c ∧ c.generation = s.generation := by
  obtain ⟨c, hc⟩ := h.link.installed g hi
  refine ⟨c, (Link.installed?_eq hi).trans hc, ?_⟩
  rw [(Link.mem_of_channel hc).2]
  exact h.current g hi

theorem Resting.drifts (h : s.Resting) (hd : s.Drifts t) : t.Resting := by
  refine ⟨hd.sound, ?_⟩
  rcases hd.state with hs | ⟨-, ht⟩
  · constructor
    · rw [hs]
      exact h.rest.state
    · intro ht
      obtain ⟨hi, hh⟩ := h.rest.stopped (hs ▸ ht)
      exact ⟨hd.installed.trans hi, hd.held.trans hh⟩
    · intro ht
      obtain ⟨c, hc, -⟩ := h.rest.running (hs ▸ ht)
      obtain ⟨g, hg, -⟩ := Option.bind_eq_some_iff.mp hc
      exact hd.sound.channel_installed (hd.installed.trans hg)
  · constructor
    · exact .inr (.inr ht)
    · intro hst
      rw [ht] at hst
      cases hst
    · intro hrun
      rw [ht] at hrun
      cases hrun

theorem resting_of_stopped (h : s.Sound) (hs : s.state = .stopped) (hi : s.link.installed = none)
    (hh : s.supervisor.held = none) : s.Resting := by
  refine ⟨h, .inl hs, fun _ => ⟨hi, hh⟩, fun hr => ?_⟩
  rw [hs] at hr
  cases hr

theorem resting_of_running (h : s.Sound) (hs : s.state = .running) {g : Nat}
    (hi : s.link.installed = some g) : s.Resting := by
  refine ⟨h, .inr (.inl hs), fun hst => ?_, fun _ => h.channel_installed hi⟩
  rw [hs] at hst
  cases hst

namespace Sound

variable (h : s.Sound)
include h

theorem drifts_trace (trace : Option (List TraceRecord)) : s.Drifts { s with trace } :=
  ⟨h.of_trace trace, rfl, rfl, .inl rfl⟩

theorem drifts_isRunning : s.Drifts s.isRunning.2 := by
  obtain ⟨hm, hi⟩ := h.isRunning
  refine ⟨hm.sound, hi, ?_, ?_⟩
  · unfold Session.isRunning
    split
    · rfl
    · split
      · rfl
      · split <;> rfl
  · unfold Session.isRunning
    split
    · exact .inl rfl
    · split
      · exact .inl rfl
      · split
        · exact .inl rfl
        · exact Link.crash_respects.ended s.link s.generation none

theorem drifts_loaded (f : OrderedMap String Member → OrderedMap String Member) :
    s.Drifts (s.mapLink fun l => { l with loaded := f l.loaded }) :=
  ⟨(h.mapLoaded f).1, rfl, rfl, .inl rfl⟩

theorem drifts_forget (g id : Nat) : s.Drifts (s.mapLink fun l => l.update g (·.forget id)) :=
  ⟨(h.forget g id).sound, rfl, rfl, .inl rfl⟩

theorem drifts_collect (g id : Nat) (command : Command) :
    s.Drifts ((Session.collect g id command).runFrom s).2 := by
  simp only [Attempt.runFrom, ExceptT.run, Session.collect]
  split
  · exact h.drifts_trace s.trace
  · exact h.drifts_forget g id

theorem drifts_happen (g : Nat) (as : List Act) :
    s.Drifts { s with supervisor := s.supervisor.happen Link.listener g as } where
  sound := (h.happen g as).sound
  installed := (h.onSupervisor (Supervisor.acts_ages Link.listener_respects g as s.supervisor)
    (.inr (Supervisor.acts_turn Link.listener g as s.supervisor).frame.generation)).2
  held := (Supervisor.acts_turn Link.listener g as s.supervisor).frame.held
  state := (Supervisor.acts_ages Link.crash_respects g as s.supervisor).owner

theorem drifts_enlist {g : Nat} {c : Channel} (hc : s.link.channel? g = some c)
    (command : Command) (arguments : Fields) : s.Drifts (s.enlist g c command arguments) :=
  ⟨(h.enlist hc command arguments).sound, rfl, rfl, .inl rfl⟩

theorem drifts_sendLine (program : Program σ) (g : Nat) (line : String) :
    s.Drifts { s with supervisor :=
      ((Supervisor.sendLine program Link.listener g line).runFrom s.supervisor).2 } := by
  obtain ⟨hm, hi⟩ := h.onSupervisor
    (Supervisor.sendLine_ages Link.listener_respects program s.supervisor g line)
    (.inr (Supervisor.sendLine_generation Link.listener program s.supervisor g line))
  have hstate := (Supervisor.sendLine_ages Link.crash_respects program s.supervisor g line).owner
  refine ⟨hm.sound, hi, ?_, hstate⟩
  simp only [Attempt.runFrom, ExceptT.run, Supervisor.sendLine]
  split
  · rfl
  · split <;> exact (Supervisor.acts_turn Link.listener g _ _).frame.held

theorem drifts_settlePost (g id : Nat) (r : Except Failure Unit) :
    s.Drifts (settlePost g id r s).2 := by
  cases r with
  | error f => exact h.drifts_forget g id
  | ok u => exact h.drifts_trace s.trace

end Sound

/-! ## Courses -/

theorem course_acts {g : Nat} (as : List Act) (h : s.state.Next t.state) :
    Course s ((Supervisor.actMoments Link.listener g as t.supervisor).map fun supervisor =>
      { t with supervisor }) { t with supervisor := t.supervisor.acts Link.listener g as } := by
  induction as generalizing s t with
  | nil => exact .one h
  | cons a as ih =>
    refine .cons h ?_
    exact ih (t := { t with supervisor := t.supervisor.act Link.listener g a })
      (next_of_crash (Supervisor.owner_act Link.crash_respects g t.supervisor a))

section

variable (program : Program σ)

theorem course_sendLine (g : Nat) (line : String) (s : Session σ) :
    Course s (((Supervisor.HandleStep.send g line).moments program Link.listener s.supervisor).map
      fun supervisor => { s with supervisor })
      { s with supervisor :=
          ((Supervisor.sendLine program Link.listener g line).runFrom s.supervisor).2 } := by
  simp only [Supervisor.HandleStep.moments, Attempt.runFrom, ExceptT.run, Supervisor.sendLine]
  split
  · exact .one (.refl _)
  · have h := course_acts (s := s) (g := g) (program.react s.supervisor.program g line).1.acts
      (t := { s with supervisor := { s.supervisor.record (.write g line) with
        program := (program.react s.supervisor.program g line).2 } }) (.refl _)
    split <;> exact h

/-- A new engine is started in a session without a channel, so nothing is reported to it. -/
theorem course_start (hi : s.link.installed = none) :
    Course s ((Supervisor.HandleStep.start.moments program Link.listener s.supervisor).map
      fun supervisor => { s with supervisor })
      { s with supervisor :=
          ((Supervisor.start program Link.listener).runFrom s.supervisor).2 } := by
  have hlast := Supervisor.getLast?_moments program Link.listener .start s.supervisor
  refine .of_same (fun m hm => ?_) ?_
  · obtain ⟨t, ht, rfl⟩ := List.mem_map.mp hm
    have hsame := (Supervisor.startMoments_ages Link.silent_respects program s.supervisor t ht).owner
    exact congrArg Link.state (hsame hi)
  · rw [List.getLast?_map, hlast, Supervisor.HandleStep.after, Supervisor.HandleStep.run,
      Attempt.runFrom_map]
    rfl

theorem course_stop (hi : s.link.installed = none) :
    Course s ((Supervisor.stopMoments Link.listener s.supervisor).map fun supervisor =>
      { s with supervisor }) { s with supervisor := s.supervisor.stop Link.listener } := by
  refine .of_same (fun m hm => ?_) ?_
  · obtain ⟨t, ht, rfl⟩ := List.mem_map.mp hm
    have hsame := (Supervisor.stopMoments_ages Link.silent_respects s.supervisor t ht).owner
    exact congrArg Link.state (hsame hi)
  · rw [List.getLast?_map, Supervisor.getLast?_stopMoments]
    rfl

/-- A request is posted while the engine may crash. -/
theorem Sound.course_post (h : s.Sound) (g : Nat) (command : Command) (arguments : Fields) :
    Course s (Watched.postMoments program g command arguments s)
        ((Session.post program g command arguments).runFrom s).2 ∧
      s.Drifts ((Session.post program g command arguments).runFrom s).2 := by
  unfold Watched.postMoments
  by_cases ht : s.Takes g command
  · obtain ⟨hr, c, hc⟩ := ht
    rw [hr, hc, post_run program hc hr]
    have h₁ := h.drifts_enlist hc command arguments
    dsimp only
    generalize s.enlist g c command arguments = t at h₁ ⊢
    generalize Request.encode ⟨c.nextId, command, arguments⟩ = line
    have h₂ := h₁.sound.drifts_sendLine program g line
    have hsend := course_sendLine program g line t
    generalize (Supervisor.sendLine program Link.listener g line).runFrom t.supervisor = r
      at h₂ hsend ⊢
    have h₃ := h₂.sound.drifts_settlePost g c.nextId r.1
    refine ⟨?_, (h₁.trans h₂).trans h₃⟩
    exact .cons h₁.next (hsend.append (.one h₃.next))
  · obtain ⟨e, he⟩ := post_refused program ht arguments
    rw [he]
    split
    · rename_i c hr hc
      exact absurd ⟨hr, c, hc⟩ ht
    · exact ⟨.one (.refl _), h.drifts_trace s.trace⟩

end

theorem closeChannel_state (s : Session σ) (reason : String) :
    (s.closeChannel reason).state = s.state := by
  unfold closeChannel
  split <;> rfl

theorem closeChannel_held (s : Session σ) (reason : String) :
    (s.closeChannel reason).supervisor.held = s.supervisor.held := by
  unfold closeChannel
  split <;> rfl

/-- A session that is torn down is stopped, by way of stopping unless it has been stopped before. -/
theorem Resting.teardown (h : s.Resting) (reason : String) :
    Course s (Watched.teardownMoments reason s) (s.teardown reason) ∧
      (s.teardown reason).Resting ∧ (s.teardown reason).state = .stopped := by
  obtain ⟨hsound, hi, -⟩ := h.sound.teardown reason
  obtain ⟨-, hn⟩ := h.sound.closeChannel reason
  have hstate := s.closeChannel_state reason
  have hheld := s.closeChannel_held reason
  have hteardown : s.teardown reason = (s.closeChannel reason).haltEngine := rfl
  unfold Watched.teardownMoments
  rw [hteardown] at hsound hi ⊢
  generalize s.closeChannel reason = c at hn hstate hheld hsound hi ⊢
  unfold haltEngine at hsound hi ⊢
  dsimp only
  split
  · rename_i hc
    simp only [Bool.and_eq_true, decide_eq_true_eq] at hc
    rw [if_pos (by simpa using hc)] at hsound hi
    have hnone := (h.rest.stopped (hstate ▸ hc.1)).2
    exact ⟨.one (.inl hstate), resting_of_stopped hsound.sound hc.1 hi (hheld.trans hnone), hc.1⟩
  · rename_i hc
    rw [if_neg hc] at hsound hi
    have hhalt : s.state.Edge .stopping := by
      rcases h.rest.state with hs | hs | hs
      · have hnone := (h.rest.stopped hs).2
        have hidle := Supervisor.isRunning_of_held_none (hheld.trans hnone)
        simp [hstate, hs, hidle] at hc
      · rw [hs]
        exact .halt
      · rw [hs]
        exact .clear
    refine ⟨?_, resting_of_stopped hsound.sound rfl hi (Supervisor.stop_held _ _), rfl⟩
    refine .cons (.inl hstate) (.cons (.inr (hstate ▸ hhalt)) ?_)
    refine Course.append (course_stop (s := c.setState .stopping) hn) (.one (.inr ?_))
    have hsilent := (Supervisor.stop_ages Link.silent_respects
      (c.setState .stopping).supervisor).owner hn
    have hstop : ({ c.setState .stopping with
        supervisor := (c.setState .stopping).supervisor.stop Link.listener } :
        Session σ).state = .stopping := congrArg Link.state hsilent
    rw [hstop]
    exact .stop

/-! ## Orderly operations -/

/-- An attempt takes an orderly course from a session, and leaves one at rest. -/
structure Watched.Orderly (a : Watched σ α) (s : Session σ) : Prop where
  course : Course s (a.moments s) (a.attempt.runFrom s).2
  resting : (a.attempt.runFrom s).2.Resting

theorem Resting.orderly_once (h : s.Resting) {a : Attempt (Session σ) α}
    (hd : s.Drifts (a.runFrom s).2) : (Watched.once a).Orderly s :=
  ⟨.one hd.next, h.drifts hd⟩

namespace Watched.Orderly

variable {a : Watched σ α}

theorem bind (h : a.Orderly s) {f : α → Watched σ β}
    (h' : ∀ v t, a.attempt.runFrom s = (.ok v, t) → t.Resting → (f v).Orderly t) :
    (a.bind f).Orderly s := by
  have hc := h.course
  have hr := h.resting
  cases ha : a.attempt.runFrom s with
  | mk r t =>
    rw [ha] at hc hr
    cases r with
    | error e =>
      refine ⟨?_, ?_⟩
      · simp only [Watched.bind, Attempt.runFrom_bind, ha, List.append_nil]
        exact hc
      · simp only [Watched.bind, Attempt.runFrom_bind, ha]
        exact hr
    | ok v =>
      obtain ⟨hc', hr'⟩ := h' v t ha hr
      refine ⟨?_, ?_⟩
      · simp only [Watched.bind, Attempt.runFrom_bind, ha]
        exact hc.append hc'
      · simp only [Watched.bind, Attempt.runFrom_bind, ha]
        exact hr'

theorem map (h : a.Orderly s) (f : α → β) : (a.map f).Orderly s := by
  refine ⟨?_, ?_⟩
  · simp only [Watched.map, Attempt.runFrom_map]
    exact h.course
  · simp only [Watched.map, Attempt.runFrom_map]
    exact h.resting

theorem outcome (h : a.Orderly s) : a.outcome.Orderly s := ⟨h.course, h.resting⟩

theorem traced {op : TracedOperation} {arguments : List String} (h : a.Orderly (called op arguments s))
    (shown : α → String) : (Watched.traced op arguments shown a).Orderly s := by
  obtain ⟨trace, hr⟩ := traced_called op arguments shown a.attempt s
  have hlast := h.resting.sound.drifts_trace trace
  refine ⟨?_, ?_⟩
  · simp only [Watched.traced, hr]
    exact .cons (.refl _) (h.course.append (.one hlast.next))
  · simp only [Watched.traced, hr]
    exact h.resting.drifts hlast

end Watched.Orderly

section

variable (program : Program σ)

/-- A new engine has been started, or not, in place of what there was. -/
def started (s : Session σ) : Except Failure Nat × Session σ :=
  let r := (Supervisor.start program Link.listener).runFrom (Watched.readied s).supervisor
  (r.1, { Watched.readied s with supervisor := r.2 })

/-- The new engine that is started in a session baffles it. -/
def Baffled (s : Session σ) : Prop :=
  ((Watched.readied s).supervisor.stop Link.listener).Baffled program Link.listener

theorem launch_started (s : Session σ) :
    (Session.launch program).runFrom s = settleLaunch (started program s).1 (started program s).2 :=
  launch_run program s

theorem Sound.started (h : s.Sound) :
    (started program s).2.state = .starting ∧ (started program s).2.link.installed = none := by
  obtain ⟨-, hi, -⟩ := h.teardown "engine restarting"
  have hsilent := (Supervisor.start_ages Link.silent_respects program
    (Watched.readied s).supervisor).owner hi
  have hlink : (Session.started program s).2.link = (Watched.readied s).link := hsilent
  rw [state, hlink]
  exact ⟨rfl, hi⟩

theorem Sound.started_run (h : s.Sound) : (Supervisor.start program Link.listener).runFrom
    (Watched.readied s).supervisor =
      ((Watched.readied s).supervisor.stop Link.listener).spawn program Link.listener := by
  obtain ⟨-, -, hidle⟩ := h.teardown "engine restarting"
  exact Supervisor.start_run program Link.listener hidle

variable {program}

theorem Sound.started_error (h : s.Sound) {f : Failure} (hf : (Session.started program s).1 = .error f) :
    (Session.started program s).2.supervisor.held = none ∧ (s.Baffled program ↔ ¬f.IsEngine) := by
  have hrun := h.started_run program
  unfold Session.started at hf ⊢
  dsimp only at hf ⊢
  rw [hrun] at hf ⊢
  obtain ⟨hheld, hiff⟩ := Supervisor.spawn_error program Link.listener
    (s := (Watched.readied s).supervisor.stop Link.listener) (Prod.ext hf rfl)
  exact ⟨hheld.trans (Supervisor.stop_held _ _), hiff⟩

theorem Sound.started_ok (h : s.Sound) {g : Nat} (hg : (Session.started program s).1 = .ok g) :
    ¬s.Baffled program := by
  have hrun := h.started_run program
  unfold Session.started at hg
  dsimp only at hg
  rw [hrun] at hg
  exact Supervisor.not_baffled_of_spawn_ok program Link.listener
    (s := (Watched.readied s).supervisor.stop Link.listener) (Prod.ext hg rfl)

/-- A launch takes an orderly course unless the new engine is baffling. -/
theorem Resting.launch (h : s.Resting) (hb : ¬s.Baffled program) :
    (Watched.launch program).Orderly s := by
  obtain ⟨hdown, -, hstopped⟩ := h.teardown "engine restarting"
  obtain ⟨-, hi, -⟩ := h.sound.teardown "engine restarting"
  obtain ⟨hstarting, hnone⟩ := h.sound.started program
  have hsound := (h.sound.launch program).1.sound
  have hready : (s.teardown "engine restarting").state.Next (Watched.readied s).state :=
    .inr (hstopped ▸ .launch)
  have hstart : Course (s.teardown "engine restarting") _ (Session.started program s).2 :=
    .cons hready (course_start program (s := Watched.readied s) hi)
  have hcourse := hdown.append hstart
  rw [launch_started] at hsound
  suffices hsettle : Course (Session.started program s).2
      (Watched.settleLaunchMoments (Session.started program s).1 (Session.started program s).2)
      (settleLaunch (Session.started program s).1 (Session.started program s).2).2 ∧
      (settleLaunch (Session.started program s).1 (Session.started program s).2).2.Resting by
    refine ⟨?_, ?_⟩
    · simp only [Watched.launch, launch_started]
      exact hcourse.append hsettle.1
    · simp only [Watched.launch, launch_started]
      exact hsettle.2
  cases hr : (Session.started program s).1 with
  | ok g =>
    rw [hr] at hsound
    refine ⟨.cons (.inl rfl) (.one (.inr ?_)), resting_of_running hsound rfl rfl⟩
    change SessionState.Edge (Session.started program s).2.state .running
    rw [hstarting]
    exact .run
  | error f =>
    rw [hr] at hsound
    obtain ⟨hheld, hiff⟩ := h.sound.started_error hr
    have hengine : f.IsEngine := by
      cases Classical.em f.IsEngine with
      | inl he => exact he
      | inr he => exact absurd (hiff.mpr he) hb
    obtain ⟨e, rfl⟩ := hengine
    refine ⟨.one (.inr ?_), resting_of_stopped hsound rfl hnone hheld⟩
    rw [hstarting]
    exact .fail

/-- A session that is baffled fails and is left as one that is starting. -/
theorem Sound.launch_baffled (h : s.Sound) (hb : s.Baffled program) :
    ∃ f t, (Session.launch program).runFrom s = (.error f, t) ∧ t.state = .starting := by
  rw [launch_started]
  cases hr : (Session.started program s).1 with
  | ok g => exact absurd hb (h.started_ok hr)
  | error f =>
    have hf := (h.started_error hr).2.mp hb
    have hsettle : settleLaunch (.error f) (Session.started program s).2 =
        (.error f, (Session.started program s).2) := by
      cases f with
      | engine e => exact absurd ⟨e, rfl⟩ hf
      | _ => rfl
    exact ⟨f, _, hsettle, (h.started program).1⟩

/-! ## From a session at rest -/

variable (program)

theorem Resting.send (h : s.Resting) (g : Nat) (command : Command) (arguments : Fields) :
    (Watched.send program g command arguments).Orderly s := by
  obtain ⟨hcourse, hdrift⟩ := h.sound.course_post program g command arguments
  have hpost : (Watched.post program g command arguments).Orderly s := ⟨hcourse, h.drifts hdrift⟩
  refine hpost.bind fun id t _ ht => ?_
  exact ht.orderly_once (ht.sound.drifts_collect g id command)

theorem Resting.settleReload (h : s.Resting) (path : String) (r : Except Failure Answer) :
    (Watched.settleReload path r).Orderly s := by
  have hsame : s.Drifts s := h.sound.drifts_trace s.trace
  cases r with
  | ok answer =>
    cases answer with
    | success body => exact ⟨.one (.refl _), h⟩
    | failure code message =>
      have hforget := h.sound.drifts_loaded (·.erase path)
      exact ⟨.one hforget.next, h.drifts hforget⟩
  | error f =>
    cases f with
    | engine e =>
      obtain ⟨hcourse, hrest, -⟩ := h.teardown reloadFailed
      exact ⟨hcourse, hrest⟩
    | _ => exact ⟨.one (.refl _), h⟩

theorem Resting.reload (g : Nat) (paths : List String) (h : s.Resting) :
    (Watched.reload program g paths).Orderly s := by
  induction paths generalizing s with
  | nil => exact h.orderly_once (h.sound.drifts_trace s.trace)
  | cons path rest ih =>
    refine (h.send program g .load (loadArguments path)).outcome.bind fun r t _ ht => ?_
    exact (ht.settleReload path r).bind fun _ u _ hu => ih hu

theorem Resting.get (h : s.Resting) : (Watched.once get : Watched σ (Session σ)).Orderly s :=
  h.orderly_once (h.sound.drifts_trace s.trace)

theorem Resting.relaunch (h : s.Resting) (hb : ¬s.Baffled program) :
    (Watched.relaunch program).Orderly s := by
  refine (h.launch hb).bind fun c t _ ht => ?_
  exact (ht.get).bind fun v u _ hu => hu.reload program c.generation v.loadedAssemblies

theorem Resting.called (h : s.Resting) (op : TracedOperation) (arguments : List String) :
    (Watched.called op arguments s).Resting := h.drifts (h.sound.drifts_trace _)

/-- A new engine is needed and baffles the session. -/
def Stumbles (s : Session σ) : Prop := s.isRunning.1 = false ∧ s.isRunning.2.Baffled program

theorem Resting.ensureRunning (h : s.Resting)
    (hb : ¬(Watched.called .ensureRunning [] s).Stumbles program) :
    (Watched.ensureRunning program).Orderly s := by
  have hcalled := h.called .ensureRunning []
  refine .traced (.bind (hcalled.orderly_once ?_) fun running t hnow ht => ?_) _
  · exact hcalled.sound.drifts_isRunning
  · obtain ⟨hrunning, hsame⟩ : (Watched.called .ensureRunning [] s).isRunning.1 = running ∧
        (Watched.called .ensureRunning [] s).isRunning.2 = t := by
      cases hnow
      exact ⟨rfl, rfl⟩
    cases running with
    | true => exact ht.orderly_once (ht.sound.drifts_trace t.trace)
    | false =>
      refine ht.relaunch program fun hbaffled => hb ⟨hrunning, ?_⟩
      rw [hsame]
      exact hbaffled

theorem Resting.giveUp (h : s.Resting) (g : Nat) (r : Except Failure Answer) :
    (Watched.giveUp g r).Orderly s := by
  cases r with
  | ok answer => exact ⟨.one (.refl _), h⟩
  | error f =>
    cases f with
    | engine e =>
      cases e with
      | timeout operation seconds ms =>
        by_cases hi : s.link.installed = some g
        · obtain ⟨hcourse, hrest, -⟩ := h.teardown timedOutReason
          constructor
          · simp only [Watched.giveUp, Attempt.runFrom, ExceptT.run, Session.giveUp, if_pos hi]
            exact hcourse
          · simp only [Watched.giveUp, Attempt.runFrom, ExceptT.run, Session.giveUp, if_pos hi]
            exact hrest
        · constructor
          · simp only [Watched.giveUp, Attempt.runFrom, ExceptT.run, Session.giveUp, if_neg hi]
            exact .one (.refl _)
          · simp only [Watched.giveUp, Attempt.runFrom, ExceptT.run, Session.giveUp, if_neg hi]
            exact h
      | _ => exact ⟨.one (.refl _), h⟩
    | _ => exact ⟨.one (.refl _), h⟩

theorem Resting.request (h : s.Resting)
    (hb : ¬(Watched.called .ensureRunning [] s).Stumbles program) (command : Command)
    (arguments : Fields) : (Watched.request program command arguments).Orderly s := by
  refine (h.ensureRunning program hb).bind fun _ t _ ht => ht.get.bind fun v u _ hu => ?_
  cases v.link.installed with
  | none => exact hu.orderly_once (hu.sound.drifts_trace _)
  | some g =>
    exact (hu.send program g command arguments).outcome.bind fun r w _ hw => hw.giveUp g r

theorem isRunning_trace (s : Session σ) (trace : Option (List TraceRecord)) :
    ({ s with trace } : Session σ).isRunning = (s.isRunning.1, { s.isRunning.2 with trace }) := by
  simp only [Session.isRunning, link, state, generation]
  cases s.supervisor.owner.installed? with
  | none => rfl
  | some c =>
    by_cases hs : s.supervisor.owner.state = .running <;> cases hc : c.isClosed <;>
      cases s.supervisor.isRunning <;> simp [hs, hc, mapLink]

theorem closeChannel_trace (s : Session σ) (reason : String) (trace : Option (List TraceRecord)) :
    ({ s with trace } : Session σ).closeChannel reason = { s.closeChannel reason with trace } := by
  simp only [closeChannel, link]
  cases s.supervisor.owner.installed <;> rfl

theorem haltEngine_trace (s : Session σ) (trace : Option (List TraceRecord)) :
    ({ s with trace } : Session σ).haltEngine = { s.haltEngine with trace } := by
  simp only [haltEngine, link, state]
  by_cases hs : s.supervisor.owner.state = .stopped <;> cases s.supervisor.isRunning <;>
    simp [hs, setState, mapLink]

theorem teardown_trace (s : Session σ) (reason : String) (trace : Option (List TraceRecord)) :
    ({ s with trace } : Session σ).teardown reason = { s.teardown reason with trace } := by
  have h := haltEngine_trace (s.closeChannel reason) trace
  rw [← closeChannel_trace] at h
  exact h

variable {program}

theorem baffled_trace (trace : Option (List TraceRecord)) :
    ({ s with trace } : Session σ).Baffled program ↔ s.Baffled program := by
  unfold Baffled Watched.readied
  rw [teardown_trace]
  rfl

theorem stumbles_trace (trace : Option (List TraceRecord)) :
    ({ s with trace } : Session σ).Stumbles program ↔ s.Stumbles program := by
  unfold Stumbles
  rw [isRunning_trace, baffled_trace]

end

end Session

end AssemblyBrowser
