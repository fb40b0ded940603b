import AssemblyBrowser.Proofs.Engine.Attribution
import AssemblyBrowser.Proofs.Engine.Course
/-!
Every moment of a run. A condition of sessions between operations, which the basic steps of operations
keep, and one of the moments of these steps give one of all moments of an operation. Main statement:
whatever several callers do with a session, alone or at the same time, and whatever its children do,
a history gives account of it, also while a child reacts to a request.
-/
namespace AssemblyBrowser

namespace Session

variable {σ α β : Type}

namespace Watched

/-- What begins with one condition ends with it, and each moment on the way has another one. -/
structure Within (I J : Session σ → Prop) (a : Watched σ α) : Prop where
  keeps : Keeps I a.attempt
  moments : ∀ s, I s → ∀ m ∈ a.moments s, J m

variable {I J : Session σ → Prop}

theorem Within.once (hIJ : ∀ {s}, I s → J s) {a : Attempt (Session σ) α} (h : Keeps I a) :
    Within I J (once a) := by
  refine ⟨h, fun s hs m hm => ?_⟩
  rw [List.mem_singleton.mp hm]
  exact hIJ (h s hs)

theorem Within.bind {a : Watched σ α} {f : α → Watched σ β} (h : Within I J a)
    (h' : ∀ v, Within I J (f v)) : Within I J (a.bind f) := by
  refine ⟨h.keeps.bind fun v => (h' v).keeps, fun s hs m hm => ?_⟩
  rcases List.mem_append.mp hm with hm | hm
  · exact h.moments s hs m hm
  · have hnext := h.keeps s hs
    cases hrun : a.attempt.runFrom s with
    | mk r t =>
      rw [hrun] at hm hnext
      cases r with
      | ok v => exact (h' v).moments t hnext m hm
      | error e => cases hm

theorem Within.map {a : Watched σ α} (h : Within I J a) (f : α → β) : Within I J (a.map f) :=
  ⟨h.keeps.map f, h.moments⟩

theorem Within.outcome {a : Watched σ α} (h : Within I J a) : Within I J a.outcome :=
  ⟨h.keeps.outcome, h.moments⟩

/-- The basic steps of operations keep a condition, and the moments of those that have several have
another one. -/
structure Observed (program : Program σ) (I J : Session σ → Prop) : Prop where
  kept : Kept program I
  within : ∀ {s}, I s → J s
  tearing : ∀ {s}, I s → ∀ reason, ∀ m ∈ teardownMoments reason s, J m
  launching : ∀ {s}, I s → ∀ m ∈ launchMoments program s, J m
  posting : ∀ {s}, I s → ∀ g command arguments, ∀ m ∈ postMoments program g command arguments s, J m

namespace Observed

variable {program : Program σ} (h : Observed program I J)
include h

theorem traced {a : Watched σ α} (ha : Within I J a) (op : TracedOperation)
    (arguments : List String) (shown : α → String) :
    Within I J (traced op arguments shown a) := by
  have hkeeps := h.kept.traced ha.keeps op arguments shown
  refine ⟨hkeeps, fun s hs m hm => ?_⟩
  have hcalled : I (called op arguments s) := h.kept.trace hs _
  rcases List.mem_cons.mp hm with rfl | hm
  · exact h.within hcalled
  · rcases List.mem_append.mp hm with hm | hm
    · exact ha.moments _ hcalled m hm
    · rw [List.mem_singleton.mp hm]
      exact h.within (hkeeps s hs)

theorem once {a : Attempt (Session σ) α} (ha : Keeps I a) : Within I J (once a) := .once h.within ha

theorem teardown (reason : String) : Within I J (teardown reason) :=
  ⟨fun _ hs => h.kept.teardown hs reason, fun _ hs => h.tearing hs reason⟩

theorem launch : Within I J (launch program) :=
  ⟨fun _ hs => h.kept.launch hs, fun _ hs => h.launching hs⟩

/-- While a request is on its way the condition may fail, but not before it is posted and not after
its end. -/
theorem send (g : Nat) (command : Command) (arguments : Fields) :
    Within I J (send program g command arguments) := by
  have hkeeps := h.kept.keeps_send g command arguments
  refine ⟨hkeeps, fun s hs m hm => ?_⟩
  rcases List.mem_append.mp hm with hm | hm
  · exact h.posting hs g command arguments m hm
  · have hend := hkeeps s hs
    simp only [Session.send, Attempt.runFrom_bind] at hend
    simp only [post] at hm
    cases hrun : (Session.post program g command arguments).runFrom s with
    | mk r t =>
      rw [hrun] at hm hend
      cases r with
      | ok id =>
        rw [List.mem_singleton.mp hm]
        exact h.within hend
      | error e => cases hm

theorem settleReload (path : String) (r : Except Failure Answer) :
    Within I J (settleReload path r) := by
  have hkeeps := h.kept.settleReload path r
  refine ⟨hkeeps, fun s hs m hm => ?_⟩
  simp only [Watched.settleReload] at hm
  split at hm
  · exact h.tearing hs reloadFailed m hm
  · rw [List.mem_singleton.mp hm]
    exact h.within (hkeeps s hs)

theorem reload (g : Nat) (paths : List String) : Within I J (reload program g paths) := by
  induction paths with
  | nil => exact h.once fun _ hs => hs
  | cons path rest ih =>
    exact .bind (h.send g .load (loadArguments path)).outcome fun r =>
      .bind (h.settleReload path r) fun _ => ih

theorem relaunch : Within I J (relaunch program) :=
  .bind h.launch fun c => .bind (h.once keeps_get) fun s => h.reload c.generation s.loadedAssemblies

theorem ensureRunning : Within I J (ensureRunning program) := by
  have hnow : Keeps I (runningNow : Attempt (Session σ) Bool) := fun _ hs => h.kept.isRunning hs
  refine h.traced (.bind (h.once hnow) fun running => ?_) _ _ _
  cases running with
  | true => exact h.once (.pure ())
  | false => exact h.relaunch

theorem giveUp (g : Nat) (r : Except Failure Answer) : Within I J (giveUp g r) := by
  refine ⟨h.kept.giveUp g r, fun s hs m hm => ?_⟩
  simp only [Watched.giveUp] at hm
  split at hm
  · split at hm
    · exact h.tearing hs timedOutReason m hm
    · rw [List.mem_singleton.mp hm]
      exact h.within hs
  · rw [List.mem_singleton.mp hm]
    exact h.within hs

theorem request (command : Command) (arguments : Fields) :
    Within I J (request program command arguments) := by
  refine .bind h.ensureRunning fun _ => .bind (h.once keeps_get) fun t => ?_
  cases t.link.installed with
  | none => exact h.once fun _ hs => hs
  | some g => exact .bind (h.send g command arguments).outcome fun r => h.giveUp g r

/-- At every moment of an operation the condition of moments holds. -/
theorem operation (op : Operation) : Within I J (operation program op) := by
  cases op with
  | ensureRunning => exact h.ensureRunning.map _
  | restart => exact (h.traced h.relaunch _ _ _).map _
  | stop => exact (h.traced (h.teardown _) _ _ _).map _
  | load path =>
    refine (h.traced (.bind (h.request _ _) fun answer => h.once ?_) _ _ _).map _
    refine .bind (keeps_ofExcept _) fun m => .bind (fun s hs => ?_) fun _ => .pure m
    exact h.kept.loaded hs (·.put path m)
  | children key assembly =>
    exact (h.traced (.bind (h.request _ _) fun _ => h.once (keeps_ofExcept _)) _ _ _).map _
  | decompile key language assembly =>
    exact (h.traced (.bind (h.once (keeps_ofExcept _)) fun _ => .bind (h.request _ _) fun _ =>
      h.once (keeps_ofExcept _)) _ _ _).map _

end Observed

end Watched

/-! ## Accounts -/

variable {τ : Type} {s : Session σ} {past : List Passage}

/-- Some history gives account of the session. -/
def IsAccounted (s : Session σ) : Prop := ∃ past, s.Accounted past

/-- Besides no request waits. -/
structure IsQuiet (s : Session σ) : Prop where
  accounted : s.IsAccounted
  idle : ∀ g, s.link.waiting g = []

namespace Accounted

variable (h : s.Accounted past)
include h

/-- A history gives account whatever the children go by. -/
theorem mapProgram (f : σ → τ) : (s.mapProgram f).Accounted past where
  sound := ⟨h.sound.link, h.sound.channels, h.sound.current, h.sound.ended⟩
  consistent := ⟨h.consistent.held, h.consistent.shut⟩
  link := h.link
  speaks := h.speaks
  numbered := h.numbered

/-- While no channel is installed, children come and go without an account. -/
theorem unheard (hn : s.link.installed = none) {t : Supervisor σ Link}
    (ht : Supervisor.Ages (fun l l' => l.Sound → l.Hears l') s.supervisor t)
    (hsilent : Supervisor.Ages (fun l l' => l.installed = none → l' = l) s.supervisor t)
    (hconsistent : t.Consistent) : ({ s with supervisor := t } : Session σ).Accounted past :=
  (h.silent hn (h.sound.onSupervisor ht (.inl hn)).1.sound hconsistent (hsilent.owner hn)).accounted

theorem actMoments (g : Nat) (as : List Act) :
    ∀ t ∈ Supervisor.actMoments Link.listener g as s.supervisor,
      ({ s with supervisor := t } : Session σ).IsAccounted := by
  induction as generalizing s past with
  | nil =>
    intro t ht
    rw [List.mem_singleton.mp ht]
    exact ⟨past, h⟩
  | cons a as ih =>
    intro t ht
    rcases List.mem_cons.mp ht with rfl | ht
    · exact ⟨past, h⟩
    · exact ih (h.act g a).1 t ht

theorem teardownMoments (reason : String) :
    ∀ m ∈ Watched.teardownMoments reason s, m.IsAccounted := by
  intro m hm
  have hclosed := (h.closeChannel reason).accounted
  have hn := (h.sound.closeChannel reason).2
  have hhalted := (hclosed.haltEngine hn).accounted
  unfold Watched.teardownMoments at hm
  dsimp only at hm
  generalize s.closeChannel reason = t at hm hclosed hn hhalted
  split at hm
  · rw [List.mem_singleton.mp hm]
    exact ⟨past, hclosed⟩
  · have hstopping := (hclosed.setState .stopping).accounted
    rw [List.cons_append, List.cons_append, List.mem_cons, List.mem_cons, List.mem_append,
      List.mem_map, List.mem_singleton] at hm
    rcases hm with rfl | rfl | ⟨u, hu, rfl⟩ | rfl
    · exact ⟨past, hclosed⟩
    · exact ⟨past, hstopping⟩
    · refine ⟨past, hstopping.unheard hn ?_ ?_ ?_⟩
      · exact Supervisor.stopMoments_ages Link.listener_respects _ u hu
      · exact Supervisor.stopMoments_ages Link.silent_respects _ u hu
      · exact (Supervisor.consistent_keptByStop _).stopMoments hstopping.consistent u hu
    · exact ⟨past, hhalted⟩

theorem launchMoments (program : Program σ) :
    ∀ m ∈ Watched.launchMoments program s, m.IsAccounted := by
  intro m hm
  have hready : (Watched.readied s).Accounted past :=
    ((h.teardown "engine restarting").accounted.setState .starting).accounted
  have hn : (Watched.readied s).link.installed = none := (h.sound.teardown "engine restarting").2.1
  have hend := (h.launch program).accounted
  rw [launch_run] at hend
  simp only [Watched.launchMoments, List.append_assoc, List.cons_append, List.mem_append,
    List.mem_cons, List.mem_map] at hm
  rcases hm with hm | rfl | ⟨u, hu, rfl⟩ | hm
  · exact h.teardownMoments "engine restarting" m hm
  · exact ⟨past, hready⟩
  · refine ⟨past, hready.unheard hn ?_ ?_ ?_⟩
    · exact Supervisor.startMoments_ages Link.listener_respects program _ u hu
    · exact Supervisor.startMoments_ages Link.silent_respects program _ u hu
    · exact (Supervisor.consistent_keptByStart program _).startMoments hready.consistent u hu
  · change (settleLaunch ((Supervisor.start program Link.listener).runFrom
      (Watched.readied s).supervisor).1 { Watched.readied s with supervisor :=
        ((Supervisor.start program Link.listener).runFrom (Watched.readied s).supervisor).2 }).2.Accounted
        past at hend
    generalize (Supervisor.start program Link.listener).runFrom (Watched.readied s).supervisor = r
      at hm hend
    obtain ⟨r, u⟩ := r
    cases r with
    | error f =>
      rw [List.mem_singleton.mp hm]
      exact ⟨past, hend⟩
    | ok g =>
      simp only [Watched.settleLaunchMoments, List.mem_cons, List.not_mem_nil, or_false] at hm
      rcases hm with rfl | rfl
      · -- the session as it is running, but for its state
        exact ⟨past, (hend.setState u.owner.state).accounted⟩
      · exact ⟨past, hend⟩

theorem sendMoments (program : Program σ) (g : Nat) (line : String) :
    ∀ t ∈ (Supervisor.HandleStep.send g line).moments program Link.listener s.supervisor,
      ({ s with supervisor := t } : Session σ).IsAccounted := by
  intro t ht
  simp only [Supervisor.HandleStep.moments] at ht
  split at ht
  · rw [List.mem_singleton.mp ht]
    exact ⟨past, h⟩
  · let reaction := program.react s.supervisor.program g line
    let written : Session σ :=
      { s with supervisor := { s.supervisor.record (.write g line) with program := reaction.2 } }
    have hwritten := (h.same (t := written) ⟨h.sound.link, h.sound.channels, h.sound.current,
      h.sound.ended⟩ rfl rfl rfl rfl).accounted
    exact hwritten.actMoments g reaction.1.acts t ht

/-- While a child reacts to a request a history gives account of the session. -/
theorem postMoments (program : Program σ) {g : Nat} (hfree : s.link.waiting g = [])
    (command : Command) (arguments : Fields) :
    ∀ m ∈ Watched.postMoments program g command arguments s, m.IsAccounted := by
  intro m hm
  unfold Watched.postMoments at hm
  split at hm
  · rename_i c hr hc
    have hwrote := (h.enlist hc hr hfree arguments).1
    have hreacts := hwrote.sendMoments program g (Request.encode ⟨c.nextId, command, arguments⟩)
    rw [List.cons_append, List.mem_cons, List.mem_append, List.mem_map, List.mem_singleton] at hm
    rcases hm with rfl | ⟨u, hu, rfl⟩ | rfl
    · exact ⟨_, hwrote⟩
    · exact hreacts u hu
    · obtain ⟨later, hlater⟩ := hreacts _ (List.mem_of_getLast? (Supervisor.getLast?_moments ..))
      rw [post_run program hc hr arguments]
      unfold settlePost
      split
      · exact ⟨later, (hlater.forget g c.nextId).accounted⟩
      · exact ⟨later, hlater⟩
  · rw [List.mem_singleton.mp hm]
    exact ⟨past, h⟩

end Accounted

/-- Some session that lays down what passes is this one otherwise, and no request waits in it. -/
theorem IsQuiet.chronicle (h : s.IsQuiet) :
    ∃ t : Session (σ × List Passage), t.mapProgram Prod.fst = s ∧ t.Rests t := by
  obtain ⟨past, ha⟩ := h.accounted
  exact ⟨s.mapProgram (·, past), rfl, ⟨ha.mapProgram (·, past), List.prefix_refl _, .refl _⟩, h.idle⟩

theorem Rests.isQuiet {s t : Session (σ × List Passage)} (h : s.Rests t) :
    (t.mapProgram Prod.fst).IsQuiet :=
  ⟨⟨t.past, h.continues.faithful.mapProgram Prod.fst⟩, h.idle⟩

/-- Between its operations no request of a lone caller waits. -/
theorem quiet_kept (program : Program σ) : Kept program IsQuiet := by
  have hmirrors := program.recorded_mirrors
  have hkept := fun t => rests_kept program t
  constructor
  · intro s hs trace
    obtain ⟨t, rfl, ht⟩ := hs.chronicle
    exact ((hkept t).trace ht trace).isQuiet
  · intro s hs
    obtain ⟨t, rfl, ht⟩ := hs.chronicle
    rw [isRunning_mapProgram]
    exact ((hkept t).isRunning ht).isQuiet
  · intro s hs reason
    obtain ⟨t, rfl, ht⟩ := hs.chronicle
    rw [teardown_mapProgram]
    exact ((hkept t).teardown ht reason).isQuiet
  · intro s hs
    obtain ⟨t, rfl, ht⟩ := hs.chronicle
    rw [mirrors_launch hmirrors t]
    exact ((hkept t).launch ht).isQuiet
  · intro s hs g command arguments
    obtain ⟨t, rfl, ht⟩ := hs.chronicle
    rw [mirrors_send hmirrors g command arguments t]
    exact ((hkept t).send ht g command arguments).isQuiet
  · intro s hs f
    obtain ⟨t, rfl, ht⟩ := hs.chronicle
    exact ((hkept t).loaded ht f).isQuiet

theorem observed_accounts (program : Program σ) : Watched.Observed program IsQuiet IsAccounted where
  kept := quiet_kept program
  within h := h.accounted
  tearing h reason := by
    obtain ⟨past, ha⟩ := h.accounted
    exact ha.teardownMoments reason
  launching h := by
    obtain ⟨past, ha⟩ := h.accounted
    exact ha.launchMoments program
  posting h g command arguments := by
    obtain ⟨past, ha⟩ := h.accounted
    exact ha.postMoments program (h.idle g) command arguments

end Session

/-! ## Runs -/

namespace Callers

variable {σ : Type}

/-- What a session of several callers can be when a child does something while a request waits: that
between two of their steps; that in the middle of a child's reaction to a request which a caller
posts; and that in the middle of what a caller does who is alone. -/
inductive Arises (program : Program σ) (start : Callers σ) : Session σ → Prop
  | between (xs : List CallersStep) : Arises program start (following program xs start).session
  | posting (xs : List CallersStep) {g : Nat} {command : Command} {arguments : Fields}
      {m : Session σ} (hfree : (following program xs start).isFree g = true)
      (hm : m ∈ Session.Watched.postMoments program g command arguments
        (following program xs start).session) : Arises program start m
  | alone (xs : List CallersStep) {op : Operation} {m : Session σ}
      (hidle : (following program xs start).isBusy = false)
      (hm : m ∈ (Session.Watched.operation program op).moments
        (following program xs start).session) : Arises program start m

theorem Orderly.following_accounted {start : Callers σ}
    (h : (start.mapProgram (·, [])).Orderly none) (program : Program σ) (xs : List CallersStep) :
    (following program xs start).session.IsAccounted := by
  rw [← witnessing_mapProgram]
  exact ⟨_, (h.witnessing program xs).faithful.mapProgram Prod.fst⟩

/-- At every moment a history gives account of the session. -/
theorem Arises.accounted {program : Program σ} {start : Callers σ} {s : Session σ}
    (hs : Arises program start s) (h : (start.mapProgram (·, [])).Orderly none) :
    s.IsAccounted := by
  cases hs with
  | between xs => exact h.following_accounted program xs
  | posting xs hfree hm =>
    obtain ⟨past, ha⟩ := h.following_accounted program xs
    rw [← witnessing_mapProgram] at ha hfree hm
    exact ha.postMoments program ((h.witnessing program xs).idle hfree) _ _ s hm
  | alone xs hidle hm =>
    rw [← witnessing_mapProgram] at hidle hm
    have hquiet := ((h.witnessing program xs).rests hidle).isQuiet
    exact ((Session.observed_accounts program).operation _).moments _ hquiet s hm

end Callers

end AssemblyBrowser
