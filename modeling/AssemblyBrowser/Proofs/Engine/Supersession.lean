import AssemblyBrowser.Proofs.Engine.Roster
/-!
Engines that take one another's place. The caller in whose hands the life of the engine is takes the
channel away, stops the engine, starts another one, installs its channel and loads what is remembered,
step by step, and between any two of these steps the other callers go on and the children of all
generations print and end. Main statement: what waits when the channel is taken away fails as
unavailable, whatever comes later, and what a child of another generation than that of the installed
channel does changes nothing but what is known of the children.
-/
namespace AssemblyBrowser

/-! ## Children of another generation -/

namespace Supervisor

/-- The child that is held runs as before when another one does something. -/
theorem isRunning_act {σ ρ : Type} {listener : Listener ρ} {s : Supervisor σ ρ} {g : Nat}
    (h : s.Consistent) (hg : s.generation ≠ g) (a : Act) :
    (s.act listener g a).isRunning = s.isRunning := by
  have hturn := act_turn listener g s a
  cases hheld : s.held with
  | none =>
    rw [isRunning_of_held_none hheld, isRunning_of_held_none (hturn.frame.held.trans hheld)]
  | some g' =>
    obtain ⟨rfl, c, hc, -⟩ := h.held g' hheld
    have hheld' : (s.act listener g a).held = some s.generation := hturn.frame.held.trans hheld
    have hc' := (hturn.others s.generation hg).trans hc
    have hended : (s.act listener g a).endedGeneration = (s.act listener g a).generation ↔
        s.endedGeneration = s.generation := by
      have hgen := hturn.frame.generation
      have hlater := hturn.ended
      omega
    simp only [isRunning, heldChild?, hheld, hheld', hc, hc', Option.bind_some, ne_eq, hended]

end Supervisor

/-! ## Changes of the engine, step by step -/

/-- How far the one has come in whose hands the life of the engine is. -/
inductive TurnoverStage
  /-- The channel is to be taken away. -/
  | close
  /-- The channel has been taken away, and it is to be seen whether there is an engine to stop. -/
  | halt
  | stop
  /-- The engine has been stopped. -/
  | rest
  | start
  /-- A new engine has been started, and its channel is to be installed. -/
  | install (generation : Nat)
  /-- The channel has been installed. -/
  | announce (generation : Nat)
deriving DecidableEq, Repr

structure Turnover where
  caller : Nat
  operation : Operation
  stage : TurnoverStage
deriving DecidableEq, Repr

/-- The reason for which an operation closes the channel. -/
def Operation.closing : Operation → String
  | .stop => "engine stopped"
  | _ => "engine restarting"

/-- Callers one of which may be about to stop the engine or to put another one in its place. -/
structure Changeover (σ : Type) where
  callers : Callers σ
  turnover : Option Turnover := none

/-- A step of callers, of which one that takes the life of the engine into its hands has only begun
with it; and the next step of that one. -/
inductive ChangeoverStep
  | callers (x : CallersStep)
  | proceed
deriving DecidableEq, Repr

namespace Changeover

variable {σ : Type}

/-- A caller takes the life of the engine into its hands, and sees whether there is more to do. -/
def enter (c : Callers σ) (i : Nat) (op : Operation) : Changeover σ :=
  let c := { c with lifecycle := some i }
  match op with
  | .stop => ⟨c, some ⟨i, op, .close⟩⟩
  | _ =>
    let (running, s) := c.session.isRunning
    let c := c.withSession s
    if op ≠ .restart && running then ⟨c.afterLaunch i op (.ok ()), none⟩
    else ⟨c, some ⟨i, op, .close⟩⟩

/-- What follows once the engine is stopped. -/
def stopped (c : Callers σ) (i : Nat) (op : Operation) : Changeover σ :=
  match op with
  | .stop => ⟨c.finish i op (.ok .nothing), none⟩
  | _ => ⟨c.withSession (c.session.setState .starting), some ⟨i, op, .start⟩⟩

def advance (program : Program σ) (c : Callers σ) (t : Turnover) : Changeover σ :=
  let s := c.session
  match t.stage with
  | .close => ⟨c.withSession (s.closeChannel t.operation.closing), some { t with stage := .halt }⟩
  | .halt =>
    if s.state = .stopped && !s.supervisor.isRunning then stopped c t.caller t.operation
    else ⟨c.withSession (s.setState .stopping), some { t with stage := .stop }⟩
  | .stop =>
    ⟨c.withSession { s with supervisor := s.supervisor.stop Link.listener },
      some { t with stage := .rest }⟩
  | .rest => stopped (c.withSession (s.setState .stopped)) t.caller t.operation
  | .start =>
    match (Supervisor.start program Link.listener).runFrom s.supervisor with
    | (.error f, v) =>
      let s := (Session.settleLaunch (.error f) { s with supervisor := v }).2
      ⟨(c.withSession s).afterLaunch t.caller t.operation (.error f), none⟩
    | (.ok g, v) =>
      ⟨c.withSession { s with supervisor := v }, some { t with stage := .install g }⟩
  | .install g =>
    let channel : Channel := { generation := g, timeout := s.settings.requestTimeout }
    ⟨c.withSession (s.mapLink (·.install channel)), some { t with stage := .announce g }⟩
  | .announce g =>
    let s := s.setState .running
    ⟨(c.withSession s).reloadNext t.caller t.operation g s.loadedAssemblies, none⟩

/-- The next step of the one in whose hands the life of the engine is. -/
def proceed (program : Program σ) (m : Changeover σ) : Changeover σ :=
  match m.turnover with
  | some t => advance program m.callers t
  | none => m

/-- The caller that takes the life of the engine into its hands. -/
def taker? (c : Callers σ) : CallersStep → Option (Nat × Operation)
  | .step i _ =>
    match c.phase? i with
    | some (.wanting op) => if c.lifecycle.isNone then some (i, op) else none
    | _ => none
  | _ => none

end Changeover

def ChangeoverStep.after {σ : Type} (program : Program σ) (x : ChangeoverStep) (m : Changeover σ) :
    Changeover σ :=
  match x with
  | .callers x =>
    match Changeover.taker? m.callers x with
    | some (i, op) => Changeover.enter m.callers i op
    | none => { m with callers := x.after program m.callers }
  | .proceed => m.proceed program

namespace Changeover

variable {σ : Type}

/-- The changeover after a run. -/
def following (program : Program σ) (xs : List ChangeoverStep) (m : Changeover σ) : Changeover σ :=
  xs.foldl (fun m x => x.after program m) m

theorem taker_iff {c : Callers σ} {x : CallersStep} {i : Nat} {op : Operation} :
    taker? c x = some (i, op) ↔
      (∃ patient, x = .step i patient) ∧ c.phase? i = some (.wanting op) ∧ c.lifecycle = none := by
  cases x with
  | step j patient =>
    constructor
    · intro htaker
      simp only [taker?] at htaker
      split at htaker
      · rename_i op' hp
        split at htaker
        · rename_i hl
          cases htaker
          exact ⟨⟨patient, rfl⟩, hp, Option.isNone_iff_eq_none.mp hl⟩
        · cases htaker
      · cases htaker
    · rintro ⟨⟨_, hx⟩, hp, hl⟩
      cases hx
      simp [taker?, hp, hl]
  | _ => simp [taker?]

/-! ## Without interruption -/

/-- At most so many steps of the one in whose hands the life of the engine is lead from one state to the
other. -/
def Leads (program : Program σ) (k : Nat) (m n : Changeover σ) : Prop :=
  ∃ j ≤ k, following program (List.replicate j .proceed) m = n

theorem Leads.refl (program : Program σ) (k : Nat) (m : Changeover σ) : Leads program k m m :=
  ⟨0, Nat.zero_le k, rfl⟩

theorem Leads.step {program : Program σ} {k : Nat} {c : Callers σ} {t : Turnover} {m n : Changeover σ}
    (hm : advance program c t = m) (h : Leads program k m n) :
    Leads program (k + 1) ⟨c, some t⟩ n := by
  obtain ⟨j, hj, hn⟩ := h
  refine ⟨j + 1, Nat.succ_le_succ hj, ?_⟩
  rw [← hn, ← hm]
  rfl

theorem Leads.mono {program : Program σ} {k k' : Nat} {m n : Changeover σ} (h : Leads program k m n)
    (hk : k ≤ k') : Leads program k' m n := by
  obtain ⟨j, hj, hn⟩ := h
  exact ⟨j, Nat.le_trans hj hk, hn⟩

/-- Four steps make up a teardown. -/
theorem leads_stopped (program : Program σ) {k : Nat} (c : Callers σ) (i : Nat) (op : Operation)
    {n : Changeover σ}
    (h : Leads program k (stopped (c.withSession (c.session.teardown op.closing)) i op) n) :
    Leads program (k + 4) ⟨c, some ⟨i, op, .close⟩⟩ n := by
  have hteardown : c.session.teardown op.closing = (c.session.closeChannel op.closing).haltEngine := rfl
  rw [hteardown] at h
  refine .step (k := k + 3) (m := ⟨c.withSession (c.session.closeChannel op.closing),
    some ⟨i, op, .halt⟩⟩) rfl ?_
  generalize c.session.closeChannel op.closing = s at h ⊢
  by_cases hrests : (s.state = .stopped && !s.supervisor.isRunning) = true
  · simp only [Session.haltEngine, if_pos hrests] at h
    exact .step (if_pos hrests) (h.mono (by omega))
  · simp only [Session.haltEngine, if_neg hrests] at h
    refine .step (m := ⟨c.withSession (s.setState .stopping), some ⟨i, op, .stop⟩⟩)
      (if_neg hrests) ?_
    exact .step rfl (.step rfl h)

/-- Three steps make up what remains of a launch. -/
theorem leads_launch (program : Program σ) (c : Callers σ) (i : Nat) (op : Operation) :
    let ready := (c.session.teardown "engine restarting").setState .starting
    Leads program 3 ⟨c.withSession ready, some ⟨i, op, .start⟩⟩
      ⟨match (Session.launch program).runFrom c.session with
        | (.error f, s) => (c.withSession s).afterLaunch i op (.error f)
        | (.ok channel, s) =>
          (c.withSession s).reloadNext i op channel.generation s.loadedAssemblies, none⟩ := by
  intro ready
  have hlaunch := Session.launch_run program c.session
  dsimp only at hlaunch
  rw [hlaunch]
  change Leads program 3 ⟨c.withSession ready, some ⟨i, op, .start⟩⟩ ⟨match Session.settleLaunch
    ((Supervisor.start program Link.listener).runFrom ready.supervisor).1 _ with
    | (.error f, s) => (c.withSession s).afterLaunch i op (.error f)
    | (.ok channel, s) =>
      (c.withSession s).reloadNext i op channel.generation s.loadedAssemblies, none⟩
  cases hstart : (Supervisor.start program Link.listener).runFrom ready.supervisor with
  | mk r v =>
    cases r with
    | error f =>
      refine .step (k := 2) (m := ⟨(c.withSession (Session.settleLaunch (.error f)
        { ready with supervisor := v }).2).afterLaunch i op (.error f), none⟩) ?_ ?_
      · simp only [advance, Callers.withSession, hstart]
      · cases f <;> exact .refl program 2 _
    | ok g =>
      refine .step (k := 2) (m := ⟨c.withSession { ready with supervisor := v },
        some ⟨i, op, .install g⟩⟩) ?_ ?_
      · simp only [advance, Callers.withSession, hstart]
      · exact .step rfl (.step rfl (.refl program 0 _))

/-- Where nobody comes in between, the steps are one step of the callers. -/
theorem leads_takeLifecycle (program : Program σ) (c : Callers σ) (i : Nat) (op : Operation) :
    Leads program 7 (enter c i op) ⟨c.takeLifecycle program i op, none⟩ := by
  by_cases hstop : op = .stop
  · subst hstop
    exact leads_stopped program (k := 3) _ i .stop (.refl program 3 _)
  · let looked : Callers σ := { c with session := c.session.isRunning.2, lifecycle := some i }
    have henter : enter c i op = if op ≠ .restart && c.session.isRunning.1 then
        ⟨looked.afterLaunch i op (.ok ()), none⟩ else ⟨looked, some ⟨i, op, .close⟩⟩ := by
      cases op <;> first | exact absurd rfl hstop | rfl
    have htake : c.takeLifecycle program i op = if op ≠ .restart && c.session.isRunning.1 then
        looked.afterLaunch i op (.ok ())
      else match (Session.launch program).runFrom looked.session with
        | (.error f, s) => (looked.withSession s).afterLaunch i op (.error f)
        | (.ok channel, s) =>
          (looked.withSession s).reloadNext i op channel.generation s.loadedAssemblies := by
      cases op <;> first | exact absurd rfl hstop | rfl
    rw [henter, htake]
    split
    · exact .refl program 7 _
    · apply leads_stopped program (k := 3)
      have hclosing : op.closing = "engine restarting" := by
        cases op <;> first | exact absurd rfl hstop | rfl
      have hstopped : ∀ d : Callers σ, stopped d i op =
          ⟨d.withSession (d.session.setState .starting), some ⟨i, op, .start⟩⟩ := fun d => by
        cases op <;> first | exact absurd rfl hstop | rfl
      rw [hclosing, hstopped]
      exact leads_launch program looked i op

end Changeover

/-! ## What every step keeps -/

/-- What a stage may count on, whatever the others do in the meantime. -/
def TurnoverStage.Fits {σ : Type} (s : Session σ) : TurnoverStage → Prop
  | .close | .announce _ => True
  | .halt | .stop => s.link.installed = none
  | .rest | .start => s.link.installed = none ∧ s.supervisor.isRunning = false
  | .install g => s.link.installed = none ∧ s.generation = g ∧ s.link.channel? g = none

theorem TurnoverStage.Fits.spares {σ : Type} {s t : Session σ} {stage : TurnoverStage}
    (h : stage.Fits s) (hs : s.Spares t) : stage.Fits t := by
  have hi := hs.installed
  cases stage with
  | close | announce g => trivial
  | halt | stop => exact hi.trans h
  | rest | start => exact ⟨hi.trans h.1, hs.idle h.2⟩
  | install g => exact ⟨hi.trans h.1, hs.generation.trans h.2.1, hs.absent g h.2.2⟩

namespace Changeover

variable {σ : Type} {m n : Changeover σ} {t : Turnover} {program : Program σ}

structure Sound (m : Changeover σ) : Prop where
  registered : m.callers.Registered none
  holder : ∀ t, m.turnover = some t → m.callers.lifecycle = some t.caller
  wanting : ∀ t, m.turnover = some t → m.callers.phase? t.caller = some (.wanting t.operation)
  fits : ∀ t, m.turnover = some t → t.stage.Fits m.callers.session

theorem sound_over {c : Callers σ} (hc : c.Registered none) : Sound ⟨c, none⟩ :=
  ⟨hc, fun _ hn => (by cases hn), fun _ hn => (by cases hn), fun _ hn => (by cases hn)⟩

theorem sound_under_way {c : Callers σ} (hc : c.Registered none) (hl : c.lifecycle = some t.caller)
    (hp : c.phase? t.caller = some (.wanting t.operation)) (hfits : t.stage.Fits c.session) :
    Sound ⟨c, some t⟩ := by
  refine ⟨hc, ?_, ?_, ?_⟩
  · rintro _ ⟨⟩
    exact hl
  · rintro _ ⟨⟩
    exact hp
  · rintro _ ⟨⟩
    exact hfits

/-- A step loses nothing that has been settled, and a caller that waits and takes no step waits. -/
structure Follows (x : ChangeoverStep) (m n : Changeover σ) : Prop where
  sound : n.Sound
  ages : m.callers.session.link.Ages n.callers.session.link
  waits : ∀ j p, m.callers.phase? j = some p → p.demand? ≠ none →
    (∀ patient, x ≠ .callers (.step j patient)) → n.callers.phase? j = some p

namespace Sound

variable (h : m.Sound)
include h

section

variable (ht : m.turnover = some t)
include ht

/-- The one who waits is not the one in whose hands the life of the engine is. -/
theorem waits_ne {j : Nat} {p : Phase} (hp : m.callers.phase? j = some p) (hd : p.demand? ≠ none) :
    j ≠ t.caller := by
  rintro rfl
  cases hp.symm.trans (h.wanting t ht)
  exact hd rfl

/-- A caller that has the life of the engine in its hands may do with the session what it wants. -/
theorem stays {s : Session σ} (hs : m.callers.session.Tends s) :
    Callers.Stays t.caller m.callers (m.callers.withSession s) := by
  refine (h.registered.leave t.caller).withSession_free hs fun k hk hl => hk ?_
  exact Option.some.inj (hl.symm.trans (h.holder t ht))

/-- The turnover goes on. -/
theorem goes_on {s : Session σ} (hs : m.callers.session.Tends s) {stage : TurnoverStage}
    (hfits : stage.Fits s) :
    Follows .proceed m ⟨m.callers.withSession s, some { t with stage }⟩ := by
  have hp := h.wanting t ht
  have hregistered := (h.stays ht hs).registered.back hp rfl rfl
  exact ⟨sound_under_way hregistered (h.holder t ht) hp hfits, hs.ages, fun _ _ hp _ _ => hp⟩

/-- The turnover is over. -/
theorem ends {c : Callers σ} (hc : Callers.Moves t.caller m.callers c) : Follows .proceed m ⟨c, none⟩ :=
  ⟨sound_over hc.registered, hc.ages,
    fun j _ hp hd _ => (hc.others j (h.waits_ne ht hp hd)).trans hp⟩

theorem follows_stopped {s : Session σ} (hs : m.callers.session.Tends s)
    (hn : s.link.installed = none) (hidle : s.supervisor.isRunning = false) :
    Follows .proceed m (stopped (m.callers.withSession s) t.caller t.operation) := by
  have hstays := h.stays ht hs
  have hfits : TurnoverStage.start.Fits (s.setState .starting) := ⟨hn, hidle⟩
  unfold stopped
  split
  · exact h.ends ht (hstays.moves (hstays.registered.finish _ _))
  · exact h.goes_on ht (hs.trans (hs.upright.setState .starting)) hfits

theorem follows_advance (program : Program σ) : Follows .proceed m (advance program m.callers t) := by
  have hs := h.registered.upright
  have hfits := h.fits t ht
  unfold advance
  dsimp only
  cases hstage : t.stage with
  | close => exact h.goes_on ht (hs.closeChannel _) (hs.sound.closeChannel _).2
  | halt =>
    rw [hstage] at hfits
    dsimp only
    split
    · rename_i hrests
      simp only [Bool.and_eq_true, Bool.not_eq_true', decide_eq_true_eq] at hrests
      exact h.follows_stopped ht hs.refl hfits hrests.2
    · exact h.goes_on ht (hs.setState .stopping) hfits
  | stop =>
    rw [hstage] at hfits
    have howner := (Supervisor.stop_ages Link.silent_respects m.callers.session.supervisor).owner hfits
    refine h.goes_on ht (hs.stop hfits) ⟨(congrArg Link.installed howner).trans hfits, ?_⟩
    exact Supervisor.isRunning_of_held_none (Supervisor.stop_held _ m.callers.session.supervisor)
  | rest =>
    rw [hstage] at hfits
    exact h.follows_stopped ht (hs.setState .stopped) hfits.1 hfits.2
  | start =>
    rw [hstage] at hfits
    have hstarted := hs.start program hfits.1
    cases hstart : (Supervisor.start program Link.listener).runFrom m.callers.session.supervisor with
    | mk r v =>
      rw [hstart] at hstarted
      cases r with
      | error f =>
        have hsettled : m.callers.session.Tends
            (Session.settleLaunch (.error f) { m.callers.session with supervisor := v }).2 := by
          cases f with
          | engine e => exact hstarted.trans (hstarted.upright.setState .stopped)
          | _ => exact hstarted
        have hstays := h.stays ht hsettled
        exact h.ends ht (hstays.moves (hstays.registered.afterLaunch _ _))
      | ok g => exact h.goes_on ht hstarted (hs.started hfits.1 hfits.2 hstart)
  | install g =>
    rw [hstage] at hfits
    exact h.goes_on ht (hs.install hfits.1 hfits.2.1 hfits.2.2) trivial
  | announce g =>
    have hstays := h.stays ht (hs.setState .running)
    exact h.ends ht (hstays.moves (hstays.registered.reloadNext (h.holder t ht) _ _ _))

end

/-- A caller takes the life of the engine into its hands. -/
theorem follows_enter {i : Nat} {op : Operation} (hp : m.callers.phase? i = some (.wanting op))
    (hl : m.callers.lifecycle = none) (patient : Bool) :
    Follows (.callers (.step i patient)) m (enter m.callers i op) := by
  have htakes := (h.registered.leave i).takes hl
  have hlook := htakes.trans htakes.registered.isRunning
  have hne : ∀ {j}, (∀ patient',
      ChangeoverStep.callers (.step i patient) ≠ .callers (.step j patient')) → j ≠ i := by
    rintro j hx rfl
    exact hx patient rfl
  have hbegins : ∀ {c : Callers σ}, Callers.Stays i m.callers c → c.lifecycle = some i →
      Follows (.callers (.step i patient)) m ⟨c, some ⟨i, op, .close⟩⟩ := by
    intro c hc hl'
    have hphase : ∀ j, c.phase? j = m.callers.phase? j := fun j => by
      simp only [Callers.phase?, hc.phases]
    have hp' := (hphase i).trans hp
    exact ⟨sound_under_way (hc.registered.back hp' rfl rfl) hl' hp' trivial, hc.ages,
      fun j _ hj _ _ => (hphase j).trans hj⟩
  unfold enter
  dsimp only
  split
  · exact hbegins htakes rfl
  · split
    · have hmoves := hlook.moves (hlook.registered.afterLaunch op (.ok ()))
      exact ⟨sound_over hmoves.registered, hmoves.ages,
        fun j _ hj _ hx => (hmoves.others j (hne hx)).trans hj⟩
    · exact hbegins hlook rfl

theorem follows_callers (program : Program σ) {x : CallersStep} (hx : taker? m.callers x = none) :
    Follows (.callers x) m { m with callers := x.after program m.callers } := by
  have hlasts := h.registered.lasts program x fun i patient op he hp hl => by
    cases hx.symm.trans (taker_iff.mpr ⟨⟨patient, he⟩, hp, hl⟩)
  refine ⟨⟨hlasts.registered, fun t ht => ?_, fun t ht => ?_, fun t ht => ?_⟩, hlasts.ages,
    fun j p hp hd hne => ?_⟩
  · exact (hlasts.spares _ _ (h.holder t ht) (h.wanting t ht)).1
  · exact (hlasts.spares _ _ (h.holder t ht) (h.wanting t ht)).2.1
  · exact (h.fits t ht).spares (hlasts.spares _ _ (h.holder t ht) (h.wanting t ht)).2.2
  · refine hlasts.phases j p hp (fun r he => hd (by rw [he]; rfl)) fun patient he => ?_
    exact hne patient (by rw [he])

/-- Whatever happens next. -/
theorem follows (program : Program σ) (x : ChangeoverStep) : Follows x m (x.after program m) := by
  cases x with
  | callers x =>
    simp only [ChangeoverStep.after]
    cases htaker : taker? m.callers x with
    | none => exact h.follows_callers program htaker
    | some taker =>
      obtain ⟨i, op⟩ := taker
      obtain ⟨⟨patient, rfl⟩, hp, hl⟩ := taker_iff.mp htaker
      exact h.follows_enter hp hl patient
  | proceed =>
    simp only [ChangeoverStep.after, proceed]
    split
    · rename_i t ht
      exact h.follows_advance ht program
    · exact ⟨h, .refl _, fun _ _ hp _ _ => hp⟩

/-- Whatever happens in a run. -/
theorem following (program : Program σ) (xs : List ChangeoverStep) :
    (following program xs m).Sound ∧
      m.callers.session.link.Ages (following program xs m).callers.session.link ∧
      ∀ j p, m.callers.phase? j = some p → p.demand? ≠ none →
        (∀ patient, .callers (.step j patient) ∉ xs) →
        (following program xs m).callers.phase? j = some p := by
  induction xs generalizing m with
  | nil => exact ⟨h, .refl _, fun _ _ hp _ _ => hp⟩
  | cons x xs ih =>
    obtain ⟨hsound, hages, hwaits⟩ := h.follows program x
    obtain ⟨hsound', hages', hwaits'⟩ := ih hsound
    refine ⟨hsound', hages.trans hages', fun j p hp hd hx => ?_⟩
    refine hwaits' j p (hwaits j p hp hd fun patient he => ?_) hd fun patient hm => ?_
    · exact hx patient (he ▸ List.mem_cons_self)
    · exact hx patient (List.mem_cons_of_mem _ hm)

end Sound

end Changeover

/-! ## What waits, and what is reported too late -/

/-- What a child of another generation does is no matter of the session. -/
theorem Session.Upright.superseded {σ : Type} {s : Session σ} (h : s.Upright) {g : Nat}
    (hg : s.link.installed ≠ some g) (a : Act) :
    let t := { s with supervisor := s.supervisor.act Link.listener g a }
    t.link = s.link ∧ t.isRunning.1 = s.isRunning.1 ∧
      ∀ g' command, t.refusal? g' command = s.refusal? g' command := by
  intro t
  obtain ⟨children, endedGeneration, hact⟩ := Supervisor.act_superseded hg a
  have hlink : t.link = s.link := by
    show (s.supervisor.act Link.listener g a).owner = s.supervisor.owner
    rw [hact]
  have hgen : t.generation = s.generation :=
    (Supervisor.act_turn Link.listener g s.supervisor a).frame.generation
  have hrunning : ∀ {g'}, s.link.installed = some g' →
      t.supervisor.isRunning = s.supervisor.isRunning := by
    intro g' hi
    refine Supervisor.isRunning_act h.consistent (fun he => hg ?_) a
    rw [hi, h.sound.current g' hi]
    exact congrArg some he
  refine ⟨hlink, ?_, fun g' command => ?_⟩
  · have hstate : t.state = s.state := congrArg Link.state hlink
    unfold Session.isRunning
    rw [hlink, hstate]
    cases hi : s.link.installed? with
    | none => rfl
    | some c =>
      rw [hrunning (Link.channel_of_installed hi).1]
      dsimp only
      split
      · rfl
      · split <;> rfl
  · unfold Session.refusal?
    rw [hlink, hgen]
    cases hc : s.link.channel? g' with
    | none => rfl
    | some c =>
      cases hclosed : c.closedReason with
      | some reason => simp only [Option.bind_some, Channel.refusal?, hclosed]
      | none =>
        rw [hrunning (h.tidy g' c hc (by simp [Channel.isClosed, hclosed]))]

/-- A caller whose request has failed as unavailable comes to its end with that. -/
theorem Callers.step_of_unavailable {σ : Type} {c : Callers σ} {j g id : Nat} {op : Operation}
    {arguments : Fields} (hp : c.phase? j = some (.requesting op arguments g (.waiting id)))
    {channel : Channel} (hc : c.session.link.channel? g = some channel) {name : String}
    {reason : Option String} {generation : Option Int}
    (hs : channel.settlement? id = some (.error (.unavailable name reason generation)))
    (program : Program σ) (patient : Bool) :
    ∃ c', c.step? program patient j = some c' ∧
      c'.phase? j = some (.finished (.error (.engine (.unavailable name reason generation)))) := by
  have hsettled : c.isSettled g id = true := by simp [isSettled, hc, hs]
  have hcollect : (c.collect g id op.command).1 =
      .error (.engine (.unavailable name reason generation)) := by
    simp [Callers.collect, Session.collect_run hc, Channel.await, hs, Except.map]
  refine ⟨_, by simp [step?, hp, mustWait, hsettled]; rfl, ?_⟩
  rw [hcollect]
  exact phase_goto _ j _

namespace Changeover

variable {σ : Type} {m : Changeover σ} {t : Turnover} {j g id : Nat} {p : Phase} {command : Command}

/-- Who waits while a turnover goes on waits for the request of an operation. -/
theorem Sound.requesting (h : m.Sound) (ht : m.turnover = some t) (hp : m.callers.phase? j = some p)
    (hw : p.awaits? = some (g, id)) : ∃ op arguments, p = .requesting op arguments g (.waiting id) := by
  cases p with
  | requesting op arguments g' stage =>
    cases stage with
    | queued => cases hw
    | waiting id' =>
      cases hw
      exact ⟨op, arguments, rfl⟩
  | reloading op g' path rest stage =>
    have hreloads : m.callers.reloads j = true := by simp [Callers.reloads, hp, Phase.reloads]
    have hl := h.registered.holder j (by simp) hreloads
    rw [h.holder t ht, Option.some.injEq] at hl
    rw [← hl, h.wanting t ht] at hp
    cases hp
  | _ => cases hw

/-- When the channel is taken away, what waits fails as unavailable. -/
theorem Sound.closes (h : m.Sound) (ht : m.turnover = some t) (hstage : t.stage = .close)
    (hd : m.callers.demand? j = some (g, id, command)) (hw : m.callers.isSettled g id = false)
    (program : Program σ) :
    ∃ channel, (m.proceed program).callers.session.link.channel? g = some channel ∧
      channel.settlement? id =
        some (.error (.unavailable command.name (some t.operation.closing) (some g))) := by
  obtain ⟨channel, hc, hminds⟩ := h.registered.minds j g id command (by simp) hd
  have hawaits : channel.Awaits id command := by
    rcases hminds with hawaits | hsettled
    · exact hawaits
    · simp [Callers.isSettled, hc] at hw
      simp [hw] at hsettled
  have hupright := h.registered.upright
  have hi := hupright.tidy g channel hc hawaits.isOpen
  simp only [proceed, ht, advance, hstage]
  exact hupright.sound.closeChannel_settles hi hc hawaits t.operation.closing

/-- Callers of a session whose engine has not been started. -/
def fresh (settings : EngineSettings) (locator : Option Locator)
    (environment : OrderedMap String String) (w : σ) (traced : Bool) : Changeover σ where
  callers := .fresh settings locator environment w traced

theorem sound_fresh (settings : EngineSettings) (locator : Option Locator)
    (environment : OrderedMap String String) (w : σ) (traced : Bool) :
    (fresh settings locator environment w traced).Sound :=
  sound_over (Callers.registered_fresh settings locator environment w traced)

/-- What waits when the channel is taken away is doomed. -/
theorem Sound.doomed (h : m.Sound) (ht : m.turnover = some t) (hstage : t.stage = .close)
    (hp : m.callers.phase? j = some p) (hawaits : p.awaits? = some (g, id))
    (hw : m.callers.isSettled g id = false) (program : Program σ) {ys : List ChangeoverStep}
    (hys : ∀ patient, .callers (.step j patient) ∉ ys) :
    let n := Changeover.following program (.proceed :: ys) m
    ∃ op arguments, p = .requesting op arguments g (.waiting id) ∧ n.callers.phase? j = some p ∧
      ∀ patient, ((ChangeoverStep.callers (.step j patient)).after program n).callers.phase? j =
        some (.finished (.error (.engine
          (.unavailable op.command.name (some t.operation.closing) (some g))))) := by
  intro n
  obtain ⟨op, arguments, rfl⟩ := h.requesting ht hp hawaits
  have hd : m.callers.demand? j = some (g, id, op.command) := by
    simp only [Callers.demand?, hp, Option.bind_some, Phase.demand?]
  obtain ⟨channel, hc, hfailed⟩ := h.closes ht hstage hd hw program
  -- nothing that comes later unsettles the request or moves its sender
  have hclosed := h.follows program .proceed
  obtain ⟨-, hages, hwaits⟩ := hclosed.sound.following program ys
  have hdemand : (Phase.requesting op arguments g (.waiting id)).demand? ≠ none :=
    Option.some_ne_none _
  have hphase := hclosed.waits j _ hp hdemand fun _ he => by cases he
  have hphase' : n.callers.phase? j = some (.requesting op arguments g (.waiting id)) :=
    hwaits j _ hphase hdemand hys
  obtain ⟨channel', hc', hage⟩ := hages g channel hc
  refine ⟨op, arguments, rfl, hphase', fun patient => ?_⟩
  obtain ⟨c', hstep, hend⟩ :=
    Callers.step_of_unavailable hphase' hc' (hage.settled id _ hfailed) program patient
  have htaker : taker? n.callers (.step j patient) = none := by simp [taker?, hphase']
  simp only [ChangeoverStep.after, htaker, CallersStep.after]
  rw [show n.callers.step? program patient j = some c' from hstep]
  exact hend

/-- Superseded generations are powerless. Whatever several callers do with a session, also while one of
them stops the engine or puts another one in its place step by step, and whatever the children of all
generations print, and when:

* what waits when the channel is to be taken away waits for nothing any more: whatever comes in between,
  the next step of its sender ends its operation as unavailable, for the reason of the one that stops or
  restarts the engine;
* a line or the end of the output of another generation than that of the installed channel leaves the
  channels and the state as they are;
* so, if a child of such a generation does something, all that changes is what is known of the children;
  the session runs and takes requests as before. -/
theorem superseded_powerless (program : Program σ) (settings : EngineSettings)
    (locator : Option Locator) (environment : OrderedMap String String) (w : σ) (traced : Bool)
    (xs : List ChangeoverStep) :
    let m := following program xs (fresh settings locator environment w traced)
    let s := m.callers.session
    (∀ t j p g id ys, m.turnover = some t → t.stage = .close → m.callers.phase? j = some p →
      p.awaits? = some (g, id) → m.callers.isSettled g id = false →
      (∀ patient, .callers (.step j patient) ∉ ys) →
      let n := following program (.proceed :: ys) m
      ∃ op arguments, p = .requesting op arguments g (.waiting id) ∧ n.callers.phase? j = some p ∧
        ∀ patient, ((ChangeoverStep.callers (.step j patient)).after program n).callers.phase? j =
          some (.finished (.error (.engine
            (.unavailable op.command.name (some t.operation.closing) (some g)))))) ∧
    (∀ g line exitCode, s.link.installed ≠ some g →
      Link.listener.heard s.link g line = some s.link ∧
      Link.listener.ended s.link g exitCode = s.link) ∧
    (∀ g a, s.link.installed ≠ some g →
      let n := (ChangeoverStep.callers (.happen g a)).after program m
      n.callers.session.link = s.link ∧
      (∃ children endedGeneration, n = { m with callers := m.callers.withSession { s with
        supervisor := { s.supervisor with children, endedGeneration } } }) ∧
      n.callers.session.isRunning.1 = s.isRunning.1 ∧
      ∀ g' command, n.callers.session.refusal? g' command = s.refusal? g' command) := by
  intro m s
  have h : m.Sound := ((sound_fresh settings locator environment w traced).following program xs).1
  refine ⟨?_, ?_, ?_⟩
  · intro t j p g id ys ht hstage hp hawaits hw hys
    exact h.doomed ht hstage hp hawaits hw program hys
  · intro g line exitCode hg
    exact ⟨Link.hear_superseded hg line, Link.markCrashed_superseded hg exitCode⟩
  · intro g a hg n
    obtain ⟨hlink, hrunning, hrefusal⟩ := h.registered.upright.superseded hg a
    obtain ⟨children, endedGeneration, hact⟩ := Supervisor.act_superseded hg a
    refine ⟨hlink, ⟨children, endedGeneration, ?_⟩, hrunning, hrefusal⟩
    show ({ m with callers := m.callers.withSession { s with
      supervisor := s.supervisor.act Link.listener g a } } : Changeover σ) = _
    rw [hact]

/-! ## An engine that cannot be ended -/

/-- Its children are neither terminated nor killed, and answer nothing of their own accord. -/
def stubborn : Program Unit where
  launch w := (.started ⟨.ignores, .ignores⟩ [.print "\x7b\"event\": \"ready\"\x7d"], w)
  react w _ _ := (⟨[], none⟩, w)

/-- A caller waits for an answer, and another is about to restart the engine. -/
def restartBegun : List ChangeoverStep :=
  [.callers (.begin 1 (.load "a.dll")), .callers (.step 1 true), .callers (.step 1 true)] ++
    List.replicate 5 .proceed ++
    [.callers (.step 1 true), .callers (.begin 2 .restart), .callers (.step 2 true),
      .callers (.step 2 true)]

/-- The old child answers at every stage; then a third caller asks the new one, under the same id. -/
def answeredTooLate : List ChangeoverStep :=
  let late : ChangeoverStep := .callers (.happen 1 (.print (Callers.loadAnswer "1" "k")))
  [late, .proceed, late, .proceed, late, .proceed, late, .proceed, late, .proceed, late, .proceed,
    .callers (.begin 3 (.load "b.dll")), .callers (.step 3 true), .callers (.step 3 true)]

def unstarted : Changeover Unit := fresh plainSettings none ∅ () false

def restarting : Changeover Unit := following stubborn restartBegun unstarted

def superseded : Changeover Unit := following stubborn (.proceed :: answeredTooLate) restarting

theorem restarting_waits :
    (restarting.callers.phase? 1).bind Phase.awaits? = some (1, 1) ∧
      (restarting.callers.phase? 1).bind Phase.operation? = some (.load "a.dll") := by
  decide +kernel

theorem superseded_waits : (superseded.callers.phase? 3).bind Phase.awaits? = some (2, 1) := by
  decide +kernel

/-- The request of the first caller fails although the old child answers it at every stage; and the
request of the third, which has the same id, is not decided by what the old child prints, nor by its
end. -/
theorem superseded_powerless_stubborn :
    restarting.turnover = some ⟨2, .restart, .close⟩ ∧
    (∃ p, restarting.callers.phase? 1 = some p ∧ p.awaits? = some (1, 1)) ∧
    restarting.callers.isSettled 1 1 = false ∧
    (∀ patient, .callers (.step 1 patient) ∉ answeredTooLate) ∧
    (∀ patient, ((ChangeoverStep.callers (.step 1 patient)).after stubborn superseded).callers.phase? 1 =
      some (.finished (.error (.engine (.unavailable "load" (some "engine restarting") (some 1)))))) ∧
    superseded.callers.session.link.installed ≠ some 1 ∧
    (∃ p, superseded.callers.phase? 3 = some p ∧ p.awaits? = some (2, 1)) ∧
    ∀ a ∈ [.print (Callers.loadAnswer "1" "k"), .exit 0],
      ((ChangeoverStep.callers (.happen 1 a)).after stubborn superseded).callers.session.link =
        superseded.callers.session.link := by
  obtain ⟨hdoomed, -, -⟩ := superseded_powerless stubborn plainSettings none ∅ () false restartBegun
  obtain ⟨-, -, hlate⟩ := superseded_powerless stubborn plainSettings none ∅ () false
    (restartBegun ++ .proceed :: answeredTooLate)
  have hlater : following stubborn (restartBegun ++ .proceed :: answeredTooLate) unstarted =
      superseded := List.foldl_append
  have hstart : fresh plainSettings none ∅ () false = unstarted := rfl
  rw [hstart] at hdoomed
  rw [hstart, hlater] at hlate
  have hturnover : restarting.turnover = some ⟨2, .restart, .close⟩ := by decide +kernel
  have hunsettled : restarting.callers.isSettled 1 1 = false := by decide +kernel
  have hinstalled : superseded.callers.session.link.installed ≠ some 1 := by decide +kernel
  have hfirst : ∀ patient, .callers (.step 1 patient) ∉ answeredTooLate := by decide
  obtain ⟨p, hp, hawaits⟩ := Option.bind_eq_some_iff.mp restarting_waits.1
  obtain ⟨q, hq, hawaits'⟩ := Option.bind_eq_some_iff.mp superseded_waits
  have hop : p.operation? = some (.load "a.dll") := by
    have hop := restarting_waits.2
    rw [hp] at hop
    exact hop
  refine ⟨hturnover, ⟨p, hp, hawaits⟩, hunsettled, hfirst, fun patient => ?_, hinstalled,
    ⟨q, hq, hawaits'⟩, fun a _ => (hlate 1 a hinstalled).1⟩
  obtain ⟨op, arguments, rfl, -, hends⟩ := hdoomed ⟨2, .restart, .close⟩ 1 p 1 1 answeredTooLate
    hturnover rfl hp hawaits hunsettled hfirst
  cases hop
  exact hends patient

end Changeover

end AssemblyBrowser
