import AssemblyBrowser.Engine.Callers
import AssemblyBrowser.Proofs.Engine.Report
/-!
Programs that do the same. A session does not look into the state of its program: two programs that do
the same in corresponding states lead to corresponding sessions. Main statements: whole operations
correspond, and so do the steps of several callers.
-/
namespace AssemblyBrowser

/-- A program does the same as another in corresponding states. -/
structure Program.Mirrors {τ σ : Type} (f : τ → σ) (q : Program τ) (p : Program σ) : Prop where
  launch : ∀ w, p.launch (f w) = Prod.map id f (q.launch w)
  react : ∀ w g line, p.react (f w) g line = Prod.map id f (q.react w g line)

/-! ## Supervisors -/

namespace Supervisor

variable {τ σ ρ : Type} (f : τ → σ)

/-- The supervisor whose program is in the corresponding state. -/
def mapProgram (s : Supervisor τ ρ) : Supervisor σ ρ where
  options := s.options
  program := f s.program
  owner := s.owner
  children := s.children
  held := s.held
  endedGeneration := s.endedGeneration
  attempts := s.attempts
  log := s.log

variable (listener : Listener ρ) (s : Supervisor τ ρ)

theorem act_mapProgram (g : Nat) (a : Act) :
    (s.mapProgram f).act listener g a = (s.act listener g a).mapProgram f := by
  have hchild : (s.mapProgram f).child? g = s.child? g := rfl
  unfold act
  rw [hchild]
  cases s.child? g with
  | none => rfl
  | some c =>
    cases a with
    | closeOutput =>
      dsimp only
      split <;> rfl
    | exit code =>
      dsimp only
      split <;> rfl
    | print line =>
      dsimp only
      split
      · unfold hear
        dsimp only
        split
        · rfl
        · cases c.greeting with
          | none => rfl
          | some greeting =>
            dsimp only
            have howner : (s.mapProgram f).owner = s.owner := rfl
            rw [howner]
            cases listener.heard s.owner g (Text.trim line) <;> rfl
      · rfl

theorem acts_mapProgram (g : Nat) (as : List Act) :
    (s.mapProgram f).acts listener g as = (s.acts listener g as).mapProgram f := by
  induction as generalizing s with
  | nil => rfl
  | cons a as ih =>
    have hact := act_mapProgram f listener s g a
    simp only [acts, List.foldl_cons] at ih ⊢
    rw [hact]
    exact ih _

theorem resist_mapProgram (r : Resistance) (g : Nat) (code : Int) :
    (s.mapProgram f).resist listener r g code = (s.resist listener r g code).mapProgram f := by
  cases r with
  | none => exact act_mapProgram f listener s g (.exit code)
  | ignores => rfl
  | refuses => rfl

theorem kill_mapProgram (g : Nat) :
    (s.mapProgram f).kill listener g = (s.kill listener g).mapProgram f := by
  have hchild : (s.mapProgram f).child? g = s.child? g := rfl
  unfold kill
  rw [hchild]
  cases s.child? g with
  | none => rfl
  | some c => exact resist_mapProgram f listener (s.record (.kill g)) c.temper.kill g killCode

theorem shutDown_mapProgram (g : Nat) (c : Child) :
    (s.mapProgram f).shutDown listener g c = (s.shutDown listener g c).mapProgram f := by
  have hresist := resist_mapProgram f listener ((s.record (.closeInput g)).record (.terminate g))
    c.temper.terminate g terminateCode
  have hrecord : ((s.mapProgram f).record (.closeInput g)).record (.terminate g) =
      ((s.record (.closeInput g)).record (.terminate g)).mapProgram f := rfl
  unfold shutDown
  dsimp only
  split
  · rfl
  · rw [hrecord, hresist]
    generalize ((s.record (.closeInput g)).record (.terminate g)).resist listener
      c.temper.terminate g terminateCode = t
    have hchild : (t.mapProgram f).child? g = t.child? g := rfl
    rw [hchild]
    cases t.child? g with
    | none => rfl
    | some d =>
      dsimp only
      split
      · exact kill_mapProgram f listener t g
      · rfl

theorem stop_mapProgram : (s.mapProgram f).stop listener = (s.stop listener).mapProgram f := by
  have hheld : (s.mapProgram f).held = s.held := rfl
  unfold stop
  rw [hheld]
  cases s.held with
  | none => rfl
  | some g =>
    have hchild : ({ s.mapProgram f with held := none } : Supervisor σ ρ).child? g =
        ({ s with held := none } : Supervisor τ ρ).child? g := rfl
    dsimp only
    rw [hchild]
    cases (({ s with held := none } : Supervisor τ ρ).child? g) with
    | none => rfl
    | some c =>
      dsimp only
      split
      · exact shutDown_mapProgram f listener { s with held := none } g c
      · rfl

theorem greet_mapProgram (g : Nat) (c : Child) :
    (s.mapProgram f).greet listener g c = Prod.map id (mapProgram f) (s.greet listener g c) := by
  have hkill := kill_mapProgram f listener s g
  unfold greet
  cases c.greeting with
  | none =>
    dsimp only
    split
    · have hoptions : (s.mapProgram f).options = s.options := rfl
      rw [hoptions]
      cases s.options.startupTimeout.wait with
      | error e => rfl
      | ok _ =>
        rw [hkill]
        rfl
    · rfl
  | some line =>
    dsimp only
    cases greetingFault? line with
    | none => rfl
    | some fault =>
      cases fault with
      | hugeInteger digits => rfl
      | invalid e =>
        rw [hkill]
        rfl
      | unexpected =>
        rw [hkill]
        rfl

section

variable {f} {q : Program τ} {p : Program σ} (h : q.Mirrors f p)
include h

/-- In corresponding states a program launches the same. -/
theorem launch_record (e : ProcessEvent) : p.launch ((s.mapProgram f).record e).program =
    Prod.map id f (q.launch s.program) := h.launch s.program

theorem hatch_mapProgram : hatch? p (s.mapProgram f) =
    (hatch? q s).map (Prod.map (mapProgram f) id) := by
  have hcommand : (s.mapProgram f).options.command = s.options.command := rfl
  unfold hatch?
  rw [hcommand]
  cases s.options.command with
  | none => rfl
  | some words =>
    cases words with
    | nil => rfl
    | cons word words =>
      have hlaunch := launch_record s h (.spawn (word :: words) s.options.environment)
      have hrecord : (s.record (.spawn (word :: words) s.options.environment)).program =
        s.program := rfl
      have henvironment : (s.mapProgram f).options.environment = s.options.environment := rfl
      dsimp only
      rw [henvironment, hlaunch, hrecord]
      cases q.launch s.program with
      | mk launch state => cases launch <;> rfl

theorem spawn_mapProgram :
    (s.mapProgram f).spawn p listener = Prod.map id (mapProgram f) (s.spawn q listener) := by
  have hhatch := hatch_mapProgram s h
  cases hh : hatch? q s with
  | some hatched =>
    obtain ⟨t, printed⟩ := hatched
    rw [hh] at hhatch
    have hhatch : hatch? p (s.mapProgram f) = some (t.mapProgram f, printed) := hhatch
    obtain ⟨c, hc, hspawn⟩ := spawn_of_hatch q listener hh
    obtain ⟨c', hc', hspawn'⟩ := spawn_of_hatch p listener hhatch
    have hacts := acts_mapProgram f listener t t.generation printed
    have hgeneration : (t.mapProgram f).generation = t.generation := rfl
    rw [hspawn, hspawn', hgeneration, hacts]
    rw [hgeneration, hacts] at hc'
    obtain rfl := Option.some.inj (hc.symm.trans hc')
    exact greet_mapProgram f listener _ t.generation c
  | none =>
    -- no child has come to be
    have hcommand : (s.mapProgram f).options.command = s.options.command := rfl
    revert hh
    unfold hatch? spawn
    rw [hcommand]
    cases s.options.command with
    | none => exact fun _ => rfl
    | some words =>
      cases words with
      | nil => exact fun _ => rfl
      | cons word words =>
        have hlaunch := h.launch s.program
        cases hq : q.launch s.program with
        | mk launch state =>
          have hp : p.launch (f s.program) = (launch, f state) := by rw [hlaunch, hq]; rfl
          cases launch with
          | failed e =>
            intro _
            simp only [record, mapProgram, hq, hp, Prod.map, id]
            rfl
          | started temper printed => simp [record, hq]

theorem start_mapProgram : (start p listener).runFrom (s.mapProgram f) =
    Prod.map id (mapProgram f) ((start q listener).runFrom s) := by
  have hrunning : (s.mapProgram f).isRunning = s.isRunning := rfl
  simp only [Attempt.runFrom, ExceptT.run, start, hrunning]
  split
  · rfl
  · rw [stop_mapProgram]
    exact spawn_mapProgram listener (s.stop listener) h

theorem sendLine_mapProgram (g : Nat) (line : String) :
    (sendLine p listener g line).runFrom (s.mapProgram f) =
      Prod.map id (mapProgram f) ((sendLine q listener g line).runFrom s) := by
  have hrunning : (s.mapProgram f).isRunning = s.isRunning := rfl
  have hgeneration : (s.mapProgram f).generation = s.generation := rfl
  by_cases hruns : g = s.generation ∧ s.isRunning = true
  · obtain ⟨hg, hr⟩ := hruns
    have hprogram : (s.mapProgram f).program = f s.program := rfl
    have hreact := h.react s.program g line
    rw [sendLine_run listener q line hg hr,
      sendLine_run listener p line (hg.trans hgeneration.symm) (hrunning.trans hr), hprogram, hreact]
    exact Prod.ext rfl (acts_mapProgram f listener
      ({ s.record (.write g line) with program := (q.react s.program g line).2 } : Supervisor τ ρ) g
      (q.react s.program g line).1.acts)
  · have hrefused : (s.held.isNone || decide (g ≠ s.generation) || !s.isRunning) = true := by
      by_cases hg : g = s.generation
      · have hr : s.isRunning = false := by simpa using fun hr => hruns ⟨hg, hr⟩
        simp [hr]
      · simp [hg]
    have hheld : (s.mapProgram f).held = s.held := rfl
    simp only [Attempt.runFrom, ExceptT.run, sendLine, hheld, hgeneration, hrunning, hrefused, if_true]
    rfl

end

end Supervisor

/-! ## Sessions -/

namespace Session

variable {τ σ α β : Type} {f : τ → σ} {q : Program τ} {p : Program σ}

def mapProgram (f : τ → σ) (s : Session τ) : Session σ where
  settings := s.settings
  locator := s.locator
  supervisor := s.supervisor.mapProgram f
  trace := s.trace

theorem isRunning_mapProgram (s : Session τ) :
    (s.mapProgram f).isRunning = Prod.map id (mapProgram f) s.isRunning := by
  have hlink : (s.mapProgram f).link = s.link := rfl
  have hstate : (s.mapProgram f).state = s.state := rfl
  have hrunning : (s.mapProgram f).supervisor.isRunning = s.supervisor.isRunning := rfl
  unfold isRunning
  rw [hlink, hstate, hrunning]
  cases s.link.installed? with
  | none => rfl
  | some c =>
    dsimp only
    split
    · rfl
    · split <;> rfl

theorem teardown_mapProgram (s : Session τ) (reason : String) :
    (s.mapProgram f).teardown reason = (s.teardown reason).mapProgram f := by
  have hlink : (s.mapProgram f).link = s.link := rfl
  have hhalt : ∀ t : Session τ,
      (if (t.mapProgram f).state = .stopped && !(t.mapProgram f).supervisor.isRunning then
        t.mapProgram f
      else
        ({ (t.mapProgram f).setState .stopping with
          supervisor := ((t.mapProgram f).setState .stopping).supervisor.stop Link.listener } :
            Session σ).setState .stopped) =
      mapProgram f (if t.state = .stopped && !t.supervisor.isRunning then t
        else ({ t.setState .stopping with
          supervisor := (t.setState .stopping).supervisor.stop Link.listener } :
            Session τ).setState .stopped) := by
    intro t
    have hstate : (t.mapProgram f).state = t.state := rfl
    have hrunning : (t.mapProgram f).supervisor.isRunning = t.supervisor.isRunning := rfl
    have hstop := Supervisor.stop_mapProgram f Link.listener (t.setState .stopping).supervisor
    have hset : ((t.mapProgram f).setState .stopping).supervisor =
      (t.setState .stopping).supervisor.mapProgram f := rfl
    rw [hstate, hrunning]
    split
    · rfl
    · rw [hset, hstop]
      rfl
  unfold teardown
  rw [hlink]
  cases s.link.installed with
  | none => exact hhalt s
  | some g =>
    exact hhalt (s.mapLink fun l => ({ l with installed := none } : Link).update g (·.close reason))

theorem refusal_mapProgram (s : Session τ) (g : Nat) (command : Command) :
    (s.mapProgram f).refusal? g command = s.refusal? g command := rfl

/-! ### Attempts -/

/-- An attempt does the same as another from corresponding sessions. -/
def Mirrors (f : τ → σ) (a : Attempt (Session τ) α) (b : Attempt (Session σ) α) : Prop :=
  ∀ s, b.runFrom (s.mapProgram f) = Prod.map id (mapProgram f) (a.runFrom s)

theorem Mirrors.pure (v : α) : Mirrors f (Pure.pure v) (Pure.pure v) := fun _ => rfl

theorem mirrors_ofExcept (r : Except Failure α) :
    Mirrors f (Attempt.ofExcept r) (Attempt.ofExcept r) := fun _ => rfl

theorem Mirrors.bind {a : Attempt (Session τ) α} {b : Attempt (Session σ) α}
    {k : α → Attempt (Session τ) β} {l : α → Attempt (Session σ) β} (h : Mirrors f a b)
    (h' : ∀ v, Mirrors f (k v) (l v)) : Mirrors f (a >>= k) (b >>= l) := by
  intro s
  rw [Attempt.runFrom_bind, Attempt.runFrom_bind, h s]
  cases a.runFrom s with
  | mk r t =>
    cases r with
    | error e => rfl
    | ok v => exact h' v t

theorem Mirrors.get_bind {k : Session τ → Attempt (Session τ) β}
    {l : Session σ → Attempt (Session σ) β} (h : ∀ s, Mirrors f (k s) (l (s.mapProgram f))) :
    Mirrors f (get >>= k) (get >>= l) := fun s => h s s

theorem Mirrors.map {a : Attempt (Session τ) α} {b : Attempt (Session σ) α} (h : Mirrors f a b)
    (g : α → β) : Mirrors f (g <$> a) (g <$> b) := by
  intro s
  rw [Attempt.runFrom_map, Attempt.runFrom_map, h s]
  rfl

theorem Mirrors.outcome {a : Attempt (Session τ) α} {b : Attempt (Session σ) α}
    (h : Mirrors f a b) : Mirrors f a.outcome b.outcome := by
  intro s
  rw [Attempt.runFrom_outcome, Attempt.runFrom_outcome, h s]
  rfl

theorem Mirrors.traced {a : Attempt (Session τ) α} {b : Attempt (Session σ) α} (h : Mirrors f a b)
    (op : TracedOperation) (arguments : List String) (shown : α → String) :
    Mirrors f (traced op arguments shown a) (traced op arguments shown b) := by
  intro s
  have hbody := h { s with trace := s.trace.map (· ++ [.call op arguments]) }
  have hcall : mapProgram f { s with trace := s.trace.map (· ++ [.call op arguments]) } =
    { s.mapProgram f with trace := (s.mapProgram f).trace.map (· ++ [.call op arguments]) } := rfl
  rw [hcall] at hbody
  simp only [Attempt.runFrom, ExceptT.run, Session.traced] at hbody ⊢
  rw [hbody]
  cases a { s with trace := s.trace.map (· ++ [.call op arguments]) } with
  | mk r t => cases r <;> rfl

theorem mirrors_runningNow : Mirrors f runningNow runningNow := by
  intro s
  simp only [Attempt.runFrom, ExceptT.run, runningNow, isRunning_mapProgram]
  rfl

theorem mirrors_collect (g id : Nat) (command : Command) :
    Mirrors f (collect g id command) (collect g id command) := by
  intro s
  have hlink : (s.mapProgram f).link = s.link := rfl
  simp only [Attempt.runFrom, ExceptT.run, collect, hlink]
  cases s.link.channel? g <;> rfl

theorem settleReload_mapProgram (path : String) (r : Except Failure Answer) (s : Session τ) :
    settleReload path r (s.mapProgram f) = Prod.map id (mapProgram f) (settleReload path r s) := by
  unfold settleReload
  split
  · rfl
  · rfl
  · rw [teardown_mapProgram]
    rfl
  · rfl

theorem giveUp_mapProgram (g : Nat) (r : Except Failure Answer) (s : Session τ) :
    giveUp g r (s.mapProgram f) = Prod.map id (mapProgram f) (giveUp g r s) := by
  have hlink : (s.mapProgram f).link = s.link := rfl
  unfold giveUp
  split
  · rw [hlink]
    split
    · rw [teardown_mapProgram]
      rfl
    · rfl
  · rfl

section

variable (h : q.Mirrors f p)
include h

theorem mirrors_launch : Mirrors f (launch q) (launch p) := by
  intro s
  have hstart := Supervisor.start_mapProgram Link.listener
    ((s.teardown "engine restarting").setState .starting).supervisor h
  have hready : ((s.mapProgram f).teardown "engine restarting").setState .starting =
      ((s.teardown "engine restarting").setState .starting).mapProgram f := by
    rw [teardown_mapProgram]
    rfl
  simp only [Attempt.runFrom, ExceptT.run] at hstart
  simp only [Attempt.runFrom, ExceptT.run, launch, onSupervisor, Attempt.within, hready]
  have hsupervisor : (((s.teardown "engine restarting").setState .starting).mapProgram f).supervisor
    = ((s.teardown "engine restarting").setState .starting).supervisor.mapProgram f := rfl
  rw [hsupervisor, hstart]
  cases Supervisor.start q Link.listener
      ((s.teardown "engine restarting").setState .starting).supervisor with
  | mk r t =>
    cases r with
    | error e => cases e <;> rfl
    | ok g => rfl

theorem mirrors_post (g : Nat) (command : Command) (arguments : Fields) :
    Mirrors f (post q g command arguments) (post p g command arguments) := by
  intro s
  have hlink : (s.mapProgram f).link = s.link := rfl
  simp only [Attempt.runFrom, ExceptT.run, post, refusal_mapProgram, hlink]
  cases s.refusal? g command with
  | some e => rfl
  | none =>
    cases s.link.channel? g with
    | none => rfl
    | some c =>
      let t := s.mapLink fun l => l.update g fun _ => (c.register command arguments).2
      have hsend := Supervisor.sendLine_mapProgram Link.listener t.supervisor h g
        (c.register command arguments).1.encode
      simp only [Attempt.runFrom, ExceptT.run] at hsend
      have hmap : ((s.mapProgram f).mapLink fun l =>
        l.update g fun _ => (c.register command arguments).2).supervisor =
          t.supervisor.mapProgram f := rfl
      simp only [onSupervisor, Attempt.within, Attempt.runFrom, ExceptT.run, hmap, hsend]
      cases Supervisor.sendLine q Link.listener g (c.register command arguments).1.encode
          t.supervisor with
      | mk r u => cases r <;> rfl

theorem mirrors_send (g : Nat) (command : Command) (arguments : Fields) :
    Mirrors f (send q g command arguments) (send p g command arguments) :=
  (mirrors_post h g command arguments).bind fun id => mirrors_collect g id command

theorem mirrors_reload (g : Nat) (paths : List String) :
    Mirrors f (reload q g paths) (reload p g paths) := by
  induction paths with
  | nil => exact fun _ => rfl
  | cons path rest ih =>
    exact (mirrors_send h g .load (loadArguments path)).outcome.bind fun r =>
      .bind (fun s => settleReload_mapProgram path r s) fun _ => ih

theorem mirrors_relaunch : Mirrors f (relaunch q) (relaunch p) :=
  (mirrors_launch h).bind fun c => .get_bind fun _ => mirrors_reload h c.generation _

theorem mirrors_ensureRunning : Mirrors f (ensureRunning q) (ensureRunning p) := by
  refine Mirrors.traced (mirrors_runningNow.bind fun running => ?_) _ _ _
  cases running with
  | true => exact .pure _
  | false => exact mirrors_relaunch h

theorem mirrors_request (command : Command) (arguments : Fields) :
    Mirrors f (request q command arguments) (request p command arguments) := by
  refine (mirrors_ensureRunning h).bind fun _ => .get_bind fun s => ?_
  have hlink : (s.mapProgram f).link = s.link := rfl
  rw [hlink]
  cases s.link.installed with
  | none => exact fun _ => rfl
  | some g =>
    exact (mirrors_send h g command arguments).outcome.bind fun r s => giveUp_mapProgram g r s

/-- Whole operations correspond. -/
theorem mirrors_run (op : Operation) : Mirrors f (op.run q) (op.run p) := by
  cases op with
  | ensureRunning => exact (mirrors_ensureRunning h).map _
  | restart => exact ((mirrors_relaunch h).traced _ _ _).map _
  | stop =>
    refine (Mirrors.traced (fun s => ?_) _ _ _).map _
    simp only [Attempt.runFrom, ExceptT.run, teardown_mapProgram]
    rfl
  | load path =>
    refine (Mirrors.traced ((mirrors_request h .load (loadArguments path)).bind fun answer => ?_)
      _ _ _).map _
    exact (mirrors_ofExcept _).bind fun m => .bind (fun _ => rfl) fun _ => .pure m
  | children key assembly =>
    refine (Mirrors.traced ((mirrors_request h _ _).bind fun answer => ?_) _ _ _).map _
    exact mirrors_ofExcept _
  | decompile key language assembly =>
    refine (Mirrors.traced ((mirrors_ofExcept _).bind fun l => ?_) _ _ _).map _
    exact (mirrors_request h _ _).bind fun answer => mirrors_ofExcept _

end

end Session

/-! ## Callers -/

namespace Callers

variable {τ σ : Type} {f : τ → σ} {q : Program τ} {p : Program σ}

def mapProgram (f : τ → σ) (c : Callers τ) : Callers σ where
  session := c.session.mapProgram f
  lifecycle := c.lifecycle
  senders := c.senders
  phases := c.phases

variable (c : Callers τ) (i : Nat) (op : Operation)

theorem note_mapProgram (r : TraceRecord) :
    (c.mapProgram f).note r = (c.note r).mapProgram f := rfl

theorem goto_mapProgram (phase : Phase) :
    (c.mapProgram f).goto i phase = (c.goto i phase).mapProgram f := rfl

theorem release_mapProgram : (c.mapProgram f).release i = (c.release i).mapProgram f := by
  have hlifecycle : (c.mapProgram f).lifecycle = c.lifecycle := rfl
  unfold release
  rw [hlifecycle]
  split <;> rfl

theorem finish_mapProgram (r : Except Failure Value) :
    (c.mapProgram f).finish i op r = (c.finish i op r).mapProgram f := by
  unfold finish
  cases r with
  | ok v =>
    dsimp only
    rw [note_mapProgram, release_mapProgram]
    rfl
  | error e =>
    dsimp only
    rw [note_mapProgram, release_mapProgram]
    rfl

theorem ready_mapProgram (command : Command) (arguments : Fields) :
    (c.mapProgram f).ready i op command arguments =
      (c.ready i op command arguments).mapProgram f := by
  unfold ready
  dsimp only
  rw [note_mapProgram, release_mapProgram]
  generalize (c.note (.ok .ensureRunning "None")).release i = d
  have hlink : (d.mapProgram f).session.link = d.session.link := rfl
  rw [hlink]
  cases d.session.link.installed with
  | none => exact finish_mapProgram d i op _
  | some g =>
    have hrefusal : (d.mapProgram f).session.refusal? g command = d.session.refusal? g command := rfl
    dsimp only
    rw [hrefusal]
    cases d.session.refusal? g command with
    | some e => exact finish_mapProgram d i op _
    | none => rfl

theorem afterLaunch_mapProgram (r : Except Failure Unit) :
    (c.mapProgram f).afterLaunch i op r = (c.afterLaunch i op r).mapProgram f := by
  unfold afterLaunch
  split
  · cases r with
    | ok _ => exact ready_mapProgram c i op _ _
    | error e => exact finish_mapProgram (c.note (.fail .ensureRunning e)) i op _
  · exact finish_mapProgram c i op _

theorem reloadNext_mapProgram (g : Nat) (paths : List String) :
    (c.mapProgram f).reloadNext i op g paths = (c.reloadNext i op g paths).mapProgram f := by
  cases paths with
  | nil => exact afterLaunch_mapProgram c i op (.ok ())
  | cons path rest =>
    have hrefusal : (c.mapProgram f).session.refusal? g .load = c.session.refusal? g .load := rfl
    simp only [reloadNext]
    rw [hrefusal]
    cases c.session.refusal? g .load with
    | none => rfl
    | some e =>
      have hsettle := Session.settleReload_mapProgram (f := f) path (.error (.engine e)) c.session
      have hsession : (c.mapProgram f).session = c.session.mapProgram f := rfl
      dsimp only
      rw [hsession, hsettle]
      exact afterLaunch_mapProgram (c.withSession (Session.settleReload path
        (.error (.engine e)) c.session).2) i op _

theorem endReload_mapProgram (g : Nat) (path : String) (rest : List String)
    (r : Except Failure Answer) :
    (c.mapProgram f).endReload i op g path rest r = (c.endReload i op g path rest r).mapProgram f := by
  have hsettle := Session.settleReload_mapProgram (f := f) path r c.session
  have hsession : (c.mapProgram f).session = c.session.mapProgram f := rfl
  unfold endReload
  dsimp only
  rw [hsession, hsettle]
  generalize Session.settleReload path r c.session = settled
  obtain ⟨r, s⟩ := settled
  cases r with
  | ok _ => exact reloadNext_mapProgram (c.withSession s) i op g rest
  | error e => exact afterLaunch_mapProgram (c.withSession s) i op _

theorem start_mapProgram : (c.mapProgram f).start i op = (c.start i op).mapProgram f := by
  have hlook : ∀ d : Callers τ, (d.mapProgram f).session.isRunning =
      Prod.map id (Session.mapProgram f) d.session.isRunning := fun d =>
    Session.isRunning_mapProgram d.session
  unfold start
  dsimp only
  split
  · exact finish_mapProgram (c.note _) i op _
  · split
    · rw [note_mapProgram, hlook]
      generalize (c.note (.call op.traced op.shownArguments)) = d
      cases d.session.isRunning with
      | mk running s =>
        cases running with
        | true =>
          simp only [Prod.map, id, if_true]
          exact finish_mapProgram (d.withSession s) i op _
        | false => rfl
    · rfl
  · rename_i command arguments _
    rw [note_mapProgram, note_mapProgram, hlook]
    generalize ((c.note (.call op.traced op.shownArguments)).note (.call .ensureRunning [])) = d
    cases d.session.isRunning with
    | mk running s =>
      cases running with
      | true => exact ready_mapProgram (d.withSession s) i op command arguments
      | false => rfl

theorem collect_mapProgram (g n : Nat) (command : Command) :
    (c.mapProgram f).collect g n command =
      Prod.map id (mapProgram f) (c.collect g n command) := by
  have hcollect := Session.mirrors_collect (f := f) g n command c.session
  have hsession : (c.mapProgram f).session = c.session.mapProgram f := rfl
  unfold collect
  dsimp only
  rw [hsession, hcollect]
  rfl

theorem endRequest_mapProgram (g : Nat) (r : Except Failure Answer) :
    (c.mapProgram f).endRequest i op g r = (c.endRequest i op g r).mapProgram f := by
  unfold endRequest
  split
  · rfl
  · exact finish_mapProgram c i op _
  · dsimp only
    split
    · rename_i path m _
      exact finish_mapProgram (c.withSession (c.session.remember path m)) i _ _
    · exact finish_mapProgram c i _ _

section

variable (h : q.Mirrors f p)
include h

theorem takeLifecycle_mapProgram :
    (c.mapProgram f).takeLifecycle p i op = (c.takeLifecycle q i op).mapProgram f := by
  let d : Callers τ := { c with lifecycle := some i }
  have hlook := Session.isRunning_mapProgram (f := f) c.session
  have hsession : (c.mapProgram f).session = c.session.mapProgram f := rfl
  unfold takeLifecycle
  dsimp only
  split
  · rw [hsession, Session.teardown_mapProgram]
    exact finish_mapProgram (d.withSession (c.session.teardown "engine stopped")) i _ _
  · rw [hsession, hlook]
    cases c.session.isRunning with
    | mk running s =>
      have hlaunch := Session.mirrors_launch h s
      simp only [Prod.map, id] at hlaunch ⊢
      split
      · exact afterLaunch_mapProgram (d.withSession s) i op _
      · rw [hlaunch]
        cases (Session.launch q).runFrom s with
        | mk r t =>
          cases r with
          | error e => exact afterLaunch_mapProgram (d.withSession t) i op _
          | ok channel =>
            exact reloadNext_mapProgram (d.withSession t) i op channel.generation t.loadedAssemblies

theorem post_mapProgram (g : Nat) (command : Command) (arguments : Fields) :
    (c.mapProgram f).post p i g command arguments =
      Prod.map id (mapProgram f) (c.post q i g command arguments) := by
  have hpost := Session.mirrors_post h g command arguments c.session
  have hsession : (c.mapProgram f).session = c.session.mapProgram f := rfl
  unfold post
  dsimp only
  rw [hsession, hpost]
  cases (Session.post q g command arguments).runFrom c.session with
  | mk r s => cases r <;> rfl

/-- So does what follows, whether the request is on its way or not. -/
theorem posted_mapProgram (g : Nat) (command : Command) (arguments : Fields) (sent : Nat → Phase)
    {failed : Failure → Callers τ → Callers τ} {failed' : Failure → Callers σ → Callers σ}
    (hfailed : ∀ e d, failed' e (d.mapProgram f) = (failed e d).mapProgram f) :
    (match (c.mapProgram f).post p i g command arguments with
      | (.ok id, d) => some (d.goto i (sent id))
      | (.error e, d) => some (failed' e d)) =
    (match c.post q i g command arguments with
      | (.ok id, d) => some (d.goto i (sent id))
      | (.error e, d) => some (failed e d)).map (mapProgram f) := by
  rw [post_mapProgram c i h]
  cases c.post q i g command arguments with
  | mk r d =>
    cases r with
    | ok id => exact congrArg some (goto_mapProgram d i (sent id))
    | error e => exact congrArg some (hfailed e d)

omit h in
theorem giveUp_mapProgram (g : Nat) (e : Failure) :
    ((c.mapProgram f).withSession (if c.session.link.installed = some g then
      (c.mapProgram f).session.teardown Session.timedOutReason
      else (c.mapProgram f).session)).finish i op (.error e) =
    ((c.withSession (if c.session.link.installed = some g then
      c.session.teardown Session.timedOutReason else c.session)).finish i op
        (.error e)).mapProgram f := by
  have hdown := Session.teardown_mapProgram (f := f) c.session Session.timedOutReason
  have hsession : (c.mapProgram f).session = c.session.mapProgram f := rfl
  split
  · rw [hsession, hdown]
    exact finish_mapProgram (c.withSession (c.session.teardown Session.timedOutReason)) i op _
  · exact finish_mapProgram c i op _

/-- The steps of callers correspond. -/
theorem step_mapProgram (patient : Bool) : (c.mapProgram f).step? p patient i =
    (c.step? q patient i).map (mapProgram f) := by
  have hphase : (c.mapProgram f).phase? i = c.phase? i := rfl
  have hlifecycle : (c.mapProgram f).lifecycle = c.lifecycle := rfl
  have hfree : ∀ g, (c.mapProgram f).isFree g = c.isFree g := fun _ => rfl
  have hwait : ∀ g id, (c.mapProgram f).mustWait g id = c.mustWait g id := fun _ _ => rfl
  unfold step?
  rw [hphase, hlifecycle]
  cases c.phase? i with
  | none => rfl
  | some phase =>
    cases phase with
    | finished r => rfl
    | begun op => exact congrArg some (start_mapProgram c i op)
    | wanting op =>
      dsimp only
      split
      · exact congrArg some (takeLifecycle_mapProgram c i op h)
      · rfl
    | reloading op g path rest stage =>
      cases stage with
      | queued =>
        dsimp only
        rw [hfree]
        split
        · exact posted_mapProgram c i h g .load (Session.loadArguments path)
            (fun id => .reloading op g path rest (.waiting id))
            fun e d => endReload_mapProgram d i op g path rest (.error e)
        · rfl
      | waiting id =>
        dsimp only
        rw [hwait]
        split
        · rfl
        · rw [collect_mapProgram]
          exact congrArg some (endReload_mapProgram (c.collect g id .load).2 i op g path rest _)
    | requesting op arguments g stage =>
      cases stage with
      | queued =>
        dsimp only
        rw [hfree]
        split
        · exact posted_mapProgram c i h g op.command arguments
            (fun id => .requesting op arguments g (.waiting id))
            fun e d => finish_mapProgram d i op (.error e)
        · rfl
      | waiting id =>
        dsimp only
        rw [hwait]
        split
        · rfl
        · rw [collect_mapProgram]
          exact congrArg some (endRequest_mapProgram (c.collect g id op.command).2 i op g _)
    | givingUp op g e =>
      dsimp only
      split
      · exact congrArg some (giveUp_mapProgram c i op g e)
      · rfl

end

end Callers

end AssemblyBrowser
