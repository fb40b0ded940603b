import AssemblyBrowser.Engine.Callers
import AssemblyBrowser.Proofs.Engine.Reload
/-!
Runs of a session with one caller. Every operation is made of a few basic steps, so a condition that
those keep holds along every run.
-/
namespace AssemblyBrowser

/-- What happens to a session with one caller: operations, looks at whether it runs, assemblies that
are forgotten, and what a child does of its own accord. -/
inductive SessionStep
  | perform (op : Operation)
  | status
  | unload (path : String)
  | happen (generation : Nat) (acts : List Act)
deriving DecidableEq, Repr

def SessionStep.after {σ : Type} (program : Program σ) (x : SessionStep) (s : Session σ) :
    Session σ :=
  match x with
  | .perform op => ((op.run program).runFrom s).2
  | .status => s.isRunning.2
  | .unload path => s.unload path
  | .happen g as => { s with supervisor := s.supervisor.happen Link.listener g as }

namespace Session

variable {σ : Type} {program : Program σ} {I : Session σ → Prop}

/-- The session after a run. -/
def following (program : Program σ) (xs : List SessionStep) (s : Session σ) : Session σ :=
  xs.foldl (fun s x => x.after program s) s

/-- A condition that every basic step keeps, however it ends. A request is sent and waited for in one
step: what holds while it is on its way is no concern of the condition. -/
structure Kept (program : Program σ) (I : Session σ → Prop) : Prop where
  trace : ∀ {s}, I s → ∀ trace, I { s with trace }
  isRunning : ∀ {s}, I s → I s.isRunning.2
  teardown : ∀ {s}, I s → ∀ reason, I (s.teardown reason)
  launch : ∀ {s}, I s → I ((launch program).runFrom s).2
  send : ∀ {s}, I s → ∀ g command arguments, I ((send program g command arguments).runFrom s).2
  loaded : ∀ {s}, I s → ∀ f : OrderedMap String Member → OrderedMap String Member,
    I (s.mapLink fun l => { l with loaded := f l.loaded })

/-- What is attempted keeps a condition. -/
def Keeps {α : Type} (I : Session σ → Prop) (a : Attempt (Session σ) α) : Prop :=
  ∀ s, I s → I (a.runFrom s).2

theorem Keeps.bind {α β : Type} {a : Attempt (Session σ) α} {f : α → Attempt (Session σ) β}
    (h : Keeps I a) (h' : ∀ v, Keeps I (f v)) : Keeps I (a >>= f) := by
  intro s hs
  have hw := h s hs
  rw [Attempt.runFrom_bind]
  cases ha : a.runFrom s with
  | mk r t =>
    rw [ha] at hw
    cases r with
    | error e => exact hw
    | ok v => exact h' v t hw

theorem Keeps.map {α β : Type} {a : Attempt (Session σ) α} (h : Keeps I a) (f : α → β) :
    Keeps I (f <$> a) := by
  intro s hs
  rw [Attempt.runFrom_map]
  exact h s hs

theorem Keeps.pure {α : Type} (v : α) : Keeps I (Pure.pure v : Attempt (Session σ) α) :=
  fun _ hs => hs

theorem keeps_ofExcept {α : Type} (r : Except Failure α) :
    Keeps I (Attempt.ofExcept r : Attempt (Session σ) α) := fun _ hs => hs

theorem keeps_get : Keeps I (get : Attempt (Session σ) (Session σ)) := fun _ hs => hs

theorem Keeps.outcome {α : Type} {a : Attempt (Session σ) α} (h : Keeps I a) :
    Keeps I a.outcome := fun s hs => h s hs

namespace Kept

variable (h : Kept program I)
include h

theorem traced {α : Type} {a : Attempt (Session σ) α} (ha : Keeps I a) (op : TracedOperation)
    (arguments : List String) (shown : α → String) : Keeps I (traced op arguments shown a) := by
  intro s hs
  obtain ⟨trace, trace', hr⟩ := traced_run op arguments shown a s
  rw [hr]
  exact h.trace (ha _ (h.trace hs trace)) trace'

theorem keeps_send (g : Nat) (command : Command) (arguments : Fields) :
    Keeps I (Session.send program g command arguments) := fun _ hs => h.send hs g command arguments

theorem settleReload (path : String) (r : Except Failure Answer) :
    Keeps I (settleReload path r : Attempt (Session σ) Unit) := by
  intro s hs
  simp only [Attempt.runFrom, ExceptT.run, Session.settleReload]
  split
  · exact hs
  · exact h.loaded hs (·.erase path)
  · exact h.teardown hs reloadFailed
  · exact hs

theorem reload (g : Nat) (paths : List String) : Keeps I (reload program g paths) := by
  induction paths with
  | nil => exact fun _ hs => hs
  | cons path rest ih =>
    exact .bind (h.keeps_send g .load (loadArguments path)).outcome fun r =>
      .bind (h.settleReload path r) fun _ => ih

theorem relaunch : Keeps I (relaunch program) := by
  refine .bind (fun _ hs => h.launch hs) fun c => .bind keeps_get fun t => ?_
  exact h.reload c.generation t.loadedAssemblies

theorem ensureRunning : Keeps I (ensureRunning program) := by
  have hnow : Keeps I (runningNow : Attempt (Session σ) Bool) := fun _ hs => h.isRunning hs
  refine h.traced (.bind hnow fun running => ?_) _ _ _
  cases running with
  | true => exact .pure _
  | false => exact h.relaunch

theorem giveUp (g : Nat) (r : Except Failure Answer) :
    Keeps I (giveUp g r : Attempt (Session σ) Answer) := by
  intro s hs
  simp only [Attempt.runFrom, ExceptT.run, Session.giveUp]
  split
  · dsimp only
    split
    · exact h.teardown hs _
    · exact hs
  · exact hs

theorem request (command : Command) (arguments : Fields) :
    Keeps I (request program command arguments) := by
  refine .bind h.ensureRunning fun _ => .bind keeps_get fun t => ?_
  cases t.link.installed with
  | none => exact fun _ hs => hs
  | some g => exact .bind (h.keeps_send g command arguments).outcome fun r => h.giveUp g r

theorem load (path : String) : Keeps I (load program path) := by
  refine h.traced (.bind (h.request .load (loadArguments path)) fun answer => ?_) _ _ _
  refine .bind (keeps_ofExcept _) fun m => .bind (fun s hs => ?_) fun _ => .pure m
  exact h.loaded hs (·.put path m)

theorem stop : Keeps I (stop : Attempt (Session σ) Unit) := by
  refine h.traced ?_ _ _ _
  intro s hs
  exact h.teardown hs "engine stopped"

theorem run (op : Operation) : Keeps I (op.run program) := by
  cases op with
  | ensureRunning => exact h.ensureRunning.map _
  | restart => exact (h.traced h.relaunch _ _ _).map _
  | stop => exact h.stop.map _
  | load path => exact (h.load path).map _
  | children key assembly =>
    exact (h.traced (.bind (h.request _ _) fun _ => keeps_ofExcept _) _ _ _).map _
  | decompile key language assembly =>
    exact (h.traced (.bind (keeps_ofExcept _) fun _ => .bind (h.request _ _) fun _ =>
      keeps_ofExcept _) _ _ _).map _

theorem following (happen : ∀ {s}, I s → ∀ g as,
      I { s with supervisor := s.supervisor.happen Link.listener g as })
    (xs : List SessionStep) {s : Session σ} (hs : I s) : I (following program xs s) := by
  induction xs generalizing s with
  | nil => exact hs
  | cons x xs ih =>
    refine ih ?_
    cases x with
    | perform op => exact h.run op s hs
    | status => exact h.isRunning hs
    | unload path => exact h.loaded hs (·.erase path)
    | happen g as => exact happen hs g as

end Kept

/-- A request can be registered with the channel of a generation. -/
def Takes (s : Session σ) (g : Nat) (command : Command) : Prop :=
  s.refusal? g command = none ∧ ∃ c, s.link.channel? g = some c

theorem post_refused (program : Program σ) {s : Session σ} {g : Nat} {command : Command}
    (h : ¬s.Takes g command) (arguments : Fields) :
    ∃ e, (post program g command arguments).runFrom s = (.error (.engine e), s) := by
  simp only [Attempt.runFrom, ExceptT.run, post]
  cases hr : s.refusal? g command with
  | some e => exact ⟨e, rfl⟩
  | none =>
    cases hc : s.link.channel? g with
    | none => exact ⟨_, rfl⟩
    | some c => exact absurd ⟨hr, c, hc⟩ h

/-- A request is refused unless its generation is running. -/
theorem refusal_none {s : Session σ} {g : Nat} {c : Channel} {command : Command} (hc : s.link.channel? g = some c)
    (hr : s.refusal? g command = none) : g = s.generation ∧ s.supervisor.isRunning = true := by
  have hg : c.generation = g := (Link.mem_of_channel hc).2
  simp only [refusal?, hc, Option.bind_some, Channel.refusal?, hg] at hr
  split at hr
  · cases hr
  · split at hr
    · cases hr
    · rename_i hcond
      simp only [Bool.or_eq_true, decide_eq_true_eq, Bool.not_eq_true', not_or,
        Bool.not_eq_false] at hcond
      exact ⟨(Decidable.not_not.mp hcond.1).symm, hcond.2⟩

theorem Sound.happen {s : Session σ} (h : s.Sound) (g : Nat) (as : List Act) :
    s.Moves { s with supervisor := s.supervisor.happen Link.listener g as } :=
  (h.onSupervisor (Supervisor.acts_ages Link.listener_respects g as s.supervisor)
    (.inr (Supervisor.acts_turn Link.listener g as s.supervisor).frame.generation)).1

theorem sound_kept : Kept program Sound where
  trace hs trace := hs.of_trace trace
  isRunning hs := hs.isRunning.1.sound
  teardown hs reason := (hs.teardown reason).1.sound
  launch hs := (hs.launch program).1.sound
  send {s} hs g command arguments := by
    have hcollect : ∀ id, Keeps Sound (collect g id command : Attempt (Session σ) Answer) := by
      intro id t ht
      simp only [Attempt.runFrom, ExceptT.run, Session.collect]
      split
      · exact ht
      · exact (ht.forget g id).sound
    have hpost : Keeps Sound (post program g command arguments) := fun t ht =>
      (ht.post program g command arguments).1.moves.sound
    exact hpost.bind hcollect s hs
  loaded hs f := (hs.mapLoaded f).1

theorem Sound.following {s : Session σ} (h : s.Sound) (program : Program σ)
    (xs : List SessionStep) : (following program xs s).Sound :=
  sound_kept.following (fun hs g as => (hs.happen g as).sound) xs h

end Session

/-! ## Written-out sessions -/

/-- Settings with all that is usual. -/
def plainSettings : EngineSettings := ⟨some ["engine"], .csharp, 30, 60, 5, ∅⟩

deriving instance DecidableEq for Channel

theorem Session.eq_of_parts {σ : Type} {s t : Session σ} (h₁ : s.settings = t.settings)
    (h₂ : s.locator = t.locator) (h₃ : s.trace = t.trace)
    (h₄ : s.supervisor.options = t.supervisor.options)
    (h₅ : s.supervisor.program = t.supervisor.program)
    (h₆ : s.link.state = t.link.state) (h₇ : s.link.channels = t.link.channels)
    (h₈ : s.link.installed = t.link.installed) (h₉ : s.link.loaded = t.link.loaded)
    (h₁₀ : s.supervisor.children = t.supervisor.children)
    (h₁₁ : s.supervisor.held = t.supervisor.held)
    (h₁₂ : s.supervisor.endedGeneration = t.supervisor.endedGeneration)
    (h₁₃ : s.supervisor.attempts = t.supervisor.attempts)
    (h₁₄ : s.supervisor.log = t.supervisor.log) : s = t := by
  obtain ⟨_, _, ⟨_, _, ⟨_, _, _, _⟩, _, _, _, _, _⟩, _⟩ := s
  obtain ⟨_, _, ⟨_, _, ⟨_, _, _, _⟩, _, _, _, _, _⟩, _⟩ := t
  simp only [Session.link] at *
  subst h₁ h₂ h₃ h₄ h₅ h₆ h₇ h₈ h₉ h₁₀ h₁₁ h₁₂ h₁₃ h₁₄
  rfl

end AssemblyBrowser
