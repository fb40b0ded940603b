import AssemblyBrowser.Proofs.Engine.Attribution
/-!
Conditions of a session that last. The steps of several callers are made of the same few basic steps as
the operations of one, but between the posting of a request and its end the others go on. Main
statements: a condition that every basic step keeps, the posting and the end of a request each for
itself, holds along every run; and a caller posts nothing by a step but what it then asks for.
-/
namespace AssemblyBrowser

variable {σ : Type}

namespace Session

variable {program : Program σ} {I : Session σ → Prop}

/-- A condition that every basic step of a caller keeps but the posting of a request. -/
structure Quiet (program : Program σ) (I : Session σ → Prop) : Prop where
  trace : ∀ {s}, I s → ∀ trace, I { s with trace }
  isRunning : ∀ {s}, I s → I s.isRunning.2
  teardown : ∀ {s}, I s → ∀ reason, I (s.teardown reason)
  launch : ∀ {s}, I s → I ((launch program).runFrom s).2
  collect : ∀ {s}, I s → ∀ g id command, I ((collect g id command).runFrom s).2
  loaded : ∀ {s}, I s → ∀ f : OrderedMap String Member → OrderedMap String Member,
    I (s.mapLink fun l => { l with loaded := f l.loaded })

/-- A condition that every basic step keeps, also while requests are on their way. -/
structure Abiding (program : Program σ) (I : Session σ → Prop) : Prop extends Quiet program I where
  post : ∀ {s}, I s → ∀ g command arguments, I ((post program g command arguments).runFrom s).2
  happen : ∀ {s}, I s → ∀ g as, I { s with supervisor := s.supervisor.happen Link.listener g as }

/-- For one caller a request is one step. -/
theorem Abiding.kept (h : Abiding program I) : Kept program I where
  trace := h.trace
  isRunning := h.isRunning
  teardown := h.teardown
  launch := h.launch
  send {s} hs g command arguments := by
    have hpost : Keeps I (Session.post program g command arguments) :=
      fun _ ht => h.post ht g command arguments
    exact hpost.bind (fun id _ ht => h.collect ht g id command) s hs
  loaded := h.loaded

end Session

/-- What a caller asks an engine for. -/
inductive Posting
  /-- The request of its operation. -/
  | request (op : Operation)
  /-- That an assembly is loaded again. -/
  | reload (op : Operation) (path : String)
deriving DecidableEq

/-- What a caller asks for by its next step, and which generation. -/
def Phase.posting? : Phase → Option (Nat × Posting)
  | .requesting op _ g .queued => some (g, .request op)
  | .reloading op g path _ .queued => some (g, .reload op path)
  | _ => none

namespace Callers

variable {c : Callers σ} {i g : Nat} {op : Operation}

theorem post_session (c : Callers σ) (program : Program σ) (i g : Nat) (command : Command)
    (arguments : Fields) : (c.post program i g command arguments).2.session =
      ((Session.post program g command arguments).runFrom c.session).2 := by
  unfold Callers.post
  dsimp only
  split <;> rfl

theorem requesting_of_posting (h : (c.phase? i).bind Phase.posting? = some (g, .request op)) :
    ∃ arguments, c.phase? i = some (.requesting op arguments g .queued) := by
  obtain ⟨p, hp, hposting⟩ := Option.bind_eq_some_iff.mp h
  unfold Phase.posting? at hposting
  split at hposting
  · cases hposting
    exact ⟨_, hp⟩
  · cases hposting
  · cases hposting

theorem reloading_of_posting {path : String}
    (h : (c.phase? i).bind Phase.posting? = some (g, .reload op path)) :
    ∃ rest, c.phase? i = some (.reloading op g path rest .queued) := by
  obtain ⟨p, hp, hposting⟩ := Option.bind_eq_some_iff.mp h
  unfold Phase.posting? at hposting
  split at hposting
  · cases hposting
  · cases hposting
    exact ⟨_, hp⟩
  · cases hposting

end Callers

namespace Session.Quiet

open Callers

variable {program : Program σ} {I : Session σ → Prop} {c c' : Callers σ}
  (h : Quiet program I) (hc : I c.session)
include h hc

/-! ## Steps of a caller -/

theorem note (r : TraceRecord) : I (c.note r).session := h.trace hc _

theorem finish (i : Nat) (op : Operation) (r : Except Failure Value) :
    I (c.finish i op r).session := by
  have hrelease : ∀ d : Callers σ, ((d.release i).goto i (.finished r)).session = d.session := by
    intro d
    unfold release
    split <;> rfl
  cases r with
  | ok v =>
    rw [Callers.finish, hrelease]
    exact h.note hc _
  | error f =>
    rw [Callers.finish, hrelease]
    exact h.note hc _

theorem ready (i : Nat) (op : Operation) (command : Command) (arguments : Fields) :
    I (c.ready i op command arguments).session := by
  have hrelease : I ((c.note (.ok .ensureRunning "None")).release i).session := by
    have hnote := h.note hc (.ok .ensureRunning "None")
    unfold release
    split
    · exact hnote
    · exact hnote
  unfold Callers.ready
  dsimp only
  split
  · exact h.finish hrelease i op _
  · split
    · exact h.finish hrelease i op _
    · exact hrelease

theorem afterLaunch (i : Nat) (op : Operation) (r : Except Failure Unit) :
    I (c.afterLaunch i op r).session := by
  unfold Callers.afterLaunch
  split
  · cases r with
    | ok _ => exact h.ready hc i op _ _
    | error f => exact h.finish (h.note hc _) i op _
  · exact h.finish hc i op _

theorem settleReload (path : String) (r : Except Failure Answer) :
    I (Session.settleReload path r c.session).2 := by
  unfold Session.settleReload
  split
  · exact hc
  · exact h.loaded hc (·.erase path)
  · exact h.teardown hc reloadFailed
  · exact hc

theorem reloadNext (i : Nat) (op : Operation) (g : Nat) (paths : List String) :
    I (c.reloadNext i op g paths).session := by
  cases paths with
  | nil => exact h.afterLaunch hc i op _
  | cons path rest =>
    simp only [Callers.reloadNext]
    split
    · rename_i e _
      have hsettle := h.settleReload hc path (.error (.engine e))
      exact h.afterLaunch (c := c.withSession _) hsettle i op _
    · exact hc

theorem endReload (i : Nat) (op : Operation) (g : Nat) (path : String) (rest : List String)
    (r : Except Failure Answer) : I (c.endReload i op g path rest r).session := by
  have hsettle := h.settleReload hc path r
  unfold Callers.endReload
  dsimp only
  split
  · exact h.reloadNext (c := c.withSession _) hsettle i op g rest
  · exact h.afterLaunch (c := c.withSession _) hsettle i op _

theorem takeLifecycle (i : Nat) (op : Operation) : I (c.takeLifecycle program i op).session := by
  have hteardown := h.teardown hc "engine stopped"
  have hlook := h.isRunning hc
  have hlaunch := h.launch hlook
  unfold Callers.takeLifecycle
  dsimp only
  split
  · exact h.finish (c := withSession { c with lifecycle := some i } _) hteardown i .stop _
  · split
    · exact h.afterLaunch (c := withSession { c with lifecycle := some i } _) hlook i op _
    · split
      · rename_i f s hrun
        rw [hrun] at hlaunch
        exact h.afterLaunch (c := withSession _ s) hlaunch i op _
      · rename_i channel s hrun
        rw [hrun] at hlaunch
        exact h.reloadNext (c := withSession _ s) hlaunch i op _ _

theorem start (i : Nat) (op : Operation) : I (c.start i op).session := by
  have hcall := h.note hc (.call op.traced op.shownArguments)
  unfold Callers.start
  dsimp only
  split
  · exact h.finish hcall i op _
  · split
    · have hlook := h.isRunning hcall
      split
      · exact h.finish (c := withSession _ _) hlook i op _
      · exact hlook
    · exact hcall
  · have hlook := h.isRunning (h.note hcall (.call .ensureRunning []))
    split
    · exact h.ready (c := withSession _ _) hlook i op _ _
    · exact hlook

theorem endRequest (i : Nat) (op : Operation) (g : Nat) (r : Except Failure Answer) :
    I (c.endRequest i op g r).session := by
  unfold Callers.endRequest
  split
  · exact hc
  · exact h.finish hc i op _
  · dsimp only
    split
    · exact h.finish (c := c.withSession _) (h.loaded hc (·.put _ _)) i _ _
    · exact h.finish hc i _ _

/-- A step of a caller that asks for nothing. -/
theorem step {i : Nat} {patient : Bool} (hstep : c.step? program patient i = some c')
    (hnone : (c.phase? i).bind Phase.posting? = none) : I c'.session := by
  unfold step? at hstep
  split at hstep
  · cases hstep
  · cases hstep
  · cases hstep
    exact h.start hc i _
  · split at hstep
    · cases hstep
      exact h.takeLifecycle hc i _
    · cases hstep
  · rename_i hp
    rw [hp] at hnone
    cases hnone
  · rename_i op g path rest id _
    split at hstep
    · cases hstep
    · cases hstep
      exact h.endReload (c := (c.collect g id .load).2) (h.collect hc g id .load) i op g path rest _
  · rename_i hp
    rw [hp] at hnone
    cases hnone
  · rename_i op arguments g id _
    split at hstep
    · cases hstep
    · cases hstep
      exact h.endRequest (c := (c.collect g id op.command).2) (h.collect hc g id op.command) i op g _
  · rename_i op g f _
    split at hstep
    · cases hstep
      refine h.finish (c := c.withSession _) ?_ i op _
      dsimp only [withSession]
      split
      · exact h.teardown hc _
      · exact hc
    · cases hstep

omit hc in
/-- A step of a caller that asks a generation for something: first it posts that. -/
theorem step_posting {i g : Nat} {patient : Bool} {x : Posting}
    (hstep : c.step? program patient i = some c')
    (hposting : (c.phase? i).bind Phase.posting? = some (g, x)) :
    ∃ command arguments, I ((post program g command arguments).runFrom c.session).2 →
      I c'.session := by
  cases x with
  | reload op path =>
    obtain ⟨rest, hp⟩ := reloading_of_posting hposting
    refine ⟨.load, loadArguments path, fun hpost => ?_⟩
    rw [← c.post_session program i] at hpost
    simp only [step?, hp] at hstep
    split at hstep
    · split at hstep
      · rename_i id d hrun
        cases hstep
        rw [hrun] at hpost
        exact hpost
      · rename_i f d hrun
        cases hstep
        rw [hrun] at hpost
        exact h.endReload hpost i op g path rest _
    · cases hstep
  | request op =>
    obtain ⟨arguments, hp⟩ := requesting_of_posting hposting
    refine ⟨op.command, arguments, fun hpost => ?_⟩
    rw [← c.post_session program i] at hpost
    simp only [step?, hp] at hstep
    split at hstep
    · split at hstep
      · rename_i id d hrun
        cases hstep
        rw [hrun] at hpost
        exact hpost
      · rename_i f d hrun
        cases hstep
        rw [hrun] at hpost
        exact h.finish hpost i op _
    · cases hstep

end Session.Quiet

namespace Session.Abiding

open Callers

variable {program : Program σ} {I : Session σ → Prop} {c c' : Callers σ}
  (h : Abiding program I) (hc : I c.session)
include h hc

theorem step {i : Nat} {patient : Bool} (hstep : c.step? program patient i = some c') :
    I c'.session := by
  cases hposting : (c.phase? i).bind Phase.posting? with
  | none => exact h.toQuiet.step hc hstep hposting
  | some x =>
    obtain ⟨command, arguments, hpost⟩ := h.step_posting hstep hposting
    exact hpost (h.post hc x.1 command arguments)

/-! ## Runs -/

theorem after (x : CallersStep) : I (x.after program c).session := by
  cases x with
  | begin i op =>
    simp only [CallersStep.after]
    split
    · exact hc
    · exact hc
  | step i patient =>
    simp only [CallersStep.after]
    cases hstep : c.step? program patient i with
    | none => exact hc
    | some c' => exact h.step hc hstep
  | alone op =>
    simp only [CallersStep.after]
    split
    · exact hc
    · exact h.kept.run op c.session hc
  | status => exact h.isRunning hc
  | unload path => exact h.loaded hc (·.erase path)
  | happen g a => exact h.happen hc g [a]

/-- A condition that every basic step keeps holds along every run. -/
theorem following (xs : List CallersStep) : I (Callers.following program xs c).session := by
  induction xs generalizing c with
  | nil => exact hc
  | cons x xs ih => exact ih (h.after hc x)

end Session.Abiding

end AssemblyBrowser
