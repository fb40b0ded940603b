import AssemblyBrowser.Proofs.Attempt
import AssemblyBrowser.Proofs.Engine.Live
/-!
The moments of a step: the states that a supervisor passes through while the step is being made, the
last of which is the state after it.
-/
namespace AssemblyBrowser.Supervisor

variable {σ ρ : Type}

section Moments

variable (program : Program σ) (listener : Listener ρ)

def actMoments (g : Nat) : List Act → Supervisor σ ρ → List (Supervisor σ ρ)
  | [], s => [s]
  | a :: as, s => s :: actMoments g as (s.act listener g a)

def shutDownMoments (s : Supervisor σ ρ) (g : Nat) (c : Child) : List (Supervisor σ ρ) :=
  let s := (s.record (.closeInput g)).record (.terminate g)
  if c.temper.terminate = .refuses then [s]
  else
    let t := s.resist listener c.temper.terminate g terminateCode
    s :: t :: match t.child? g with
      | some c => if c.isAlive then [t.kill listener g] else []
      | none => []

def stopMoments (s : Supervisor σ ρ) : List (Supervisor σ ρ) :=
  match s.held with
  | none => [s]
  | some g =>
    let s := { s with held := none }
    match s.child? g with
    | none => [s]
    | some c => if c.isAlive then shutDownMoments listener s g c else [s]

/-- What comes before the greeting of a new child is looked at, if a child comes to be: the state
with the new child, and what the child does first. -/
def hatch? (s : Supervisor σ ρ) : Option (Supervisor σ ρ × List Act) :=
  match s.options.command with
  | none | some [] => none
  | some (word :: words) =>
    let s := s.record (.spawn (word :: words) s.options.environment)
    match program.launch s.program with
    | (.failed _, _) => none
    | (.started temper printed, state) =>
      let s := { s with program := state, attempts := s.attempts + 1 }
      some ({ s with children := s.children ++ [{ number := s.attempts, temper }] }, printed)

def spawnMoments (s : Supervisor σ ρ) : List (Supervisor σ ρ) :=
  match hatch? program s with
  | none => [s, (s.spawn program listener).2]
  | some (t, printed) =>
    s :: actMoments listener t.generation printed t ++ [(s.spawn program listener).2]

/-- What is done with a supervisor, and what a child does of its own accord. -/
inductive HandleStep
  | start
  | restart
  | stop
  | send (generation : Nat) (line : String)
  | happen (generation : Nat) (act : Act)
deriving DecidableEq, Repr

namespace HandleStep

def run : HandleStep → Attempt (Supervisor σ ρ) Unit
  | .start => (fun _ => ()) <$> Supervisor.start program listener
  | .restart => (fun _ => ()) <$> Supervisor.restart program listener
  | .stop => fun s => (.ok (), s.stop listener)
  | .send g line => Supervisor.sendLine program listener g line
  | .happen g a => fun s => (.ok (), s.happen listener g [a])

/-- The state after a step. -/
def after (x : HandleStep) (s : Supervisor σ ρ) : Supervisor σ ρ :=
  ((x.run program listener).runFrom s).2

/-- Whether a step has failed, or has left no child running. -/
def LeavesIdle (x : HandleStep) (s : Supervisor σ ρ) : Prop :=
  (∃ f, ((x.run program listener).runFrom s).1 = .error f) ∨
    (x.after program listener s).isRunning = false

/-- Whether a step is about the life of the child that is held. -/
def IsLifecycle : HandleStep → Prop
  | .start | .restart | .stop => True
  | .send .. | .happen .. => False

def moments (x : HandleStep) (s : Supervisor σ ρ) : List (Supervisor σ ρ) :=
  match x with
  | .start =>
    if s.isRunning then [s]
    else stopMoments listener s ++ spawnMoments program listener (s.stop listener)
  | .restart => stopMoments listener s ++ spawnMoments program listener (s.stop listener)
  | .stop => stopMoments listener s
  | .send g line =>
    if s.held.isNone || g ≠ s.generation || !s.isRunning then [s]
    else
      let s := s.record (.write g line)
      let (reaction, state) := program.react s.program g line
      actMoments listener g reaction.acts { s with program := state }
  | .happen g a => actMoments listener g [a] s

end HandleStep

end Moments

/-! ## The last moment -/

section

variable (program : Program σ) (listener : Listener ρ)

theorem getLast?_actMoments (g : Nat) (as : List Act) (s : Supervisor σ ρ) :
    (actMoments listener g as s).getLast? = some (s.acts listener g as) := by
  induction as generalizing s with
  | nil => rfl
  | cons a as ih =>
    rw [actMoments, List.getLast?_cons, ih]
    rfl

theorem getLast?_shutDownMoments (s : Supervisor σ ρ) (g : Nat) (c : Child) :
    (shutDownMoments listener s g c).getLast? = some (s.shutDown listener g c) := by
  unfold shutDownMoments shutDown
  by_cases hr : c.temper.terminate = .refuses
  · simp [hr]
  · simp only [hr, if_false]
    cases hc : (resist listener c.temper.terminate g terminateCode
        ((s.record (.closeInput g)).record (.terminate g))).child? g with
    | none => simp
    | some d => by_cases ha : d.isAlive <;> simp [ha]

theorem getLast?_stopMoments (s : Supervisor σ ρ) :
    (stopMoments listener s).getLast? = some (s.stop listener) := by
  unfold stopMoments stop
  cases s.held with
  | none => simp
  | some g =>
    simp only
    cases ({ s with held := none } : Supervisor σ ρ).child? g with
    | none => simp
    | some c => by_cases ha : c.isAlive <;> simp [ha, getLast?_shutDownMoments]

theorem getLast?_spawnMoments (s : Supervisor σ ρ) :
    (spawnMoments program listener s).getLast? = some (s.spawn program listener).2 := by
  unfold spawnMoments
  split
  · rfl
  · rw [List.getLast?_append]
    rfl

theorem run_start (s : Supervisor σ ρ) :
    (HandleStep.start.run program listener).runFrom s =
      if s.isRunning then (.ok (), s)
      else (((s.stop listener).spawn program listener).1.map fun _ => (),
        ((s.stop listener).spawn program listener).2) := by
  rw [HandleStep.run, Attempt.runFrom_map]
  by_cases hr : s.isRunning <;> simp [Attempt.runFrom, ExceptT.run, start, hr, Except.map]

theorem run_restart (s : Supervisor σ ρ) :
    (HandleStep.restart.run program listener).runFrom s =
      (((s.stop listener).spawn program listener).1.map fun _ => (),
        ((s.stop listener).spawn program listener).2) := by
  rw [HandleStep.run, Attempt.runFrom_map]
  rfl

theorem getLast?_moments (x : HandleStep) (s : Supervisor σ ρ) :
    (x.moments program listener s).getLast? = some (x.after program listener s) := by
  have hnew : (stopMoments listener s ++ spawnMoments program listener (s.stop listener)).getLast? =
      some ((s.stop listener).spawn program listener).2 := by
    rw [List.getLast?_append, getLast?_spawnMoments]
    rfl
  cases x with
  | start =>
    rw [HandleStep.after, run_start]
    by_cases hr : s.isRunning
    · simp [HandleStep.moments, hr]
    · simp [HandleStep.moments, hr, hnew]
  | restart => exact hnew.trans (by rw [HandleStep.after, run_restart])
  | stop => exact getLast?_stopMoments listener s
  | send g line =>
    simp only [HandleStep.moments, HandleStep.after, HandleStep.run, Attempt.runFrom, ExceptT.run,
      sendLine]
    split
    · rfl
    · rw [getLast?_actMoments]
      split <;> rfl
  | happen g a => exact getLast?_actMoments listener g [a] s

/-! ## Children at a moment -/

theorem actMoments_turn (g : Nat) (as : List Act) (s : Supervisor σ ρ) :
    ∀ t ∈ actMoments listener g as s, Turn g s t := by
  induction as generalizing s with
  | nil =>
    intro t hm
    obtain rfl := List.mem_singleton.mp hm
    exact .refl g t
  | cons a as ih =>
    intro t hm
    rcases List.mem_cons.mp hm with rfl | hm
    · exact .refl g t
    · exact (act_turn listener g s a).trans (ih _ t hm)

theorem spawn_of_hatch_none {s : Supervisor σ ρ} (h : hatch? program s = none) :
    (∃ f, (s.spawn program listener).1 = .error f) ∧
      (s.spawn program listener).2.children = s.children ∧
      (s.spawn program listener).2.endedGeneration = s.endedGeneration ∧
      (s.spawn program listener).2.held = s.held := by
  revert h
  unfold hatch? spawn
  cases s.options.command with
  | none => simp
  | some words =>
    cases words with
    | nil => simp
    | cons word words =>
      cases hl : program.launch s.program with
      | mk launch state => cases launch <;> simp [hl, record]

/-- What a new child finds. -/
structure Hatched (s t : Supervisor σ ρ) (printed : List Act) : Prop where
  generation : t.generation = s.generation + 1
  child : ∃ c, t.child? t.generation = some c ∧ c.IsNew ∧
    ∃ w, (program.launch w).1 = .started c.temper printed
  older : ∀ g ≠ t.generation, t.child? g = s.child? g
  ended : t.endedGeneration = s.endedGeneration
  held : t.held = s.held
  options : t.options = s.options
  owner : t.owner = s.owner

theorem hatched_of_hatch {s t : Supervisor σ ρ} {printed : List Act}
    (h : hatch? program s = some (t, printed)) : Hatched program s t printed := by
  unfold hatch? at h
  split at h
  · cases h
  · cases h
  · rename_i word words _
    simp only at h
    split at h
    · cases h
    · rename_i temper printed' state hl
      simp only [Option.some.injEq, Prod.mk.injEq] at h
      obtain ⟨rfl, rfl⟩ := h
      refine ⟨generation_append rfl, ⟨{ number := s.attempts + 1, temper }, child?_append_new rfl,
        ⟨rfl, rfl, rfl⟩, s.program, congrArg Prod.fst hl⟩, fun g hg => ?_, rfl, rfl, rfl, rfl⟩
      exact (child?_append_old (s := s) rfl hg).trans rfl

theorem Hatched.only {s t : Supervisor σ ρ} {printed : List Act} (h : Hatched program s t printed)
    (hs : s.NoneLive) {g : Nat} (hg : t.IsLive g) : g = t.generation := by
  by_cases hne : g = t.generation
  · exact hne
  · obtain ⟨c, hc, ha⟩ := hg
    rw [h.older g hne] at hc
    exact absurd ⟨c, hc, ha⟩ (hs g)

theorem spawn_of_hatch {s t : Supervisor σ ρ} {printed : List Act}
    (h : hatch? program s = some (t, printed)) :
    ∃ c, (t.acts listener t.generation printed).child? t.generation = some c ∧
      s.spawn program listener =
        (t.acts listener t.generation printed).greet listener t.generation c := by
  obtain ⟨c, hc, -⟩ := (hatched_of_hatch program h).child
  obtain ⟨d, hd, -⟩ := (acts_turn listener t.generation printed t).grows c hc
  refine ⟨d, hd, ?_⟩
  unfold hatch? at h
  split at h
  · cases h
  · cases h
  · rename_i word words hcmd
    simp only at h
    split at h
    · cases h
    · rename_i temper printed' state hl
      simp only [Option.some.injEq, Prod.mk.injEq] at h
      obtain ⟨rfl, rfl⟩ := h
      simp only [spawn, hcmd, hl, hd]

end

end AssemblyBrowser.Supervisor
