import AssemblyBrowser.Proofs.Tree.Session
/-!
What the operations of a session fail with: an error of the engine, a wait that cannot be made, a
greeting that cannot be read, or a language that is none. Main statement: `backend_raises`.
-/
namespace AssemblyBrowser

variable {σ α β : Type}

namespace Attempt

/-- The attempt fails with such failures only. -/
def Raises (P : Failure → Prop) (a : Attempt σ α) : Prop :=
  ∀ s f, (a.runFrom s).1 = .error f → P f

variable {P : Failure → Prop}

theorem raises_of_ok {a : Attempt σ α} (h : ∀ s, ∃ v, (a.runFrom s).1 = .ok v) : Raises P a := by
  intro s f hf
  obtain ⟨v, hv⟩ := h s
  rw [hv] at hf
  cases hf

theorem Raises.bind {a : Attempt σ α} {f : α → Attempt σ β} (ha : Raises P a)
    (hf : ∀ v, Raises P (f v)) : Raises P (a >>= f) := by
  intro s e he
  rw [runFrom_bind] at he
  cases hr : a.runFrom s with
  | mk r t =>
    rw [hr] at he
    cases r with
    | error e' =>
      obtain rfl : e' = e := Except.error.inj he
      exact ha s e' (by rw [hr])
    | ok v => exact hf v t e he

theorem raises_pure (v : α) : Raises P (pure v : Attempt σ α) := fun _ _ h => by cases h

theorem raises_get : Raises P (get : Attempt σ σ) := fun _ _ h => by cases h

theorem raises_ofExcept {r : Except Failure α} (h : ∀ f, r = .error f → P f) :
    Raises P (ofExcept r : Attempt σ α) := fun _ f hf => h f hf

end Attempt

open Attempt (Raises raises_of_ok raises_pure raises_get raises_ofExcept)

/-- What goes wrong between a session and its engine. -/
def Failure.OfEngine : Failure → Prop
  | .engine _ | .seconds _ | .hugeInteger _ | .language _ => True
  | _ => False

namespace Supervisor

variable {ρ : Type} (program : Program σ) (listener : Listener ρ)

theorem spawn_raises (s : Supervisor σ ρ) {f : Failure}
    (h : (s.spawn program listener).1 = .error f) : f.OfEngine := by
  have hgreet : ∀ (u : Supervisor σ ρ) g c, (u.greet listener g c).1 = .error f → f.OfEngine := by
    intro u g c hg
    unfold greet at hg
    split at hg
    · split at hg
      · split at hg <;> cases hg <;> trivial
      · cases hg
        trivial
    · split at hg <;> cases hg <;> trivial
  unfold spawn at h
  split at h
  · cases h
    trivial
  · cases h
    trivial
  · generalize program.launch s.program = r at h
    obtain ⟨launch, state⟩ := r
    dsimp only at h
    split at h
    · cases h
      trivial
    · split at h
      · exact hgreet _ _ _ h
      · cases h

theorem start_raises : Raises Failure.OfEngine (start program listener) := by
  intro s f h
  simp only [Attempt.runFrom, ExceptT.run, start] at h
  split at h
  · cases h
  · exact spawn_raises program listener _ h

end Supervisor

namespace Session

theorem traced_raises {P : Failure → Prop} {a : Attempt (Session σ) α} (h : Raises P a)
    (op : TracedOperation) (arguments : List String) (shown : α → String) :
    Raises P (traced op arguments shown a) := by
  intro s f hf
  obtain ⟨trace, trace', hr⟩ := traced_run op arguments shown a s
  rw [hr] at hf
  exact h _ f hf

variable (program : Program σ)

theorem launch_raises : Raises Failure.OfEngine (launch program) := by
  intro s f h
  rw [launch_run] at h
  unfold settleLaunch at h
  split at h
  · cases h
    trivial
  · rename_i f' hstart
    cases h
    exact Supervisor.start_raises program Link.listener _ _ hstart
  · cases h

theorem await_raises {c : Channel} {id : Nat} {command : Command} {timeout : Number} {f : Failure}
    (h : c.await id command timeout = .error f) : f.OfEngine := by
  unfold Channel.await at h
  split at h
  · cases h
  · cases h
    trivial
  · split at h
    · cases h
      trivial
    · split at h <;> cases h <;> trivial

theorem send_raises (g : Nat) (command : Command) (arguments : Fields) :
    Raises Failure.OfEngine (send program g command arguments) := by
  refine .bind (fun s f h => ?_) fun id s f h => ?_
  · by_cases htakes : s.Takes g command
    · obtain ⟨hr, c, hc⟩ := htakes
      rw [post_run program hc hr arguments] at h
      unfold settlePost at h
      split at h
      · rename_i f' hsend
        cases h
        obtain ⟨e, rfl⟩ := Supervisor.sendLine_error Link.listener program (Prod.ext hsend rfl)
        trivial
      · cases h
    · obtain ⟨e, he⟩ := post_refused program htakes arguments
      rw [he] at h
      cases h
      trivial
  · simp only [Attempt.runFrom, ExceptT.run, collect] at h
    split at h
    · cases h
      trivial
    · rename_i c _
      cases hawait : c.await id command c.timeout with
      | ok r =>
        rw [hawait] at h
        cases h
      | error f' =>
        rw [hawait] at h
        cases h
        exact await_raises hawait

theorem settleReload_raises (path : String) {r : Except Failure Answer}
    (hr : ∀ f, r = .error f → f.OfEngine) :
    Raises Failure.OfEngine (settleReload path r : Attempt (Session σ) Unit) := by
  intro s f h
  simp only [Attempt.runFrom, ExceptT.run, settleReload] at h
  split at h
  · cases h
  · cases h
  · cases h
    trivial
  · cases h
    exact hr f rfl

theorem reload_raises (g : Nat) (paths : List String) :
    Raises Failure.OfEngine (reload program g paths) := by
  induction paths with
  | nil => exact raises_pure ()
  | cons path rest ih =>
    intro s f h
    unfold reload at h
    rw [Attempt.runFrom_bind, Attempt.runFrom_outcome] at h
    have hsettle := settleReload_raises (σ := σ) path
      (send_raises program g .load (loadArguments path) s)
    exact hsettle.bind (fun _ => ih) _ f h

theorem relaunch_raises : Raises Failure.OfEngine (relaunch program) :=
  .bind (launch_raises program) fun _ => .bind raises_get fun _ => reload_raises program _ _

theorem ensureRunning_raises : Raises Failure.OfEngine (ensureRunning program) := by
  refine traced_raises (.bind (raises_of_ok fun s => ⟨_, rfl⟩) fun running => ?_) _ _ _
  cases running with
  | true => exact raises_pure ()
  | false => exact relaunch_raises program

theorem request_raises (command : Command) (arguments : Fields) :
    Raises Failure.OfEngine (request program command arguments) := by
  refine .bind (ensureRunning_raises program) fun _ => .bind raises_get fun s => ?_
  cases s.link.installed with
  | none =>
    intro t f h
    cases h
    trivial
  | some g =>
    intro t f h
    dsimp only at h
    rw [Attempt.runFrom_bind, Attempt.runFrom_outcome] at h
    dsimp only at h
    have hsend := send_raises program g command arguments t
    generalize ((send program g command arguments).runFrom t) = r at h hsend
    simp only [Attempt.runFrom, ExceptT.run, giveUp] at h
    split at h <;> exact hsend f h

theorem readBody_raises {command : Command} {read : Fields → Except ProtocolError α}
    {failed : String → Option String → EngineError} {answer : Answer} :
    ∀ f, readBody command read failed answer = .error f → f.OfEngine := by
  intro f h
  unfold readBody at h
  split at h
  · rename_i body
    cases hread : read body with
    | ok v =>
      rw [hread] at h
      cases h
    | error e =>
      rw [hread] at h
      cases h
      trivial
  · cases h
    trivial

theorem load_raises (path : String) : Raises Failure.OfEngine (load program path) := by
  unfold load
  refine traced_raises (.bind (request_raises program _ _) fun answer => ?_) _ _ _
  refine .bind (raises_ofExcept readBody_raises) fun m => .bind ?_ fun _ => raises_pure m
  exact raises_of_ok fun s => ⟨(), rfl⟩

theorem children_raises (key : String) (assembly : Option String) :
    Raises Failure.OfEngine (children program key assembly) := by
  unfold children
  refine traced_raises (.bind (request_raises program _ _) fun answer => ?_) _ _ _
  exact raises_ofExcept readBody_raises

theorem decompile_raises (key : String) (language : Option Json) (assembly : Option String) :
    Raises Failure.OfEngine (decompile program key language assembly) := by
  have hlanguage : ∀ f, languageOf language = .error f → f.OfEngine := by
    intro f h
    unfold languageOf at h
    split at h
    · cases h
    · rename_i v
      cases hparse : Language.parse v.plain with
      | ok l =>
        rw [hparse] at h
        cases h
      | error e =>
        rw [hparse] at h
        cases h
        trivial
  unfold decompile
  refine traced_raises (.bind (raises_ofExcept hlanguage) fun l => ?_) _ _ _
  exact .bind (request_raises program _ _) fun answer => raises_ofExcept readBody_raises

/-- What a tree asks a session fails with an error of the engine only. -/
theorem backend_raises (c : Call) : Raises Failure.OfEngine (backend program c) := by
  cases c with
  | load path => exact load_raises program path
  | enumerate key assembly => exact children_raises program key (some assembly)
  | decompile key language assembly =>
    exact decompile_raises program key (some (.text language.name)) (some assembly)
  | unload path => exact raises_of_ok fun s => ⟨(), rfl⟩
  | stop => exact traced_raises (raises_of_ok fun s => ⟨(), rfl⟩) _ _ _

end Session

end AssemblyBrowser
