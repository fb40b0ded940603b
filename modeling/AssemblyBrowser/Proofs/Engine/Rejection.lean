import AssemblyBrowser.Proofs.Engine.Rehydration
/-!
What engines answer when assemblies are loaded again. Main statement: whatever a caller does with a
session, what it remembered is forgotten only if an engine has answered its reload with a failure, and
then always; the rest stays remembered in the same order.
-/
namespace AssemblyBrowser

namespace Session

variable {σ α β : Type} {s t u : Session σ}

/-- The assemblies whose reload was answered with a failure. -/
def rejected (answered : List (String × Answer)) : List String :=
  (answered.filter fun e => !Answer.isSuccess e.2).map Prod.fst

theorem rejected_append (as bs : List (String × Answer)) :
    rejected (as ++ bs) = rejected as ++ rejected bs := by
  simp only [rejected, List.filter_append, List.map_append]

theorem mem_rejected {answered : List (String × Answer)} {p : String} :
    p ∈ rejected answered ↔ ∃ code message, (p, Answer.failure code message) ∈ answered := by
  constructor
  · intro h
    obtain ⟨⟨q, answer⟩, he, rfl⟩ := List.mem_map.mp h
    obtain ⟨hm, hfail⟩ := List.mem_filter.mp he
    cases answer with
    | success body => cases hfail
    | failure code message => exact ⟨code, message, hm⟩
  · rintro ⟨code, message, hm⟩
    exact List.mem_map.mpr ⟨_, List.mem_filter.mpr ⟨hm, rfl⟩, rfl⟩

theorem filter_not_rejected {answered : List (String × Answer)} (h : rejected answered = [])
    (paths : List String) : (paths.filter fun p => p ∉ rejected answered) = paths := by
  rw [h]
  exact List.filter_eq_self.mpr fun _ _ => by simp

/-! ## The answers to a reload -/

section

variable (program : Program σ)

/-- The answers that a reload gets, up to the first request that fails. A line that is printed for a
request which could not be written, or after its sender has given up, is no answer to it. -/
def reloadAnswers (g : Nat) : List String → Session σ → List (String × Answer)
  | [], _ => []
  | path :: rest, s =>
    match (send program g .load (loadArguments path)).runFrom s with
    | (.ok answer, t) =>
      (path, answer) :: reloadAnswers g rest (settleReload path (.ok answer) t).2
    | (.error _, _) => []

/-- The answers to the reload that a relaunch ends with. -/
def relaunchAnswers (s : Session σ) : List (String × Answer) :=
  match (launch program).runFrom s with
  | (.ok c, t) => reloadAnswers program c.generation t.loadedAssemblies t
  | (.error _, _) => []

/-- The answers to the reload that takes place if the engine has to be started first. -/
def readyAnswers (s : Session σ) : List (String × Answer) :=
  if s.isRunning.1 then [] else relaunchAnswers program s.isRunning.2

end

/-! ## The trace does not matter -/

/-- What is attempted neither reads nor writes the trace. -/
def Untraced (a : Attempt (Session σ) α) : Prop :=
  ∀ (s : Session σ) (trace : Option (List TraceRecord)),
    a.runFrom { s with trace } = ((a.runFrom s).1, { (a.runFrom s).2 with trace })

theorem Untraced.bind {a : Attempt (Session σ) α} {f : α → Attempt (Session σ) β}
    (h : Untraced a) (h' : ∀ v, Untraced (f v)) : Untraced (a >>= f) := by
  intro s trace
  rw [Attempt.runFrom_bind, Attempt.runFrom_bind, h s trace]
  cases ha : a.runFrom s with
  | mk r t =>
    cases r with
    | error e => rfl
    | ok v => exact h' v t trace

section

variable (program : Program σ)

theorem untraced_post (g : Nat) (command : Command) (arguments : Fields) :
    Untraced (post program g command arguments) := by
  intro s trace
  by_cases htakes : s.Takes g command
  · obtain ⟨hr, c, hc⟩ := htakes
    have hr' : ({ s with trace } : Session σ).refusal? g command = none := hr
    have hc' : ({ s with trace } : Session σ).link.channel? g = some c := hc
    rw [post_run program hc hr arguments, post_run program hc' hr' arguments]
    unfold settlePost
    dsimp only [Session.enlist, mapLink]
    split <;> rfl
  · simp only [Attempt.runFrom, ExceptT.run, post]
    cases hr : s.refusal? g command with
    | some e =>
      have hr' : ({ s with trace } : Session σ).refusal? g command = some e := hr
      rw [hr']
    | none =>
      have hr' : ({ s with trace } : Session σ).refusal? g command = none := hr
      cases hc : s.link.channel? g with
      | none =>
        have hc' : ({ s with trace } : Session σ).link.channel? g = none := hc
        rw [hr', hc']
      | some c => exact absurd ⟨hr, c, hc⟩ htakes

theorem untraced_collect (g id : Nat) (command : Command) :
    Untraced (collect g id command : Attempt (Session σ) Answer) := by
  intro s trace
  cases hc : s.link.channel? g with
  | none =>
    have hc' : ({ s with trace } : Session σ).link.channel? g = none := hc
    simp only [Attempt.runFrom, ExceptT.run, collect, hc, hc']
  | some c =>
    have hc' : ({ s with trace } : Session σ).link.channel? g = some c := hc
    rw [collect_run hc, collect_run hc']
    rfl

theorem untraced_send (g : Nat) (command : Command) (arguments : Fields) :
    Untraced (send program g command arguments) :=
  (untraced_post program g command arguments).bind fun id => untraced_collect g id command

theorem untraced_launch : Untraced (launch program) := by
  intro s trace
  rw [launch_run, launch_run, teardown_trace]
  unfold settleLaunch
  dsimp only [setState, mapLink]
  split <;> rfl

theorem reloadAnswers_trace (g : Nat) (paths : List String) :
    ∀ (s : Session σ) (trace : Option (List TraceRecord)),
      reloadAnswers program g paths { s with trace } = reloadAnswers program g paths s := by
  induction paths with
  | nil => exact fun _ _ => rfl
  | cons path rest ih =>
    intro s trace
    simp only [reloadAnswers, untraced_send program g .load (loadArguments path) s trace]
    generalize (send program g .load (loadArguments path)).runFrom s = r
    obtain ⟨r, t⟩ := r
    cases r with
    | error f => rfl
    | ok answer =>
      cases answer with
      | success body => exact congrArg _ (ih t trace)
      | failure code message => exact congrArg _ (ih (t.unload path) trace)

theorem relaunchAnswers_trace (s : Session σ) (trace : Option (List TraceRecord)) :
    relaunchAnswers program { s with trace } = relaunchAnswers program s := by
  simp only [relaunchAnswers, untraced_launch program s trace]
  generalize (launch program).runFrom s = r
  obtain ⟨r, t⟩ := r
  cases r with
  | error f => rfl
  | ok c => exact reloadAnswers_trace program c.generation t.loadedAssemblies t trace

theorem readyAnswers_trace (s : Session σ) (trace : Option (List TraceRecord)) :
    readyAnswers program { s with trace } = readyAnswers program s := by
  simp only [readyAnswers, isRunning_trace, relaunchAnswers_trace]

end

/-! ## What is remembered afterwards -/

/-- A session later, when engines of generation `k` or later have given these answers to reloads: what
they have rejected is forgotten, and the rest is remembered in the same order. -/
structure Sheds (k : Nat) (answered : List (String × Answer)) (s t : Session σ) : Prop where
  sound : t.Sound
  ages : s.Ages t
  loaded : t.loadedAssemblies = s.loadedAssemblies.filter fun p => p ∉ rejected answered
  heard : ∀ e ∈ answered, ∃ g, k ≤ g ∧ t.LoadAnswered g e.1 e.2

theorem Moves.sheds (h : s.Moves t) (k : Nat) : s.Sheds k [] t where
  sound := h.sound
  ages := h.ages
  loaded := h.loadedAssemblies.trans (filter_not_rejected rfl _).symm
  heard _ he := by cases he

theorem Sheds.trans {k k' : Nat} {as bs : List (String × Answer)} (h : s.Sheds k as t)
    (h' : t.Sheds k' bs u) (hk : k ≤ k') : s.Sheds k (as ++ bs) u where
  sound := h'.sound
  ages := h.ages.trans h'.ages
  loaded := by
    rw [h'.loaded, h.loaded, List.filter_filter, rejected_append]
    refine List.filter_congr fun p _ => ?_
    simp only [List.mem_append, not_or, Bool.decide_and]
    exact Bool.and_comm _ _
  heard e he := by
    rcases List.mem_append.mp he with he | he
    · obtain ⟨g, hle, ha⟩ := h.heard e he
      exact ⟨g, hle, h'.ages.loadAnswered ha⟩
    · obtain ⟨g, hle, ha⟩ := h'.heard e he
      exact ⟨g, Nat.le_trans hk hle, ha⟩

theorem Sheds.later {k : Nat} {as : List (String × Answer)} (h : s.Sheds k as t)
    (h' : t.Moves u) : s.Sheds k as u := by
  have := h.trans (h'.sheds k) (Nat.le_refl k)
  rwa [List.append_nil] at this

theorem Sheds.of_trace {k : Nat} {as : List (String × Answer)} (h : s.Sheds k as t)
    (trace trace' : Option (List TraceRecord)) :
    ({ s with trace } : Session σ).Sheds k as { t with trace := trace' } :=
  ⟨h.sound.of_trace trace',
    ⟨h.ages.settings, h.ages.options, h.ages.log, h.ages.generation, h.ages.link⟩, h.loaded, h.heard⟩

theorem Sound.collect_stays (h : s.Sound) (g id : Nat) (command : Command) :
    s.Stays ((Session.collect g id command).runFrom s).2 := by
  cases hc : s.link.channel? g with
  | none =>
    simp only [Attempt.runFrom, ExceptT.run, Session.collect, hc]
    exact h.stays
  | some c =>
    rw [collect_run hc]
    exact ⟨h.forget g id, rfl, rfl⟩

section

variable (program : Program σ)

/-- Whatever becomes of a request, it starts no engine and nothing is forgotten. -/
theorem Sound.send_stays (h : s.Sound) (g : Nat) (command : Command) (arguments : Fields) :
    let r := (Session.send program g command arguments).runFrom s
    s.Stays r.2 ∧ ∀ answer, r.1 = .ok answer →
      ∃ id, r.2.Wrote g id command arguments ∧ r.2.Answered g id answer := by
  obtain ⟨hstays, hposted⟩ := h.post program g command arguments
  intro r
  simp only [r, Session.send, Attempt.runFrom_bind]
  generalize (Session.post program g command arguments).runFrom s = p at hstays hposted
  obtain ⟨result, t⟩ := p
  cases result with
  | error f => exact ⟨hstays, fun _ ha => by cases ha⟩
  | ok id =>
    have hwait := hstays.moves.sound.collect_stays g id command
    refine ⟨hstays.trans hwait, fun answer ha => ⟨id, hwait.moves.ages.log.subset hposted, ?_⟩⟩
    exact hstays.moves.sound.collect_answered ha

/-- An assembly is forgotten once its reload has been answered with a failure, and not if it has been
answered with a success. -/
theorem Sound.settleReload_sheds (h : s.Sound) {g : Nat} {path : String} {answer : Answer}
    (ha : s.LoadAnswered g path answer) :
    s.Sheds g [(path, answer)] (settleReload path (.ok answer) s).2 := by
  cases answer with
  | success body =>
    refine ⟨h, .refl s, (filter_not_rejected rfl _).symm, fun e he => ⟨g, Nat.le_refl g, ?_⟩⟩
    rw [List.mem_singleton.mp he]
    exact ha
  | failure code message =>
    obtain ⟨hsound, hages⟩ := h.mapLoaded (·.erase path)
    have hages : s.Ages (s.unload path) := hages
    refine ⟨hsound, hages, ?_, fun e he => ⟨g, Nat.le_refl g, ?_⟩⟩
    · refine (OrderedMap.keys_erase s.link.loaded path).trans (List.filter_congr fun p _ => ?_)
      have hone : rejected [(path, Answer.failure code message)] = [path] := rfl
      simp only [hone, List.mem_singleton, ne_eq]
    · rw [List.mem_singleton.mp he]
      exact hages.loadAnswered ha

theorem reload_cons_ok {g : Nat} {path : String} {answer : Answer} (rest : List String)
    (hsend : (send program g .load (loadArguments path)).runFrom s = (.ok answer, t)) :
    (reload program g (path :: rest)).runFrom s =
      (reload program g rest).runFrom (settleReload path (.ok answer) t).2 := by
  rw [reload_cons, hsend]
  cases answer <;> rfl

/-- An engine that fails during a reload is stopped, and nothing is forgotten. -/
theorem Sound.settleReload_error (h : s.Sound) (path : String) (f : Failure) :
    s.Moves (settleReload path (.error f) s).2 := by
  cases f with
  | engine e => exact (h.teardown reloadFailed).1
  | _ => exact h.refl

/-- Induction on the assemblies that are to be loaded again. -/
theorem Sound.reload_sheds (g : Nat) (paths : List String) : ∀ {s : Session σ}, s.Sound →
    s.Sheds g (reloadAnswers program g paths s) ((Session.reload program g paths).runFrom s).2 := by
  induction paths with
  | nil => exact fun h => h.refl.sheds g
  | cons path rest ih =>
    intro s h
    obtain ⟨hstays, hanswered⟩ := h.send_stays program g .load (loadArguments path)
    unfold reloadAnswers
    cases hsend : (Session.send program g .load (loadArguments path)).runFrom s with
    | mk r t =>
      rw [hsend] at hstays hanswered
      cases r with
      | error f =>
        rw [reload_cons_error program rest hsend]
        exact (hstays.moves.trans (hstays.moves.sound.settleReload_error path f)).sheds g
      | ok answer =>
        rw [reload_cons_ok program rest hsend]
        have hsettled := hstays.moves.sound.settleReload_sheds (hanswered answer rfl)
        have hone := ((hstays.moves.sheds g).trans hsettled (Nat.le_refl g))
        exact hone.trans (ih hsettled.sound) (Nat.le_refl g)

/-! ## Operations -/

/-- What is attempted makes newer engines give these answers to reloads, and no others. -/
def Reloads (answers : Session σ → List (String × Answer)) (a : Attempt (Session σ) α) : Prop :=
  ∀ s : Session σ, s.Sound → s.Sheds (s.generation + 1) (answers s) (a.runFrom s).2

/-- What is attempted forgets no assembly. -/
def Retains (a : Attempt (Session σ) α) : Prop := ∀ s : Session σ, s.Sound → s.Moves (a.runFrom s).2

theorem Reloads.bind {answers : Session σ → List (String × Answer)} {a : Attempt (Session σ) α}
    {f : α → Attempt (Session σ) β} (h : Reloads answers a) (h' : ∀ v, Retains (f v)) :
    Reloads answers (a >>= f) := by
  intro s hs
  have ha := h s hs
  rw [Attempt.runFrom_bind]
  generalize a.runFrom s = r at ha ⊢
  obtain ⟨r, t⟩ := r
  cases r with
  | error e => exact ha
  | ok v => exact ha.later (h' v t ha.sound)

theorem Retains.bind {a : Attempt (Session σ) α} {f : α → Attempt (Session σ) β} (h : Retains a)
    (h' : ∀ v, Retains (f v)) : Retains (a >>= f) := by
  intro s hs
  have ha := h s hs
  rw [Attempt.runFrom_bind]
  generalize a.runFrom s = r at ha ⊢
  obtain ⟨r, t⟩ := r
  cases r with
  | error e => exact ha
  | ok v => exact ha.trans (h' v t ha.sound)

theorem retains_ofExcept (r : Except Failure α) :
    Retains (Attempt.ofExcept r : Attempt (Session σ) α) := fun _ hs => hs.refl

theorem Reloads.traced {answers : Session σ → List (String × Answer)} {a : Attempt (Session σ) α}
    (htrace : ∀ s trace, answers { s with trace } = answers s) (h : Reloads answers a)
    (op : TracedOperation) (arguments : List String) (shown : α → String) :
    Reloads answers (traced op arguments shown a) := by
  intro s hs
  obtain ⟨trace, trace', hr⟩ := traced_run op arguments shown a s
  have ha := h { s with trace } (hs.of_trace trace)
  rw [hr, ← htrace s trace]
  exact ha.of_trace s.trace trace'

theorem reloads_relaunch : Reloads (relaunchAnswers program) (relaunch program) := by
  intro s hs
  obtain ⟨hmoves, hnew⟩ := hs.launch program
  unfold relaunch relaunchAnswers
  rw [Attempt.runFrom_bind]
  generalize (launch program).runFrom s = r at hmoves hnew
  obtain ⟨r, t⟩ := r
  cases r with
  | error f => exact hmoves.sheds _
  | ok c =>
    obtain ⟨-, hc, hlt⟩ := hnew
    dsimp only
    rw [Attempt.runFrom_bind_ok (Attempt.runFrom_get t)]
    have hle : s.generation + 1 ≤ c.generation := hc ▸ hlt
    exact (hmoves.sheds _).trans (hmoves.sound.reload_sheds program c.generation _) hle

theorem reloads_ensureRunning : Reloads (readyAnswers program) (ensureRunning program) := by
  refine Reloads.traced (readyAnswers_trace program) (fun s hs => ?_) _ _ _
  obtain ⟨hmoves, -⟩ := hs.isRunning
  have hnow : (runningNow : Attempt (Session σ) Bool).runFrom s =
      (.ok s.isRunning.1, s.isRunning.2) := rfl
  rw [Attempt.runFrom_bind_ok hnow]
  unfold readyAnswers
  cases s.isRunning.1 with
  | true => exact hmoves.sheds _
  | false =>
    have hnew := reloads_relaunch program s.isRunning.2 hmoves.sound
    rw [isRunning_generation] at hnew
    exact (hmoves.sheds _).trans hnew (Nat.le_refl _)

theorem reloads_restart : Reloads (relaunchAnswers program) (restart program) :=
  (reloads_relaunch program).traced (relaunchAnswers_trace program) _ _ _

theorem Sound.giveUp (h : s.Sound) (g : Nat) (r : Except Failure Answer) :
    s.Moves (Session.giveUp g r s).2 := by
  unfold Session.giveUp
  split
  · dsimp only
    split
    · exact (h.teardown timedOutReason).1
    · exact h.refl
  · exact h.refl

theorem reloads_request (command : Command) (arguments : Fields) :
    Reloads (readyAnswers program) (request program command arguments) := by
  refine (reloads_ensureRunning program).bind fun _ => Retains.bind (fun s hs => hs.refl) fun t => ?_
  cases t.link.installed with
  | none => exact fun s hs => hs.refl
  | some g =>
    exact Retains.bind (fun s hs => (hs.send_stays program g command arguments).1.moves)
      fun r s hs => hs.giveUp g r

theorem reloads_children (key : String) (assembly : Option String) :
    Reloads (readyAnswers program) (children program key assembly) :=
  .traced (readyAnswers_trace program)
    ((reloads_request program _ _).bind fun _ => retains_ofExcept _) _ _ _

theorem reloads_decompile (key : String) (l : Language) (assembly : Option String) :
    Reloads (readyAnswers program) (decompile program key (some (.text l.name)) assembly) := by
  refine .traced (readyAnswers_trace program) (fun s hs => ?_) _ _ _
  have hlanguage : (Attempt.ofExcept (languageOf (some (.text l.name))) :
      Attempt (Session σ) Language).runFrom s = (.ok l, s) := by
    rw [languageOf_name, Attempt.runFrom_ofExcept]
  rw [Attempt.runFrom_bind_ok hlanguage]
  exact ((reloads_request program _ _).bind fun _ => retains_ofExcept _) s hs

theorem retains_stop : Retains (stop : Attempt (Session σ) Unit) := by
  intro s hs
  obtain ⟨trace, trace', hr⟩ := traced_run .stop [] noValue
    (fun s : Session σ => (.ok (), s.teardown "engine stopped")) s
  unfold stop
  rw [hr]
  have hdown := ((hs.of_trace trace).teardown "engine stopped").1
  exact ⟨hdown.sound.of_trace trace',
    ⟨hdown.ages.settings, hdown.ages.options, hdown.ages.log, hdown.ages.generation,
      hdown.ages.link⟩, hdown.loaded⟩

/-- A session that has loaded an assembly, or has failed to: if it has, the assembly is remembered
after all the others. -/
theorem load_sheds (path : String) (hs : s.Sound) :
    let r := (load program path).runFrom s
    ∃ t : Session σ, s.Sheds (s.generation + 1) (readyAnswers program s) t ∧ t.Ages r.2 ∧ r.2.Sound ∧
      match r.1 with
      | .ok _ => r.2.loadedAssemblies =
          if path ∈ t.loadedAssemblies then t.loadedAssemblies else t.loadedAssemblies ++ [path]
      | .error _ => r.2.loadedAssemblies = t.loadedAssemblies := by
  obtain ⟨trace, trace', hr⟩ := traced_run .load [Text.quoted path] Member.display (do
    let answer ← request program .load (loadArguments path)
    let m ← Attempt.ofExcept (loadResult path answer)
    modify (·.remember path m)
    return m) s
  unfold load
  rw [hr]
  have hrequest := reloads_request program .load (loadArguments path) { s with trace }
    (hs.of_trace trace)
  rw [readyAnswers_trace] at hrequest
  rw [Attempt.runFrom_bind]
  generalize (request program .load (loadArguments path)).runFrom { s with trace } = p at hrequest
  obtain ⟨r, t⟩ := p
  have hshed : s.Sheds (s.generation + 1) (readyAnswers program s) { t with trace := trace' } :=
    hrequest.of_trace s.trace trace'
  refine ⟨{ t with trace := trace' }, hshed, ?_⟩
  cases r with
  | error f => exact ⟨.refl _, hshed.sound, rfl⟩
  | ok answer =>
    dsimp only
    rw [Attempt.runFrom_bind, Attempt.runFrom_ofExcept]
    cases loadResult path answer with
    | error f => exact ⟨.refl _, hshed.sound, rfl⟩
    | ok m =>
      obtain ⟨hsound, hages⟩ := hshed.sound.mapLoaded (·.put path m)
      exact ⟨hages, hsound, OrderedMap.keys_put t.link.loaded path m⟩

end

end Session

end AssemblyBrowser
