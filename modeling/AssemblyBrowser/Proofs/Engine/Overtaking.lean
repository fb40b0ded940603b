import AssemblyBrowser.Proofs.Engine.Abiding
import AssemblyBrowser.Proofs.Engine.Roster
/-!
Requests that get in between the requests to load assemblies again. The caller that has started an
engine loads into it what is remembered, one assembly after another, and between two of these requests
the others go on. Main statement: what is written to an engine before an assembly has been loaded again is
of the caller that loads them, or it is the request of one that began after the engine had been started,
and found it running while assemblies were still being loaded; a caller that waits for the start waits
for all of them.
-/
namespace AssemblyBrowser

/-- The assemblies that an operation has still to ask a generation to load again. -/
inductive Phase.Reloads (op : Operation) (g : Nat) : List String → Phase → Prop
  | queued (path : String) (rest : List String) :
    Reloads op g (path :: rest) (.reloading op g path rest .queued)
  | waiting (path : String) (rest : List String) (id : Nat) :
    Reloads op g rest (.reloading op g path rest (.waiting id))

namespace Session

variable {σ : Type}

theorem Moves.later {s t u : Session σ} (h : t.Moves u) (hle : s.generation ≤ t.generation) :
    u.Sound ∧ s.generation ≤ u.generation :=
  ⟨h.sound, Nat.le_trans hle h.ages.generation⟩

/-- A session does not go back to an earlier generation. -/
theorem later_abiding (program : Program σ) (s : Session σ) :
    Abiding program fun t => t.Sound ∧ s.generation ≤ t.generation where
  trace h trace := ⟨h.1.of_trace trace, h.2⟩
  isRunning h := h.1.isRunning.1.later h.2
  teardown h reason := (h.1.teardown reason).1.later h.2
  launch h := (h.1.launch program).1.later h.2
  post h g command arguments := (h.1.post program g command arguments).1.moves.later h.2
  collect {t} h g id command := by
    simp only [Attempt.runFrom, ExceptT.run, Session.collect]
    split
    · exact h
    · exact (h.1.forget g id).later h.2
  loaded h f := ⟨(h.1.mapLoaded f).1, h.2⟩
  happen h g as := (h.1.happen g as).later h.2

/-- By itself a caller lays nothing down: a condition of what has passed lasts until it posts something. -/
theorem past_quiet (program : Program σ) (P : List Passage → Prop) :
    Quiet program.recorded fun t => P t.past where
  trace h _ := h
  isRunning {s} h := (s.isRunning_past).symm ▸ h
  teardown {s} h reason := (s.teardown_past reason).symm ▸ h
  launch {s} h := (launch_past program s).symm ▸ h
  collect {s} h g id command := by
    simp only [Attempt.runFrom, ExceptT.run, Session.collect]
    split
    · exact h
    · exact h
  loaded h _ := h

end Session

namespace Callers

variable {σ : Type} {program : Program σ} {c c' : Callers σ} {i j g : Nat} {op : Operation}
  {arguments : Fields} {patient : Bool}

/-! ## The life of the engine -/

/-- A caller that takes the life of the engine into its hands leaves the others where they are. -/
theorem Registered.takeLifecycle (h : c.Registered (some i)) (program : Program σ)
    (hl : c.lifecycle = none) (op : Operation) : Moves i c (c.takeLifecycle program i op) := by
  have htakes := h.takes hl
  have hmine : ∀ k ≠ i, ({ c with lifecycle := some i } : Callers σ).lifecycle ≠ some k :=
    fun k hk he => hk (Option.some.inj he).symm
  unfold Callers.takeLifecycle
  dsimp only
  split
  · have hteardown := htakes.trans
      (htakes.registered.withSession_free (h.upright.teardown "engine stopped") hmine)
    exact hteardown.moves (hteardown.registered.finish _ _)
  · have hlook := htakes.trans htakes.registered.isRunning
    split
    · exact hlook.moves (hlook.registered.afterLaunch op _)
    · have hlaunch := hlook.trans
        (hlook.registered.withSession_free (hlook.registered.upright.launch program) hmine)
      split
      · rename_i hr
        have hs := congrArg Prod.snd hr
        dsimp only at hs
        subst hs
        exact hlaunch.moves (hlaunch.registered.afterLaunch op _)
      · rename_i hr
        have hs := congrArg Prod.snd hr
        dsimp only at hs
        subst hs
        exact hlaunch.moves (hlaunch.registered.reloadNext rfl op _ _)

/-- Any step of a caller. -/
theorem Registered.moves (h : c.Registered none) (hstep : c.step? program patient i = some c') :
    Moves i c c' := by
  by_cases htakes : ∃ op, c.phase? i = some (.wanting op) ∧ c.lifecycle = none
  · obtain ⟨op, hp, hl⟩ := htakes
    simp only [step?, hp, hl, Option.isNone_none, if_true, Option.some.injEq] at hstep
    subst hstep
    exact (h.leave i).takeLifecycle program hl op
  · exact h.step program (fun op hp hl => htakes ⟨op, hp, hl⟩) hstep

theorem Registered.after (h : c.Registered none) (program : Program σ) (x : CallersStep) :
    (x.after program c).Registered none := by
  cases x with
  | step i patient =>
    simp only [CallersStep.after]
    cases hstep : c.step? program patient i with
    | none => exact h
    | some c' => exact (h.moves hstep).registered
  | _ => exact (h.lasts program _ fun _ _ _ hx => by cases hx).registered

/-- What happens moves no caller but the one that begins or whose step it is. -/
theorem Registered.phase_after (h : c.Registered none) (program : Program σ) (x : CallersStep)
    (j : Nat) : (x.after program c).phase? j = c.phase? j ∨
      (∃ op, (x.after program c).phase? j = some (.begun op)) ∨
      ∃ patient, x = .step j patient ∧ c.step? program patient j = some (x.after program c) := by
  cases x with
  | begin i op =>
    simp only [CallersStep.after]
    split
    · by_cases hj : j = i
      · subst hj
        exact .inr (.inl ⟨op, phase_goto c j _⟩)
      · exact .inl (phase_goto_ne hj c _)
    · exact .inl rfl
  | step i patient =>
    simp only [CallersStep.after]
    cases hstep : c.step? program patient i with
    | none => exact .inl rfl
    | some c' =>
      by_cases hj : j = i
      · subst hj
        exact .inr (.inr ⟨patient, rfl, hstep⟩)
      · exact .inl ((h.moves hstep).others j hj)
  | alone op =>
    simp only [CallersStep.after]
    split <;> exact .inl rfl
  | status => exact .inl rfl
  | unload path => exact .inl rfl
  | happen g a => exact .inl rfl

/-! ## Where a step leads -/

/-- A caller loads assemblies again into a generation, and has still to ask for these. -/
def Reloading (c : Callers σ) (i : Nat) (op : Operation) (g : Nat) (left : List String) : Prop :=
  ∃ p, c.phase? i = some p ∧ p.Reloads op g left

theorem phase_finish (c : Callers σ) (i : Nat) (op : Operation) (r : Except Failure Value) :
    (c.finish i op r).phase? i = some (.finished r) := by
  cases r <;> exact phase_goto _ i _

/-- Where an operation stands once its engine runs, or could not be made to: it is at its end, or about
to ask the engine that is there. -/
def Served (i : Nat) (op : Operation) (d : Callers σ) : Prop :=
  (∃ r, d.phase? i = some (.finished r)) ∨
    ∃ arguments g, d.phase? i = some (.requesting op arguments g .queued) ∧
      d.session.link.installed = some g

theorem served_finish (c : Callers σ) (i : Nat) (op : Operation) (r : Except Failure Value) :
    Served i op (c.finish i op r) := .inl ⟨r, phase_finish c i op r⟩

theorem served_ready (c : Callers σ) (i : Nat) (op : Operation) (command : Command)
    (arguments : Fields) : Served i op (c.ready i op command arguments) := by
  unfold Callers.ready
  dsimp only
  split
  · exact served_finish _ i op _
  · rename_i g hinstalled
    split
    · exact served_finish _ i op _
    · exact .inr ⟨arguments, g, phase_goto _ i _, hinstalled⟩

theorem served_afterLaunch (c : Callers σ) (i : Nat) (op : Operation) (r : Except Failure Unit) :
    Served i op (c.afterLaunch i op r) := by
  unfold Callers.afterLaunch
  split
  · cases r with
    | ok _ => exact served_ready c i op _ _
    | error f => exact served_finish _ i op _
  · exact served_finish c i op _

/-- The next assembly is to be loaded again, or there is none. -/
theorem reloadNext_leads (c : Callers σ) (i : Nat) (op : Operation) (g : Nat) (paths : List String) :
    Served i op (c.reloadNext i op g paths) ∨ (c.reloadNext i op g paths).Reloading i op g paths := by
  cases paths with
  | nil => exact .inl (served_afterLaunch c i op _)
  | cons path rest =>
    simp only [Callers.reloadNext]
    split
    · exact .inl (served_afterLaunch _ i op _)
    · exact .inr ⟨_, phase_goto c i _, .queued path rest⟩

theorem endReload_leads (c : Callers σ) (i : Nat) (op : Operation) (g : Nat) (path : String)
    (rest : List String) (r : Except Failure Answer) :
    Served i op (c.endReload i op g path rest r) ∨
      (c.endReload i op g path rest r).Reloading i op g rest := by
  unfold Callers.endReload
  dsimp only
  split
  · exact reloadNext_leads _ i op g rest
  · exact .inl (served_afterLaunch _ i op _)

/-- What is loaded again at first is loaded into an engine that has just been started. -/
theorem takeLifecycle_leads (hs : c.session.Sound) (program : Program σ) (i : Nat) (op : Operation) :
    Served i op (c.takeLifecycle program i op) ∨
      ∃ g paths, (c.takeLifecycle program i op).Reloading i op g paths ∧
        c.session.generation < g := by
  unfold Callers.takeLifecycle
  dsimp only
  split
  · exact .inl (served_finish _ i _ _)
  · split
    · exact .inl (served_afterLaunch _ i op _)
    · have hlook := hs.isRunning.1
      obtain ⟨-, hlaunch⟩ := hlook.sound.launch program
      split
      · exact .inl (served_afterLaunch _ i op _)
      · rename_i channel s hrun
        rw [hrun] at hlaunch
        obtain ⟨-, hgeneration, hnew⟩ := hlaunch
        refine (reloadNext_leads _ i op channel.generation _).imp id fun hreloads => ?_
        exact ⟨_, _, hreloads, hgeneration ▸ Nat.lt_of_le_of_lt hlook.ages.generation hnew⟩

theorem start_leads (c : Callers σ) (i : Nat) (op : Operation) :
    Served i op (c.start i op) ∨ (c.start i op).phase? i = some (.wanting op) := by
  unfold Callers.start
  dsimp only
  split
  · exact .inl (served_finish _ i op _)
  · split
    · split
      · exact .inl (served_finish _ i op _)
      · exact .inr (phase_goto _ i _)
    · exact .inr (phase_goto _ i _)
  · split
    · exact .inl (served_ready _ i op _ _)
    · exact .inr (phase_goto _ i _)

theorem Served.not_reloading (h : Served i op c) {op' : Operation} {left : List String} :
    ¬c.Reloading i op' g left := by
  rintro ⟨p, hp, hreloads⟩
  rcases h with ⟨r, hr⟩ | ⟨arguments, g', hr, -⟩
  · cases hp.symm.trans hr
    cases hreloads
  · cases hp.symm.trans hr
    cases hreloads

theorem Served.installed (h : Served i op c) {op' : Operation}
    (hp : c.phase? i = some (.requesting op' arguments g .queued)) :
    op' = op ∧ c.session.link.installed = some g := by
  rcases h with ⟨r, hr⟩ | ⟨arguments', g', hr, hinstalled⟩
  · cases hp.symm.trans hr
  · cases hp.symm.trans hr
    exact ⟨rfl, hinstalled⟩

theorem Reloading.not_requesting {left : List String} (h : c.Reloading i op g left)
    {op' : Operation} {g' : Nat} {stage : SendStage} :
    c.phase? i ≠ some (.requesting op' arguments g' stage) := by
  obtain ⟨p, hp, hreloads⟩ := h
  intro he
  cases hp.symm.trans he
  cases hreloads

theorem Reloading.reloads {left : List String} (h : c.Reloading i op g left) :
    Callers.reloads c i = true := by
  obtain ⟨p, hp, hreloads⟩ := h
  rw [Callers.reloads, hp]
  cases hreloads <;> rfl

/-- No two load assemblies again at a time. -/
theorem Reloading.unique {left : List String} (hi : c.Reloading i op g left)
    (h : c.Registered none) (hj : Callers.reloads c j = true) : i = j := by
  have hholder := h.holder i (by simp) hi.reloads
  exact Option.some.inj (hholder.symm.trans (h.holder j (by simp) hj))

theorem Reloading.same {left left' : List String} {op' : Operation} {g' : Nat}
    (h : c.Reloading i op g left) (h' : c.Reloading i op' g' left') :
    op' = op ∧ g' = g ∧ left' = left := by
  obtain ⟨p, hp, hreloads⟩ := h
  obtain ⟨p', hp', hreloads'⟩ := h'
  cases hp.symm.trans hp'
  cases hreloads <;> cases hreloads' <;> exact ⟨rfl, rfl, rfl⟩

/-- What a step of a caller can be. -/
inductive Turn (i : Nat) (c c' : Callers σ) : Prop
  | begins {op : Operation} (hp : c.phase? i = some (.begun op))
      (h : Served i op c' ∨ c'.phase? i = some (.wanting op))
  /-- It takes the life of the engine into its hands. -/
  | takes {op : Operation} (hl : c.lifecycle = none) (h : Served i op c' ∨
      ∃ g paths, c'.Reloading i op g paths ∧ c.session.generation < g)
  | reloads {op : Operation} {g : Nat} {before left : List String} (hp : c.Reloading i op g before)
      (hleft : left <:+ before) (h : Served i op c' ∨ c'.Reloading i op g left)
  /-- Its request is written, or has ended. -/
  | requests {p : Phase} (hp : c'.phase? i = some p) (hreloads : ∀ op g left, ¬p.Reloads op g left)
      (hqueued : ∀ op arguments g, p ≠ .requesting op arguments g .queued)

theorem turn_of_step (hs : c.session.Sound) (hstep : c.step? program patient i = some c') :
    Turn i c c' := by
  have hfinished : ∀ {d : Callers σ} {op r}, Turn i c (d.finish i op r) := fun {d op r} =>
    .requests (phase_finish d i op r) (fun _ _ _ h => by cases h) fun _ _ _ h => by cases h
  unfold step? at hstep
  split at hstep
  · cases hstep
  · cases hstep
  · rename_i op hp
    cases hstep
    exact .begins hp (start_leads c i op)
  · rename_i op hp
    split at hstep
    · rename_i hl
      cases hstep
      exact .takes (Option.isNone_iff_eq_none.mp hl) (takeLifecycle_leads hs program i op)
    · cases hstep
  · rename_i op g path rest hp
    have hbefore : c.Reloading i op g (path :: rest) := ⟨_, hp, .queued path rest⟩
    have hleft : rest <:+ path :: rest := List.suffix_cons path rest
    split at hstep
    · split at hstep
      · rename_i id d _
        cases hstep
        exact .reloads hbefore hleft (.inr ⟨_, phase_goto d i _, .waiting path rest id⟩)
      · rename_i f d _
        cases hstep
        exact .reloads hbefore hleft (endReload_leads d i op g path rest _)
    · cases hstep
  · rename_i op g path rest id hp
    have hbefore : c.Reloading i op g rest := ⟨_, hp, .waiting path rest id⟩
    split at hstep
    · cases hstep
    · cases hstep
      exact .reloads hbefore (List.suffix_refl rest) (endReload_leads _ i op g path rest _)
  · rename_i op arguments g hp
    split at hstep
    · split at hstep
      · cases hstep
        exact .requests (phase_goto _ i _) (fun _ _ _ h => by cases h) fun _ _ _ h => by cases h
      · cases hstep
        exact hfinished
    · cases hstep
  · rename_i op arguments g id hp
    split at hstep
    · cases hstep
    · cases hstep
      unfold endRequest
      split
      · exact .requests (phase_goto _ i _) (fun _ _ _ h => by cases h) fun _ _ _ h => by cases h
      · exact hfinished
      · exact hfinished
  · split at hstep
    · cases hstep
      exact hfinished
    · cases hstep

/-- A step goes on with the assemblies that were left, or begins with an engine that is new. -/
theorem Turn.reloading (h : Turn i c c') {left : List String} (hleft : c'.Reloading i op g left) :
    (∃ before, c.Reloading i op g before ∧ left <:+ before) ∨ c.session.generation < g := by
  cases h with
  | begins hp h =>
    rcases h with hserved | hwanting
    · exact absurd hleft hserved.not_reloading
    · obtain ⟨p, hp', hreloads⟩ := hleft
      cases hp'.symm.trans hwanting
      cases hreloads
  | takes hl h =>
    rcases h with hserved | ⟨g', paths, hreloads, hnew⟩
    · exact absurd hleft hserved.not_reloading
    · obtain ⟨-, rfl, -⟩ := hreloads.same hleft
      exact .inr hnew
  | reloads hp hsuffix h =>
    rcases h with hserved | hreloads
    · exact absurd hleft hserved.not_reloading
    · obtain ⟨rfl, rfl, rfl⟩ := hreloads.same hleft
      exact .inl ⟨_, hp, hsuffix⟩
  | requests hp hnot _ =>
    obtain ⟨p, hp', hreloads⟩ := hleft
    cases hp.symm.trans hp'
    exact absurd hreloads (hnot _ _ _)

/-- A caller is about to ask an engine only if that is there; it has found it there when it began, unless
it had the life of the engine in its hands. -/
theorem Turn.requesting (h : Turn i c c')
    (hp : c'.phase? i = some (.requesting op arguments g .queued)) :
    c'.session.link.installed = some g ∧
      (c.phase? i = some (.begun op) ∨ c.lifecycle = none ∨ c.reloads i = true) := by
  cases h with
  | begins hbegun h =>
    rcases h with hserved | hwanting
    · obtain ⟨rfl, hinstalled⟩ := hserved.installed hp
      exact ⟨hinstalled, .inl hbegun⟩
    · cases hp.symm.trans hwanting
  | takes hl h =>
    rcases h with hserved | ⟨g', paths, hreloads, -⟩
    · exact ⟨(hserved.installed hp).2, .inr (.inl hl)⟩
    · exact absurd hp hreloads.not_requesting
  | reloads hbefore _ h =>
    rcases h with hserved | hreloads
    · exact ⟨(hserved.installed hp).2, .inr (.inr hbefore.reloads)⟩
    · exact absurd hp hreloads.not_requesting
  | requests hp' _ hqueued =>
    cases hp.symm.trans hp'
    exact absurd rfl (hqueued op arguments g)

/-! ## Runs -/

/-- A caller that is about to ask a generation has found it, so it is not to come yet. -/
structure Dated (c : Callers σ) : Prop where
  registered : c.Registered none
  known : ∀ j op arguments g, c.phase? j = some (.requesting op arguments g .queued) →
    g ≤ c.session.generation

theorem generation_after (h : c.Registered none) (program : Program σ) (x : CallersStep) :
    c.session.generation ≤ (x.after program c).session.generation :=
  ((Session.later_abiding program c.session).after ⟨h.upright.sound, Nat.le_refl _⟩ x).2

theorem Dated.after (h : c.Dated) (program : Program σ) (x : CallersStep) :
    (x.after program c).Dated := by
  have hregistered := h.registered.after program x
  refine ⟨hregistered, fun j op arguments g hp => ?_⟩
  rcases h.registered.phase_after program x j with hsame | ⟨op', hbegun⟩ | ⟨patient, -, hstep⟩
  · exact Nat.le_trans (h.known j op arguments g (hsame.symm.trans hp))
      (generation_after h.registered program x)
  · cases hp.symm.trans hbegun
  · have hinstalled := ((turn_of_step h.registered.upright.sound hstep).requesting hp).1
    exact Nat.le_of_eq (hregistered.upright.sound.current g hinstalled)

theorem dated_following (h : c.Dated) (program : Program σ) (xs : List CallersStep) :
    (following program xs c).Dated := by
  induction xs generalizing c with
  | nil => exact h
  | cons x xs ih => exact ih (h.after program x)

/-- A caller that loads assemblies again has done so before, unless the step was its own. -/
theorem Reloading.before {x : CallersStep} {left : List String}
    (hleft : (x.after program c).Reloading i op g left) (h : c.Registered none) :
    c.Reloading i op g left ∨
      ∃ patient, x = .step i patient ∧ c.step? program patient i = some (x.after program c) := by
  obtain ⟨p, hp, hreloads⟩ := hleft
  rcases h.phase_after program x i with hsame | ⟨op', hbegun⟩ | hstep
  · exact .inl ⟨p, hsame.symm.trans hp, hreloads⟩
  · cases hp.symm.trans hbegun
    cases hreloads
  · exact .inr hstep

theorem Reloading.before_other {x : CallersStep} {left : List String}
    (hleft : (x.after program c).Reloading i op g left) (h : c.Registered none)
    (hother : ∀ patient, x ≠ .step i patient) : c.Reloading i op g left :=
  (hleft.before h).resolve_right fun ⟨patient, hx, _⟩ => hother patient hx

/-- What is loaded again into a generation that is not new has been left from before. -/
theorem Reloading.back {x : CallersStep} {left : List String}
    (hleft : (x.after program c).Reloading i op g left) (h : c.Registered none)
    (hg : g ≤ c.session.generation) : ∃ before, c.Reloading i op g before ∧ left <:+ before := by
  rcases hleft.before h with hbefore | ⟨patient, -, hstep⟩
  · exact ⟨left, hbefore, List.suffix_refl left⟩
  · refine ((turn_of_step h.upright.sound hstep).reloading hleft).resolve_right ?_
    exact Nat.not_lt.mpr hg

theorem following_concat (program : Program σ) (xs : List CallersStep) (x : CallersStep)
    (start : Callers σ) :
    following program (xs ++ [x]) start = x.after program (following program xs start) := by
  simp only [following, List.foldl_append, List.foldl_cons, List.foldl_nil]

theorem following_append (program : Program σ) (xs ys : List CallersStep) (start : Callers σ) :
    following program (xs ++ ys) start = following program ys (following program xs start) :=
  List.foldl_append

theorem Reloading.back_following {left : List String} (xs : List CallersStep)
    (hleft : (following program xs c).Reloading i op g left) (h : c.Registered none)
    (hg : g ≤ c.session.generation) : ∃ before, c.Reloading i op g before ∧ left <:+ before := by
  induction xs generalizing c with
  | nil => exact ⟨left, hleft, List.suffix_refl left⟩
  | cons x xs ih =>
    obtain ⟨between, hbetween, hsuffix⟩ := ih hleft (h.after program x)
      (Nat.le_trans hg (generation_after h program x))
    obtain ⟨before, hbefore, hsuffix'⟩ := hbetween.back h hg
    exact ⟨before, hbefore, hsuffix.trans hsuffix'⟩

/-- All along a run a caller loads assemblies again into a generation, and has still to ask for these. -/
def KeepsReloading (program : Program σ) (c : Callers σ) (i : Nat) (op : Operation) (g : Nat)
    (left : List String) (xs : List CallersStep) : Prop :=
  ∀ part, part <+: xs → ∃ more, (following program part c).Reloading i op g more ∧ left <:+ more

/-- A caller that is about to ask a generation into which another still loads assemblies has begun while
that was being done. By induction on the run, to its last step. -/
theorem Dated.newcomer {start : Callers σ} (h : start.Dated) (hstart : start.phase? j = none)
    (xs : List CallersStep) {op' : Operation} {left : List String}
    (hp : (following program xs start).phase? j = some (.requesting op arguments g .queued))
    (hleft : (following program xs start).Reloading i op' g left) :
    ∃ before patient between, xs = before ++ .step j patient :: between ∧
      (following program before start).phase? j = some (.begun op) ∧
      KeepsReloading program (following program before start) i op' g left
        (.step j patient :: between) := by
  induction xs using List.reverseRecOn generalizing left with
  | nil => cases hp.symm.trans hstart
  | append_singleton xs x ih =>
    have hdated := dated_following h program xs
    have hlast := hleft
    rw [following_concat] at hp hleft
    rcases hdated.registered.phase_after program x j with
      hsame | ⟨op'', hbegun⟩ | ⟨patient, rfl, hstep⟩
    · have hbefore := hsame.symm.trans hp
      obtain ⟨more, hmore, hsuffix⟩ := hleft.back hdated.registered (hdated.known _ _ _ _ hbefore)
      obtain ⟨before, patient, between, rfl, hbegun, hkeeps⟩ := ih hbefore hmore
      refine ⟨before, patient, between ++ [x], by simp, hbegun, fun part hpart => ?_⟩
      rw [← List.cons_append] at hpart
      rcases List.prefix_concat_iff.mp hpart with rfl | hpart
      · rw [← following_append, ← List.append_assoc]
        exact ⟨left, hlast, List.suffix_refl left⟩
      · obtain ⟨more', hmore', hsuffix'⟩ := hkeeps part hpart
        exact ⟨more', hmore', hsuffix.trans hsuffix'⟩
    · cases hp.symm.trans hbegun
    · have hj : i ≠ j := by
        rintro rfl
        exact hleft.not_requesting hp
      have hbefore := hleft.before_other hdated.registered fun _ he => hj (by cases he; rfl)
      have hturn := turn_of_step hdated.registered.upright.sound hstep
      rcases (hturn.requesting hp).2 with hbegun | hfree | hreloads
      · refine ⟨xs, patient, [], rfl, hbegun, fun part hpart => ?_⟩
        rcases List.prefix_cons_iff.mp hpart with rfl | ⟨rest, rfl, hrest⟩
        · exact ⟨left, hbefore, List.suffix_refl left⟩
        · rw [List.prefix_nil.mp hrest]
          exact ⟨left, hleft, List.suffix_refl left⟩
      · cases (hdated.registered.holder i (by simp) hbefore.reloads).symm.trans hfree
      · exact absurd (hbefore.unique hdated.registered hreloads) hj

/-! ## What is written -/

/-- In a run a line is written to a generation, at this place of the history, by a step of the caller,
which asks for this. -/
def WrittenBy (program : Program σ) (start : Callers σ) (xs : List CallersStep) (i : Nat)
    (x : Posting) (g k : Nat) : Prop :=
  ∃ earlier patient later line, xs = earlier ++ .step i patient :: later ∧
    ((following program earlier start).phase? i).bind Phase.posting? = some (g, x) ∧
    (history program earlier start).length ≤ k ∧
    (history program (earlier ++ [.step i patient]) start)[k]? = some (.wrote g line)

/-- A step that writes is that of a caller that asks for something, or of one that is alone. -/
theorem writer_of_witnessed {c : Callers (σ × List Passage)} {x : CallersStep} {k : Nat}
    {line : String} (hk : c.past.length ≤ k)
    (hline : (x.witnessed program c).past[k]? = some (.wrote g line)) :
    (∃ j patient y, x = .step j patient ∧ (c.phase? j).bind Phase.posting? = some (g, y)) ∨
      ∃ op, x = .alone op ∧ c.isBusy = false := by
  have hsame : (x.witnessed program c).past ≠ c.past := by
    intro he
    rw [he] at hline
    exact absurd (List.getElem?_eq_some_iff.mp hline).1 (Nat.not_lt.mpr hk)
  have hnew : ∀ more, (x.witnessed program c).past = c.past ++ more → .wrote g line ∈ more := by
    intro more he
    rw [he, List.getElem?_append_right hk] at hline
    exact List.mem_of_getElem? hline
  cases x with
  | begin i op =>
    refine absurd ?_ hsame
    simp only [CallersStep.witnessed, CallersStep.after]
    split <;> rfl
  | step i patient =>
    simp only [CallersStep.witnessed, CallersStep.after] at hsame hnew
    cases hstep : c.step? program.recorded patient i with
    | none =>
      rw [hstep] at hsame
      exact absurd rfl hsame
    | some c' =>
      rw [hstep, Option.getD_some] at hsame hnew
      cases hposting : (c.phase? i).bind Phase.posting? with
      | none =>
        have hquiet := Session.past_quiet program (· = c.past)
        exact absurd (hquiet.step rfl hstep hposting) hsame
      | some y =>
        have hquiet := Session.past_quiet program fun past => past = c.past ∨
          ∃ line, ∃ acts : List Act, past = c.past ++ .wrote y.1 line :: acts.map (.did y.1)
        obtain ⟨command, arguments, hpost⟩ := hquiet.step_posting hstep hposting
        rcases hpost ((c.session.post_past program y.1 command arguments).imp id And.right) with
          he | ⟨line', acts, he⟩
        · exact absurd he hsame
        · rcases List.mem_cons.mp (hnew _ he) with hwrote | hdid
          · cases hwrote
            exact .inl ⟨i, patient, y.2, rfl, hposting⟩
          · obtain ⟨a, -, ha⟩ := List.mem_map.mp hdid
            cases ha
  | alone op =>
    cases hbusy : c.isBusy with
    | false => exact .inr ⟨op, rfl, rfl⟩
    | true =>
      refine absurd ?_ hsame
      simp only [CallersStep.witnessed, CallersStep.after, hbusy, if_true]
  | status => exact absurd c.session.isRunning_past hsame
  | unload path => exact absurd rfl hsame
  | happen g' a =>
    rcases List.mem_singleton.mp (hnew [.did g' a] rfl) with ⟨⟩

section

variable {start : Callers σ} {xs : List CallersStep} {k k' : Nat}
  (hstart : (start.mapProgram (·, [])).Orderly none)
include hstart

theorem passage_stays {p : Passage} (hp : (history program xs start)[k]? = some p)
    (ys : List CallersStep) : (history program (xs ++ ys) start)[k]? = some p := by
  obtain ⟨more, hmore⟩ := hstart.history_prefix program xs ys
  rw [← hmore, List.getElem?_append_left (History.lt_length hp)]
  exact hp

/-- What passes in a run passes in one of its steps. -/
theorem step_of_passage {p : Passage} (hp : (history program xs start)[k]? = some p) :
    ∃ earlier x later, xs = earlier ++ x :: later ∧ (history program earlier start).length ≤ k ∧
      (history program (earlier ++ [x]) start)[k]? = some p := by
  induction xs using List.reverseRecOn with
  | nil => cases hp
  | append_singleton xs x ih =>
    by_cases hk : (history program xs start).length ≤ k
    · exact ⟨xs, x, [], rfl, hk, hp⟩
    · have hlt := Nat.not_le.mp hk
      have hkept := passage_stays hstart (List.getElem?_eq_getElem hlt) [x]
      have hbefore : (history program xs start)[k]? = some p :=
        (List.getElem?_eq_getElem hlt).trans (hkept.symm.trans hp)
      obtain ⟨earlier, y, later, rfl, hfrom, hline⟩ := ih hbefore
      exact ⟨earlier, y, later ++ [x], by simp, hfrom, hline⟩

/-- Where a line is written to a generation, that is there. -/
theorem generation_of_wrote {line : String}
    (hline : (history program xs start)[k]? = some (.wrote g line)) :
    g ≤ (following program xs start).session.generation := by
  have hknown := (hstart.witnessing program xs).faithful.generation_of_wrote
    (List.mem_of_getElem? hline)
  rw [← witnessing_mapProgram]
  exact hknown

/-- What stands behind a passage in the history is written in the same step or in a later one. -/
theorem WrittenBy.comes_later {x : CallersStep} {y : Posting} {earlier later : List CallersStep}
    (h : WrittenBy program start (earlier ++ x :: later) i y g k')
    (hfrom : (history program earlier start).length ≤ k) (hk : k < k') :
    (∃ patient, x = .step i patient ∧
      ((following program earlier start).phase? i).bind Phase.posting? = some (g, y)) ∨
    ∃ middle patient behind, later = middle ++ .step i patient :: behind ∧
      ((following program (earlier ++ x :: middle) start).phase? i).bind Phase.posting? =
        some (g, y) := by
  obtain ⟨earlier', patient, later', line, hxs, hposting, -, hline⟩ := h
  rcases List.append_eq_append_iff.mp hxs with ⟨middle, rfl, hrest⟩ | ⟨middle, rfl, hrest⟩
  · cases middle with
    | nil =>
      cases hrest
      exact .inl ⟨patient, rfl, by simpa using hposting⟩
    | cons _ middle =>
      cases hrest
      exact .inr ⟨middle, patient, later', rfl, hposting⟩
  · cases middle with
    | nil =>
      cases hrest
      exact .inl ⟨patient, rfl, by simpa using hposting⟩
    | cons _ middle =>
      -- then it would stand in front
      cases hrest
      have hgrows := hstart.history_prefix program (earlier' ++ [.step i patient]) middle
      rw [List.append_assoc, List.singleton_append] at hgrows
      have hlt := (List.getElem?_eq_some_iff.mp hline).1
      have hle := hgrows.length_le
      omega

/-- The request of a caller is one that it began while another loaded assemblies again into the
generation; from then on, up to the place where it is written, this assembly was left. -/
def BegunMeanwhile (program : Program σ) (start : Callers σ) (xs : List CallersStep) (j : Nat)
    (op : Operation) (k i : Nat) (op' : Operation) (g : Nat) (path : String) : Prop :=
  ∃ before beginning between writing later,
    xs = before ++ .step j beginning :: between ++ .step j writing :: later ∧
    (history program (before ++ .step j beginning :: between) start).length ≤ k ∧
    (following program before start).phase? j = some (.begun op) ∧
    ∀ part, part <+: .step j beginning :: between → ∃ left,
      (following program (before ++ part) start).Reloading i op' g left ∧ path ∈ left

/-- A request that is written before an assembly is loaded again has been begun meanwhile. -/
theorem WrittenBy.begun_meanwhile (hdated : start.Dated) (hnew : start.phase? j = none)
    {op' : Operation} {path : String} (h : WrittenBy program start xs j (.request op) g k)
    (h' : WrittenBy program start xs i (.reload op' path) g k') (hk : k < k') :
    BegunMeanwhile program start xs j op k i op' g path := by
  obtain ⟨earlier, writing, later, line, rfl, hrequesting, hfrom, -⟩ := h
  rcases h'.comes_later hstart hfrom hk with ⟨patient, hstep, hreloading⟩ |
    ⟨middle, patient, behind, rfl, hreloading⟩
  · cases hstep
    cases hrequesting.symm.trans hreloading
  obtain ⟨arguments, hrequesting⟩ := requesting_of_posting hrequesting
  obtain ⟨rest, hleft⟩ := reloading_of_posting hreloading
  have hleft : Reloading _ i op' g (path :: rest) := ⟨_, hleft, .queued path rest⟩
  have hthen := dated_following hdated program earlier
  rw [following_append] at hleft
  obtain ⟨more, hmore, hsuffix⟩ := hleft.back_following _ hthen.registered
    (hthen.known _ _ _ _ hrequesting)
  obtain ⟨before, beginning, between, rfl, hbegun, hkeeps⟩ :=
    hdated.newcomer hnew earlier hrequesting hmore
  refine ⟨before, beginning, between, writing, middle ++ .step i patient :: behind, by simp, hfrom,
    hbegun, fun part hpart => ?_⟩
  obtain ⟨left, hpart, hsuffix'⟩ := hkeeps part hpart
  rw [following_append]
  exact ⟨left, hpart, (hsuffix.trans hsuffix').subset List.mem_cons_self⟩

/-- Where another writes to a generation before an assembly is loaded again into it, the caller that does
so is already loading them again. -/
theorem WrittenBy.still_reloading (hdated : start.Dated) {x : CallersStep}
    {earlier later : List CallersStep} {op' : Operation} {path line : String}
    (h : WrittenBy program start (earlier ++ x :: later) i (.reload op' path) g k')
    (hfrom : (history program earlier start).length ≤ k)
    (hline : (history program (earlier ++ [x]) start)[k]? = some (.wrote g line)) (hk : k < k')
    (hother : ∀ patient, x ≠ .step i patient) :
    ∃ left, (following program earlier start).Reloading i op' g left := by
  rcases h.comes_later hstart hfrom hk with ⟨patient, hstep, -⟩ | ⟨middle, -, -, -, hposting⟩
  · exact absurd hstep (hother patient)
  obtain ⟨rest, hleft⟩ := reloading_of_posting hposting
  have hleft : Reloading _ i op' g (path :: rest) := ⟨_, hleft, .queued path rest⟩
  rw [← List.singleton_append, ← List.append_assoc, following_append] at hleft
  -- the generation is there when the line has been written
  obtain ⟨left, hleft, -⟩ := hleft.back_following _
    (dated_following hdated program (earlier ++ [x])).registered (generation_of_wrote hstart hline)
  rw [following_concat] at hleft
  exact ⟨left, hleft.before_other (dated_following hdated program earlier).registered hother⟩

end

/-- In any run, what is written to a generation before an assembly is loaded again into it is written by
the caller that loads the assemblies again; or it is the request of another, who began when they were
being loaded into this generation, and from then on, up to the request, this one was left. -/
theorem overtakes_only_if_begun_meanwhile (program : Program σ) (settings : EngineSettings)
    (locator : Option Locator) (environment : OrderedMap String String) (w : σ) (traced : Bool)
    (xs : List CallersStep) {i g k k' : Nat} {op' : Operation} {path line : String} :
    let start := fresh settings locator environment w traced
    (history program xs start)[k]? = some (.wrote g line) →
      WrittenBy program start xs i (.reload op' path) g k' → k < k' →
      (∃ op path', WrittenBy program start xs i (.reload op path') g k) ∨
        ∃ j op, WrittenBy program start xs j (.request op) g k ∧
          BegunMeanwhile program start xs j op k i op' g path := by
  intro start hline hreload hk
  have hstart := orderly_fresh settings locator environment w traced
  have hdated : start.Dated :=
    ⟨registered_fresh settings locator environment w traced, fun _ _ _ _ hp => by cases hp⟩
  obtain ⟨earlier, x, later, rfl, hfrom, hnew⟩ := step_of_passage hstart hline
  have hregistered := (dated_following hdated program earlier).registered
  have hwriter := hnew
  rw [history, witnessing_concat] at hwriter
  rcases writer_of_witnessed hfrom hwriter with ⟨j, patient, y, rfl, hposting⟩ | ⟨op, rfl, hbusy⟩
  · rw [← phase_following] at hposting
    have hwritten : WrittenBy program start (earlier ++ .step j patient :: later) j y g k :=
      ⟨earlier, patient, later, line, rfl, hposting, hfrom, hnew⟩
    cases y with
    | request op =>
      exact .inr ⟨j, op, hwritten, hwritten.begun_meanwhile hstart hdated rfl hreload hk⟩
    | reload op path' =>
      by_cases hj : j = i
      · subst hj
        exact .inl ⟨op, path', hwritten⟩
      obtain ⟨rest, hmine⟩ := reloading_of_posting hposting
      have hmine : Reloading _ j op g (path' :: rest) := ⟨_, hmine, .queued path' rest⟩
      obtain ⟨left, hleft⟩ := hreload.still_reloading hstart hdated hfrom hnew hk
        fun _ he => hj (by cases he; rfl)
      exact absurd (hmine.unique hregistered hleft.reloads) hj
  · -- nobody loads assemblies again while one caller is alone
    obtain ⟨left, p, hp, hreloads⟩ := hreload.still_reloading hstart hdated hfrom hnew hk
      fun _ he => by cases he
    rw [phase_following] at hp
    obtain ⟨r, rfl⟩ := finished_of_not_isBusy hbusy hp
    cases hreloads

/-! ## A member of an assembly that is still to be loaded -/

/-- A restart has asked the new engine for the first of two assemblies, and has been answered. -/
def reloadBegun : List CallersStep :=
  [.alone (.load "a.dll"),
    .begin 1 (.load "b.dll"), .step 1 true, .step 1 true, .happen 1 (.print (loadAnswer "2" "m")),
    .step 1 true,
    .begin 1 .restart, .step 1 true, .step 1 true, .step 1 true]

/-- Another caller asks for a member of the second one, and is first when its turn comes. -/
def overtaking : List CallersStep :=
  reloadBegun ++ [.begin 2 (.children "m" none), .step 2 true, .step 1 true]

/-- It is told that there is no such member. -/
def refused : List CallersStep :=
  [.happen 2 (.print ("\x7b\"id\":2,\"success\":false,\"error\":" ++
      "\x7b\"code\":\"NoSuchMember\",\"message\":\"m\"\x7d\x7d")), .step 2 true]

/-- Then the second assembly is asked for. -/
def overtaken : List CallersStep := overtaking ++ [.step 2 true] ++ refused

theorem overtaking_asks :
    ((following parroting overtaking patientCallers).phase? 2).bind Phase.posting? =
      some (2, .request (.children "m" none)) := by
  decide +kernel

theorem overtaken_asks :
    ((following parroting overtaken patientCallers).phase? 1).bind Phase.posting? =
      some (2, .reload .restart "b.dll") := by
  decide +kernel

theorem overtaking_writes :
    (history parroting overtaking patientCallers).length = 7 ∧
    (history parroting (overtaking ++ [.step 2 true]) patientCallers)[7]? =
      some (.wrote 2 (Request.encode ⟨2, .enumerate, Session.memberArguments "m" none⟩)) := by
  decide +kernel

theorem overtaken_writes :
    (history parroting overtaken patientCallers).length = 10 ∧
    (history parroting (overtaken ++ [.step 1 true]) patientCallers)[10]? =
      some (.wrote 2 (Request.encode ⟨3, .load, Session.loadArguments "b.dll"⟩)) := by
  decide +kernel

/-- The request for a member of an assembly is written before the assembly is loaded again. -/
theorem overtakes_in_overtaken :
    let xs := overtaken ++ [.step 1 true]
    let line := Request.encode ⟨2, .enumerate, Session.memberArguments "m" none⟩
    (history parroting xs patientCallers)[7]? = some (.wrote 2 line) ∧
    WrittenBy parroting patientCallers xs 2 (.request (.children "m" none)) 2 7 ∧
    WrittenBy parroting patientCallers xs 1 (.reload .restart "b.dll") 2 10 ∧
    ((∃ op path, WrittenBy parroting patientCallers xs 1 (.reload op path) 2 7) ∨
      ∃ j op, WrittenBy parroting patientCallers xs j (.request op) 2 7 ∧
        BegunMeanwhile parroting patientCallers xs j op 7 1 .restart 2 "b.dll") := by
  intro xs line
  have hxs : xs = overtaking ++ .step 2 true :: (refused ++ [.step 1 true]) := by
    simp only [xs, overtaken, List.append_assoc, List.cons_append, List.nil_append]
  have hrequest : WrittenBy parroting patientCallers xs 2 (.request (.children "m" none)) 2 7 :=
    ⟨overtaking, true, _, _, hxs, overtaking_asks, Nat.le_of_eq overtaking_writes.1,
      overtaking_writes.2⟩
  have hreload : WrittenBy parroting patientCallers xs 1 (.reload .restart "b.dll") 2 10 :=
    ⟨overtaken, true, [], _, rfl, overtaken_asks, Nat.le_of_eq overtaken_writes.1,
      overtaken_writes.2⟩
  have hstart : (patientCallers.mapProgram (·, [])).Orderly none :=
    orderly_fresh plainSettings none ∅ () false
  have hline : (history parroting xs patientCallers)[7]? = some (.wrote 2 line) :=
    passage_stays hstart (passage_stays hstart overtaking_writes.2 refused) [.step 1 true]
  exact ⟨hline, hrequest, hreload, overtakes_only_if_begun_meanwhile parroting plainSettings none ∅ ()
    false xs hline hreload (by decide)⟩

end Callers

end AssemblyBrowser
