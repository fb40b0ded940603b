import AssemblyBrowser.Proofs.Engine.Conduct
/-!
Children that outlive their supervisor's hold on them. A supervisor is meant to hold the only live
child and to leave none behind when it runs none. Main statement: a run keeps to this, at every
moment, exactly if none of its steps lets a child escape, and the ways in which a child can escape
are listed.

Of the children it is assumed only that killing one ends it.
-/
namespace AssemblyBrowser

/-- Killing a child ends it. -/
def Program.KillEnds {σ : Type} (program : Program σ) : Prop :=
  ∀ w temper printed, (program.launch w).1 = .started temper printed → temper.kill = .none

/-- A new child slips away after its first output: it lives, and it is neither held as a running one
nor killed. -/
def Child.Escapes (c : Child) (startupTimeout : Number) : Prop :=
  c.isAlive = true ∧
    match c.greeting with
    | none => c.reading = false ∨ startupTimeout.wait ≠ .ok ()
    | some line =>
      match Supervisor.greetingFault? line with
      | none => c.reading = false
      | some (.hugeInteger _) => True
      | some _ => False

namespace Supervisor

variable {σ ρ : Type}

section

variable (program : Program σ) (listener : Listener ρ)

/-! ## Ending the child that is held -/

/-- The child that is held lives and cannot even be told to terminate. -/
def Clings (s : Supervisor σ ρ) : Prop :=
  ∃ g c, s.held = some g ∧ s.child? g = some c ∧ c.isAlive = true ∧ c.temper.terminate = .refuses

/-- Every live child is the one that is held, and killing ends it. -/
structure Owned (s : Supervisor σ ρ) : Prop where
  killable : s.AllKillable
  live : ∀ g, s.IsLive g → s.held = some g
  ended : s.endedGeneration ≤ s.generation

theorem Owned.atMostOne {s : Supervisor σ ρ} (h : s.Owned) : s.AtMostOneLive :=
  fun g g' hg hg' => Option.some.inj ((h.live g hg).symm.trans (h.live g' hg'))

theorem NoneLive.owned {s : Supervisor σ ρ} (h : s.NoneLive) (hk : s.AllKillable)
    (he : s.endedGeneration ≤ s.generation) : s.Owned :=
  ⟨hk, fun g hg => absurd hg (h g), he⟩

theorem stop_noneLive {s : Supervisor σ ρ} (h : s.Owned) (hc : ¬s.Clings) :
    (s.stop listener).NoneLive := by
  intro g' hg'
  have hlive : s.IsLive g' := (stop_wanes listener s).live hg'
  have hheld := h.live g' hlive
  obtain ⟨c, hc', ha⟩ := hlive
  have ht : c.temper.terminate ≠ .refuses := fun ht => hc ⟨g', c, hheld, hc', ha, ht⟩
  have hstop : s.stop listener = s.letGo.shutDown listener g' c := by
    have hl : s.letGo.child? g' = some c := hc'
    simp only [letGo] at hl ⊢
    simp only [stop, hheld, hl, ha, if_true]
  rw [hstop] at hg'
  exact not_live_shutDown listener (s := s.letGo) h.killable ht hg'

/-- A child that cannot be told to terminate lives on. -/
theorem Clings.stop {s : Supervisor σ ρ} (h : s.Clings) : ∃ g, (s.stop listener).IsLive g := by
  obtain ⟨g, c, hheld, hc, ha, ht⟩ := h
  refine ⟨g, c, ?_, ha⟩
  have hl : s.letGo.child? g = some c := hc
  simp only [letGo] at hl
  simp only [Supervisor.stop, hheld, hl, ha, if_true, shutDown, ht]
  exact hc

/-! ## A new child -/

/-- A child comes to be and slips away. -/
def Slips (s : Supervisor σ ρ) : Prop :=
  ∃ t printed c, hatch? program s = some (t, printed) ∧
    (t.acts listener t.generation printed).child? t.generation = some c ∧
    c.Escapes s.options.startupTimeout

/-- The state in which the greeting of a new child is looked at, when no child lived before. -/
structure Newborn (t : Supervisor σ ρ) (g : Nat) (c : Child) : Prop where
  killable : t.AllKillable
  held : t.held = none
  youngest : g = t.generation
  child : t.child? g = some c
  only : ∀ g', t.IsLive g' → g' = g
  ended : t.endedGeneration ≤ t.generation
  reading : c.reading = true ↔ t.endedGeneration < g

theorem Newborn.noneLive {t : Supervisor σ ρ} {g : Nat} {c : Child} (h : Newborn t g c)
    (ha : ¬c.isAlive = true) : t.NoneLive := by
  intro g' hg'
  obtain rfl := h.only g' hg'
  obtain ⟨d, hd, hd'⟩ := hg'
  rw [h.child] at hd
  cases hd
  exact ha hd'

/-- A child that is held after its greeting runs as long as it lives and its output is read. -/
theorem Newborn.isRunning {t : Supervisor σ ρ} {g : Nat} {c : Child} (h : Newborn t g c) :
    ({ t with held := some g } : Supervisor σ ρ).isRunning = (c.reading && c.isAlive) := by
  have hc : ({ t with held := some g } : Supervisor σ ρ).child? g = some c := h.child
  have hg : ({ t with held := some g } : Supervisor σ ρ).generation = g := h.youngest.symm
  have hr : decide (t.endedGeneration ≠ g) = c.reading := by
    have h₁ := h.reading
    have h₂ := h.ended
    have h₃ := h.youngest
    cases hc : c.reading with
    | true =>
      have := h₁.mp hc
      exact decide_eq_true (by omega)
    | false =>
      have : ¬t.endedGeneration < g := fun hlt => Bool.noConfusion (hc.symm.trans (h₁.mpr hlt))
      exact decide_eq_false (by omega)
  simp only [Supervisor.isRunning, heldChild?, Option.bind_some, hc, hg, hr]

theorem Newborn.kill {t : Supervisor σ ρ} {g : Nat} {c : Child} (h : Newborn t g c) :
    (t.kill listener g).Owned ∧ (t.kill listener g).NoneLive := by
  have hw := kill_wanes listener t g
  have hnone : (t.kill listener g).NoneLive := fun g' hg' => by
    obtain rfl := h.only g' (hw.live hg')
    exact not_live_kill listener h.killable g' hg'
  have hended : (t.kill listener g).endedGeneration ≤ (t.kill listener g).generation := by
    have h₁ := hw.ended
    have h₂ := h.ended
    have h₃ := hw.generation
    omega
  exact ⟨hnone.owned (hw.killable h.killable) hended, hnone⟩

/-- A child that does not slip away is held and runs, or has ended. -/
theorem greet_owned {t : Supervisor σ ρ} {g : Nat} {c : Child} (h : Newborn t g c)
    (he : ¬c.Escapes t.options.startupTimeout) :
    (t.greet listener g c).2.Owned ∧
      ((∃ f, (t.greet listener g c).1 = .error f) ∨ (t.greet listener g c).2.isRunning = false →
        (t.greet listener g c).2.NoneLive) := by
  obtain ⟨hkilled, hkill⟩ := h.kill listener
  have hdead : ¬c.isAlive = true → t.Owned ∧ t.NoneLive := fun ha =>
    ⟨(h.noneLive ha).owned h.killable h.ended, h.noneLive ha⟩
  unfold Child.Escapes at he
  unfold greet
  cases hgr : c.greeting with
  | none =>
    simp only [hgr, not_and] at he ⊢
    cases hr : c.reading with
    | true =>
      simp only [if_true]
      cases hw : t.options.startupTimeout.wait with
      | error e =>
        obtain ⟨ho, hn⟩ := hdead fun ha => he ha (.inr (by simp [hw]))
        exact ⟨ho, fun _ => hn⟩
      | ok u => exact ⟨hkilled, fun _ => hkill⟩
    | false =>
      obtain ⟨ho, hn⟩ := hdead fun ha => he ha (.inl hr)
      exact ⟨ho, fun _ => hn⟩
  | some line =>
    simp only [hgr, not_and] at he ⊢
    cases hf : greetingFault? line with
    | none =>
      simp only [hf] at he ⊢
      refine ⟨⟨h.killable, fun g' hg' => congrArg some (h.only g' hg').symm, h.ended⟩, ?_⟩
      rintro (⟨f, hok⟩ | hi)
      · cases hok
      · refine h.noneLive fun ha => he ha ?_
        rw [h.isRunning, ha, Bool.and_true] at hi
        exact hi
    | some fault =>
      cases fault with
      | hugeInteger digits =>
        obtain ⟨ho, hn⟩ := hdead fun ha => he ha (by simp [hf])
        exact ⟨ho, fun _ => hn⟩
      | invalid e => exact ⟨hkilled, fun _ => hkill⟩
      | unexpected => exact ⟨hkilled, fun _ => hkill⟩

/-- A child that slips away lives while none counts as running. -/
theorem greet_escaped {t : Supervisor σ ρ} {g : Nat} {c : Child} (h : Newborn t g c)
    (he : c.Escapes t.options.startupTimeout) :
    (t.greet listener g c).2.isRunning = false ∧ (t.greet listener g c).2.IsLive g := by
  have hlive : t.IsLive g := ⟨c, h.child, he.1⟩
  have hidle := isRunning_of_held_none h.held
  obtain ⟨ha, he⟩ := he
  unfold greet
  cases hgr : c.greeting with
  | none =>
    simp only [hgr] at he ⊢
    cases hr : c.reading with
    | true =>
      simp only [if_true]
      cases hw : t.options.startupTimeout.wait with
      | error e => exact ⟨hidle, hlive⟩
      | ok u => simp_all
    | false => exact ⟨hidle, hlive⟩
  | some line =>
    simp only [hgr] at he ⊢
    cases hf : greetingFault? line with
    | none =>
      simp only [hf] at he ⊢
      exact ⟨by rw [h.isRunning, he, Bool.false_and], hlive⟩
    | some fault =>
      cases fault with
      | hugeInteger digits => exact ⟨hidle, hlive⟩
      | invalid e => simp [hf] at he
      | unexpected => simp [hf] at he

/-- No child lives, and none is held. -/
structure Idle (s : Supervisor σ ρ) : Prop where
  killable : s.AllKillable
  held : s.held = none
  noneLive : s.NoneLive
  ended : s.endedGeneration ≤ s.generation

theorem stop_idle {s : Supervisor σ ρ} (h : s.Owned) (hc : ¬s.Clings) :
    (s.stop listener).Idle := by
  have hw := stop_wanes listener s
  have hs : s.letGo.endedGeneration ≤ s.letGo.generation := h.ended
  have he := hw.ended
  have hg := hw.generation
  exact ⟨hw.killable h.killable, stop_held listener s, stop_noneLive listener h hc, by omega⟩

variable {program listener} in
theorem newborn_of_hatch {s t : Supervisor σ ρ} {printed : List Act} {c : Child}
    (hk : program.KillEnds) (hs : s.Idle) (h : hatch? program s = some (t, printed))
    (hc : (t.acts listener t.generation printed).child? t.generation = some c) :
    Newborn (t.acts listener t.generation printed) t.generation c := by
  have hh := hatched_of_hatch program h
  obtain ⟨c₀, hc₀, hnew, w, hw⟩ := hh.child
  have hturn := acts_turn listener t.generation printed t
  have hwane := hturn.wanes
  have hlt : t.endedGeneration < t.generation := by
    have := hs.ended
    rw [hh.ended, hh.generation]
    omega
  have hkill : t.AllKillable := fun g' c' hc' => by
    by_cases hne : g' = t.generation
    · subst hne
      rw [hc₀] at hc'
      cases hc'
      exact hk w _ printed hw
    · rw [hh.older g' hne] at hc'
      exact hs.killable g' c' hc'
  exact {
    killable := hwane.killable hkill
    held := hwane.held.trans (hh.held.trans hs.held)
    youngest := hwane.generation.symm
    child := hc
    only := fun g' hg' => hh.only program hs.noneLive (hwane.live hg')
    ended := by
      have he := hwane.ended
      have hg := hwane.generation
      omega
    reading := by
      constructor
      · intro hr
        rw [hturn.still c hc hr]
        exact hlt
      · intro hlt'
        cases hr : c.reading with
        | true => rfl
        | false =>
          rcases hturn.shut c₀ c hc₀ hc hr with hf | hle
          · exact Bool.noConfusion (hnew.reading.symm.trans hf)
          · omega }

theorem greet_live {t : Supervisor σ ρ} {g : Nat} {c : Child} {g' : Nat}
    (h : (t.greet listener g c).2.IsLive g') : t.IsLive g' := by
  have hkill := (kill_wanes listener t g).live (g := g')
  unfold greet at h
  split at h
  · split at h
    · split at h
      · exact h
      · exact hkill h
    · exact h
  · split at h
    · exact h
    · exact h
    · exact hkill h
    · exact hkill h

theorem hatch_options {s t : Supervisor σ ρ} {printed : List Act}
    (h : hatch? program s = some (t, printed)) :
    (t.acts listener t.generation printed).options = s.options :=
  (acts_turn listener t.generation printed t).frame.options.trans
    (hatched_of_hatch program h).options

variable {program listener} in
theorem spawn_owned {s : Supervisor σ ρ} (hk : program.KillEnds) (hs : s.Idle)
    (h : ¬s.Slips program listener) :
    (s.spawn program listener).2.Owned ∧
      ((∃ f, (s.spawn program listener).1 = .error f) ∨
        (s.spawn program listener).2.isRunning = false →
          (s.spawn program listener).2.NoneLive) := by
  cases hh : hatch? program s with
  | none =>
    obtain ⟨-, hc, he, hheld⟩ := spawn_of_hatch_none program listener hh
    have hw : Wanes s (s.spawn program listener).2 := .of_children hheld hc he
    have hn : (s.spawn program listener).2.NoneLive := fun g hg => hs.noneLive g (hw.live hg)
    refine ⟨hn.owned (hw.killable hs.killable) ?_, fun _ => hn⟩
    rw [he, hw.generation]
    exact hs.ended
  | some p =>
    obtain ⟨t, printed⟩ := p
    obtain ⟨c, hc, hspawn⟩ := spawn_of_hatch program listener hh
    have ho := hatch_options program listener hh
    rw [hspawn]
    exact greet_owned listener (newborn_of_hatch hk hs hh hc)
      (fun he => h ⟨t, printed, c, hh, hc, ho ▸ he⟩)

variable {program listener} in
theorem Slips.spawn {s : Supervisor σ ρ} (hk : program.KillEnds) (hs : s.Idle)
    (h : s.Slips program listener) :
    (s.spawn program listener).2.isRunning = false ∧
      ∃ g, (s.spawn program listener).2.IsLive g := by
  obtain ⟨t, printed, c, hh, hc, he⟩ := h
  obtain ⟨c', hc', hspawn⟩ := spawn_of_hatch program listener hh
  rw [hc] at hc'
  cases hc'
  have ho := hatch_options program listener hh
  rw [hspawn]
  obtain ⟨hi, hl⟩ := greet_escaped listener (newborn_of_hatch hk hs hh hc) (ho.symm ▸ he)
  exact ⟨hi, _, hl⟩

variable {program listener} in
theorem spawnMoments_atMostOne {s : Supervisor σ ρ} (hk : program.KillEnds) (hs : s.Idle) :
    ∀ t ∈ spawnMoments program listener s, t.AtMostOneLive := by
  intro t hm
  unfold spawnMoments at hm
  split at hm
  · rename_i hh
    obtain ⟨-, hc, he, hheld⟩ := spawn_of_hatch_none program listener hh
    have hw : Wanes s (s.spawn program listener).2 := .of_children hheld hc he
    simp only [List.mem_cons, List.not_mem_nil, or_false] at hm
    rcases hm with rfl | rfl
    · exact hs.noneLive.atMostOne
    · exact hw.atMostOne hs.noneLive.atMostOne
  · rename_i u printed hh
    obtain ⟨c, hc, hspawn⟩ := spawn_of_hatch program listener hh
    have honly := (newborn_of_hatch hk hs hh hc).only
    rcases List.mem_append.mp hm with hm | hm
    · rcases List.mem_cons.mp hm with rfl | hm
      · exact hs.noneLive.atMostOne
      · have hu : ∀ g, u.IsLive g → g = u.generation :=
          fun g => (hatched_of_hatch program hh).only program hs.noneLive
        have hw := (actMoments_turn listener u.generation printed u t hm).wanes
        exact fun g g' hg hg' => (hu g (hw.live hg)).trans (hu g' (hw.live hg')).symm
    · obtain rfl := List.mem_singleton.mp hm
      rw [hspawn]
      exact fun g g' hg hg' =>
        (honly g (greet_live listener hg)).trans (honly g' (greet_live listener hg')).symm

/-- Looking at the greeting of a child does not touch the others. -/
theorem greet_older {t : Supervisor σ ρ} {g : Nat} {c : Child} {g' : Nat} (hne : g' ≠ g)
    (hl : t.IsLive g') : (t.greet listener g c).2.IsLive g' := by
  have hkill : (t.kill listener g).IsLive g' := by
    obtain ⟨d, hd, ha⟩ := hl
    refine ⟨d, ?_, ha⟩
    unfold kill
    split
    · exact hd
    · rename_i c' _
      cases c'.temper.kill with
      | none => exact ((act_turn listener g _ _).others g' hne).trans hd
      | ignores => exact hd
      | refuses => exact hd
  unfold greet
  split
  · split
    · split
      · exact hl
      · exact hkill
    · exact hl
  · split
    · exact hl
    · exact hl
    · exact hkill
    · exact hkill

theorem greet_held {t : Supervisor σ ρ} {g : Nat} {c : Child} (h : t.held = none) :
    (t.greet listener g c).2.held = none ∨ (t.greet listener g c).2.held = some g := by
  have hkill := (kill_wanes listener t g).held
  unfold greet
  split
  · split
    · split
      · exact .inl h
      · exact .inl (hkill.trans h)
    · exact .inl h
  · split
    · exact .inr rfl
    · exact .inl h
    · exact .inl (hkill.trans h)
    · exact .inl (hkill.trans h)

/-- An older child that lives when another is started outlives it, or is one of two. -/
theorem spawn_beside {s : Supervisor σ ρ} {g : Nat} (hheld : s.held = none) (hg : s.IsLive g) :
    (s.spawn program listener).2.IsLive g ∧
      ((s.spawn program listener).2.AtMostOneLive →
        (s.spawn program listener).2.isRunning = false) := by
  cases hh : hatch? program s with
  | none =>
    obtain ⟨-, hc, -, hheld'⟩ := spawn_of_hatch_none program listener hh
    obtain ⟨c, hgc, ha⟩ := hg
    exact ⟨⟨c, (child?_congr hc g).trans hgc, ha⟩,
      fun _ => isRunning_of_held_none (hheld'.trans hheld)⟩
  | some p =>
    obtain ⟨t, printed⟩ := p
    obtain ⟨c, -, hspawn⟩ := spawn_of_hatch program listener hh
    have hold := hatched_of_hatch program hh
    have hturn := acts_turn listener t.generation printed t
    have hne : g ≠ t.generation := by
      obtain ⟨c', hc', -⟩ := hg
      have := (child?_le hc').2
      rw [hold.generation]
      omega
    have hl : (t.acts listener t.generation printed).IsLive g := by
      obtain ⟨c', hc', ha⟩ := hg
      exact ⟨c', (hturn.others g hne).trans ((hold.older g hne).trans hc'), ha⟩
    rw [hspawn]
    have hlive := greet_older listener (c := c) hne hl
    refine ⟨hlive, fun hone => ?_⟩
    rcases greet_held listener (g := t.generation) (c := c)
        (hturn.frame.held.trans (hold.held.trans hheld)) with hn | hs
    · exact isRunning_of_held_none hn
    · rw [Bool.eq_false_iff]
      intro hrun
      simp only [isRunning, heldChild?, hs, Option.bind_some] at hrun
      split at hrun
      · cases hrun
      · rename_i d hd
        simp only [Bool.and_eq_true] at hrun
        exact hne (hone g t.generation hlive ⟨d, hd, hrun.2⟩)

/-! ## Steps -/

/-- A step lets a child escape: it is to end a child that clings, or a child that it starts slips
away. -/
def Strays (x : HandleStep) (s : Supervisor σ ρ) : Prop :=
  match x with
  | .start => s.isRunning = false ∧ (s.Clings ∨ (s.stop listener).Slips program listener)
  | .restart => s.Clings ∨ (s.stop listener).Slips program listener
  | .stop => s.Clings
  | .send .. | .happen .. => False

/-- At every moment of a step at most one child lives, and none does when the step is one about the
life of the child and has failed or left no child running. -/
structure Guarded (x : HandleStep) (s : Supervisor σ ρ) : Prop where
  atMostOne : ∀ t ∈ x.moments program listener s, t.AtMostOneLive
  noneLive : x.IsLifecycle → x.LeavesIdle program listener s → (x.after program listener s).NoneLive

/-- A condition holds of each step of a run in the state in which the step is made. -/
def Along (P : HandleStep → Supervisor σ ρ → Prop) : List HandleStep → Supervisor σ ρ → Prop
  | [], _ => True
  | x :: xs, s => P x s ∧ Along P xs (x.after program listener s)

theorem replace_guarded {s : Supervisor σ ρ} (hk : program.KillEnds) (ho : s.Owned)
    (h : ¬(s.Clings ∨ (s.stop listener).Slips program listener)) :
    (∀ t ∈ stopMoments listener s ++ spawnMoments program listener (s.stop listener),
        t.AtMostOneLive) ∧
      ((s.stop listener).spawn program listener).2.Owned ∧
      ((∃ f, ((s.stop listener).spawn program listener).1 = .error f) ∨
        ((s.stop listener).spawn program listener).2.isRunning = false →
          ((s.stop listener).spawn program listener).2.NoneLive) := by
  obtain ⟨hc, hs⟩ := not_or.mp h
  have hi := stop_idle listener ho hc
  refine ⟨fun t hm => ?_, spawn_owned hk hi hs⟩
  rcases List.mem_append.mp hm with hm | hm
  · exact (stopMoments_wanes listener s t hm).atMostOne ho.atMostOne
  · exact spawnMoments_atMostOne hk hi t hm

theorem replace_strays {s : Supervisor σ ρ} (hk : program.KillEnds) (ho : s.Owned)
    (h : s.Clings ∨ (s.stop listener).Slips program listener)
    (hone : ((s.stop listener).spawn program listener).2.AtMostOneLive) :
    ((s.stop listener).spawn program listener).2.isRunning = false ∧
      ¬((s.stop listener).spawn program listener).2.NoneLive := by
  by_cases hc : s.Clings
  · obtain ⟨g, hg⟩ := hc.stop listener
    obtain ⟨hl, hr⟩ := spawn_beside program listener (stop_held listener s) hg
    exact ⟨hr hone, fun hn => hn g hl⟩
  · obtain ⟨hr, g, hl⟩ := (h.resolve_left hc).spawn hk (stop_idle listener ho hc)
    exact ⟨hr, fun hn => hn g hl⟩

theorem act_guarded {s t : Supervisor σ ρ} (ho : s.Owned) {g : Nat} {as : List Act}
    (hs : Wanes s t) : ∀ u ∈ actMoments listener g as t, u.Owned := by
  intro u hm
  have hw := hs.trans (actMoments_turn listener g as t u hm).wanes
  have he := hw.ended
  have hg := hw.generation
  have ho' := ho.ended
  exact ⟨hw.killable ho.killable, fun g' hg' => hw.held.trans (ho.live g' (hw.live hg')), by omega⟩

/-- A step that takes another child in place of the one that is held. -/
structure Replaces (x : HandleStep) (s : Supervisor σ ρ) : Prop where
  moments : x.moments program listener s =
    stopMoments listener s ++ spawnMoments program listener (s.stop listener)
  run : (x.run program listener).runFrom s =
    (((s.stop listener).spawn program listener).1.map fun _ => (),
      ((s.stop listener).spawn program listener).2)

variable {program listener}

theorem replaces_start {s : Supervisor σ ρ} (h : s.isRunning = false) :
    Replaces program listener .start s where
  moments := by simp [HandleStep.moments, h]
  run := by simp [run_start, h]

theorem replaces_restart (s : Supervisor σ ρ) :
    Replaces program listener .restart s where
  moments := rfl
  run := run_restart program listener s

theorem Replaces.guarded {s : Supervisor σ ρ} {x : HandleStep}
    (hx : Replaces program listener x s) (hk : program.KillEnds)
    (ho : s.Owned) (h : ¬(s.Clings ∨ (s.stop listener).Slips program listener)) :
    Guarded program listener x s ∧ (x.after program listener s).Owned := by
  obtain ⟨hm, ho', hn⟩ := replace_guarded program listener hk ho h
  have ha : x.after program listener s = ((s.stop listener).spawn program listener).2 := by
    rw [HandleStep.after, hx.run]
  refine ⟨⟨fun t ht => hm t (hx.moments ▸ ht), fun _ hi => ?_⟩, ha ▸ ho'⟩
  rw [ha]
  refine hn ?_
  rcases hi with ⟨f, hf⟩ | hi
  · rw [hx.run] at hf
    cases hr : ((s.stop listener).spawn program listener).1 with
    | error e => exact .inl ⟨e, rfl⟩
    | ok n => simp [hr, Except.map] at hf
  · exact .inr (ha ▸ hi)

theorem Replaces.not_guarded {s : Supervisor σ ρ} {x : HandleStep}
    (hx : Replaces program listener x s) (hl : x.IsLifecycle)
    (hk : program.KillEnds) (ho : s.Owned)
    (h : s.Clings ∨ (s.stop listener).Slips program listener) :
    ¬Guarded program listener x s := by
  intro hg
  have hone := hg.atMostOne _ (List.mem_of_getLast? (getLast?_moments program listener x s))
  have ha : x.after program listener s = ((s.stop listener).spawn program listener).2 := by
    rw [HandleStep.after, hx.run]
  rw [ha] at hone
  obtain ⟨hr, hn⟩ := replace_strays program listener hk ho h hone
  have hnone := hg.noneLive hl (.inr (ha ▸ hr))
  exact hn (ha ▸ hnone)

/-- From a state in which every live child is held, a step is guarded if it lets no child escape,
and then the state after it is such a state again. -/
theorem guarded_of_not_strays (hk : program.KillEnds) {s : Supervisor σ ρ} (ho : s.Owned)
    {x : HandleStep} (h : ¬Strays program listener x s) :
    Guarded program listener x s ∧ (x.after program listener s).Owned := by
  have hlast := List.mem_of_getLast? (getLast?_moments program listener x s)
  cases x with
  | start =>
    cases hr : s.isRunning with
    | true =>
      have hrun : (HandleStep.start.run program listener).runFrom s = (.ok (), s) := by
        rw [run_start, if_pos hr]
      have ha : HandleStep.start.after program listener s = s := by rw [HandleStep.after, hrun]
      refine ⟨⟨fun t hm => ?_, fun _ hi => ?_⟩, ha.symm ▸ ho⟩
      · simp only [HandleStep.moments, hr, if_true, List.mem_singleton] at hm
        exact hm ▸ ho.atMostOne
      · rcases hi with ⟨f, hf⟩ | hi
        · rw [hrun] at hf
          cases hf
        · rw [ha, hr] at hi
          cases hi
    | false => exact (replaces_start hr).guarded hk ho fun hs => h ⟨hr, hs⟩
  | restart => exact (replaces_restart s).guarded hk ho h
  | stop =>
    have hi := stop_idle listener ho h
    exact ⟨⟨fun t hm => (stopMoments_wanes listener s t hm).atMostOne ho.atMostOne,
      fun _ _ => hi.noneLive⟩, hi.noneLive.owned hi.killable hi.ended⟩
  | send g line =>
    have hall : ∀ t ∈ (HandleStep.send g line).moments program listener s, t.Owned := by
      intro t hm
      simp only [HandleStep.moments] at hm
      split at hm
      · obtain rfl := List.mem_singleton.mp hm
        exact ho
      · refine act_guarded listener ho ?_ t hm
        exact .of_children rfl rfl rfl
    exact ⟨⟨fun t hm => (hall t hm).atMostOne, False.elim⟩, hall _ hlast⟩
  | happen g a =>
    have hall : ∀ t ∈ actMoments listener g [a] s, t.Owned := act_guarded listener ho (.refl s)
    exact ⟨⟨fun t hm => (hall t hm).atMostOne, False.elim⟩, hall _ hlast⟩

theorem not_guarded_of_strays (hk : program.KillEnds) {s : Supervisor σ ρ} (ho : s.Owned)
    {x : HandleStep} (h : Strays program listener x s) : ¬Guarded program listener x s := by
  cases x with
  | start => exact (replaces_start h.1).not_guarded trivial hk ho h.2
  | restart => exact (replaces_restart s).not_guarded trivial hk ho h
  | stop =>
    intro hg
    obtain ⟨g, hl⟩ := Clings.stop listener h
    exact hg.noneLive trivial (.inr (isRunning_of_held_none (stop_held listener s))) g hl
  | send g line => exact h.elim
  | happen g a => exact h.elim

theorem guarded_iff (hk : program.KillEnds) {s : Supervisor σ ρ} (ho : s.Owned) (x : HandleStep) :
    Guarded program listener x s ↔ ¬Strays program listener x s :=
  ⟨fun hg h => not_guarded_of_strays hk ho h hg, fun h => (guarded_of_not_strays hk ho h).1⟩

theorem along_guarded_iff (hk : program.KillEnds) {s : Supervisor σ ρ} (ho : s.Owned)
    (xs : List HandleStep) :
    Along program listener (Guarded program listener) xs s ↔
      Along program listener (fun x s => ¬Strays program listener x s) xs s := by
  induction xs generalizing s with
  | nil => exact Iff.rfl
  | cons x xs ih =>
    simp only [Along, guarded_iff hk ho x]
    exact and_congr_right fun h => ih (guarded_of_not_strays hk ho h).2

end

/-- A supervisor that has not started a child yet. -/
def new (options : ProcessOptions) (program : σ) (owner : ρ) : Supervisor σ ρ :=
  { options, program, owner }

theorem owned_new (options : ProcessOptions) (program : σ) (owner : ρ) :
    (new options program owner : Supervisor σ ρ).Owned where
  killable g c h := by simp [new, child?] at h
  live g hg := by
    obtain ⟨c, hc, -⟩ := hg
    simp [new, child?] at hc
  ended := Nat.le_refl _

/-- Children that print a line and then, perhaps, close their output; they can be ended. -/
def printing (line : String) (closes : Bool) : Program Unit where
  launch _ := (.started {} (.print line :: if closes then [.closeOutput] else []), ())
  react _ _ _ := (⟨[], none⟩, ())

def deaf : Listener Unit := ⟨fun _ _ _ => some (), fun _ _ _ => ()⟩

theorem printing_killEnds (line : String) (closes : Bool) : (printing line closes).KillEnds := by
  intro w temper printed h
  cases h
  rfl

end Supervisor

end AssemblyBrowser
