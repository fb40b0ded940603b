import AssemblyBrowser.Proofs.Engine.Conduct
/-!
What the owner of a supervisor comes to know. It is changed by reports only, one after another, so
what every report respects is respected by everything that is done with a supervisor.
-/
namespace AssemblyBrowser

/-- A relation between an owner before and after, which every report keeps to. -/
structure Listener.Respects {ρ : Type} (listener : Listener ρ) (R : ρ → ρ → Prop) : Prop where
  refl : ∀ o, R o o
  trans : ∀ {a b c}, R a b → R b c → R a c
  heard : ∀ {o o' g line}, listener.heard o g line = some o' → R o o'
  ended : ∀ o g exitCode, R o (listener.ended o g exitCode)

namespace Supervisor

variable {σ ρ : Type} {listener : Listener ρ} {R : ρ → ρ → Prop}

/-- A supervisor later: nothing that was done is undone. -/
structure Ages (R : ρ → ρ → Prop) (s t : Supervisor σ ρ) : Prop where
  options : t.options = s.options
  log : s.log <+: t.log
  generation : s.generation ≤ t.generation
  ended : s.endedGeneration ≤ s.generation → t.endedGeneration ≤ t.generation
  owner : R s.owner t.owner

theorem Ages.refl (hR : listener.Respects R) (s : Supervisor σ ρ) : Ages R s s :=
  ⟨rfl, List.prefix_refl _, Nat.le_refl _, id, hR.refl _⟩

theorem Ages.trans (hR : listener.Respects R) {s t u : Supervisor σ ρ} (h : Ages R s t)
    (h' : Ages R t u) : Ages R s u where
  options := h'.options.trans h.options
  log := h.log.trans h'.log
  generation := Nat.le_trans h.generation h'.generation
  ended := h'.ended ∘ h.ended
  owner := hR.trans h.owner h'.owner

/-- Steps that leave the owner alone. -/
theorem Ages.of_owner (hR : listener.Respects R) {s t : Supervisor σ ρ} (ho : t.options = s.options)
    (hl : s.log <+: t.log) (hg : s.generation ≤ t.generation)
    (he : t.endedGeneration = s.endedGeneration) (h : t.owner = s.owner) : Ages R s t :=
  ⟨ho, hl, hg, fun hs => he ▸ Nat.le_trans hs hg, h ▸ hR.refl _⟩

section

variable (hR : listener.Respects R)
include hR

theorem owner_act (g : Nat) (s : Supervisor σ ρ) (a : Act) :
    R s.owner (s.act listener g a).owner := by
  generalize ht : s.act listener g a = t
  cases ht ▸ act_effect listener g s a with
  | nothing => exact hR.refl _
  | becomes => exact hR.refl _
  | reports ho => exact hR.heard ho
  | ends => exact hR.ended _ _ _

theorem act_ages (g : Nat) (s : Supervisor σ ρ) (a : Act) : Ages R s (s.act listener g a) := by
  have ht := act_turn listener g s a
  have hf := ht.frame
  refine ⟨hf.options, hf.log ▸ List.prefix_refl _, Nat.le_of_eq hf.generation.symm, fun hs => ?_,
    owner_act hR g s a⟩
  have he := ht.ended
  have hg := hf.generation
  omega

theorem ages_keptByStop (s : Supervisor σ ρ) : KeptByStop listener (Ages R s) where
  act h g a := h.trans hR (act_ages hR g _ a)
  record h _ _ := h.trans hR (.of_owner hR rfl (List.prefix_append _ _) (Nat.le_refl _) rfl rfl)
  letGo h := h.trans hR (.of_owner hR rfl (List.prefix_refl _) (Nat.le_refl _) rfl rfl)

theorem acts_ages (g : Nat) (as : List Act) (s : Supervisor σ ρ) :
    Ages R s (s.acts listener g as) := (ages_keptByStop hR s).acts (.refl hR s) g as

theorem stop_ages (s : Supervisor σ ρ) : Ages R s (s.stop listener) :=
  (ages_keptByStop hR s).stop (.refl hR s)

theorem stopMoments_ages (s : Supervisor σ ρ) : ∀ t ∈ stopMoments listener s, Ages R s t :=
  (ages_keptByStop hR s).stopMoments (.refl hR s)

variable (program : Program σ)

theorem ages_keptByStart (s : Supervisor σ ρ) : KeptByStart program listener (Ages R s) where
  toKeptByStop := ages_keptByStop hR s
  launch h := h.trans hR (.of_owner hR rfl (List.prefix_refl _) (Nat.le_refl _) rfl rfl)
  bear h _ _ _ := h.trans hR
    (.of_owner hR rfl (List.prefix_refl _) (by simp [generation]) rfl rfl)
  hold h _ _ _ := h.trans hR (.of_owner hR rfl (List.prefix_refl _) (Nat.le_refl _) rfl rfl)

theorem start_ages (s : Supervisor σ ρ) :
    Ages R s ((Supervisor.start program listener).runFrom s).2 :=
  (ages_keptByStart hR program s).start (.refl hR s)

theorem startMoments_ages (s : Supervisor σ ρ) :
    ∀ t ∈ HandleStep.start.moments program listener s, Ages R s t :=
  (ages_keptByStart hR program s).startMoments (.refl hR s)

theorem sendLine_ages (s : Supervisor σ ρ) (g : Nat) (line : String) :
    Ages R s ((sendLine program listener g line).runFrom s).2 := by
  simp only [Attempt.runFrom, ExceptT.run, sendLine]
  split
  · exact .refl hR s
  · have hr : Ages R s { s.record (.write g line) with
        program := (program.react s.program g line).2 } :=
      .of_owner hR rfl (List.prefix_append _ _) (Nat.le_refl _) rfl rfl
    have ha := hr.trans hR (acts_ages hR g (program.react s.program g line).1.acts _)
    split <;> exact ha

end

/-! ## Results -/

section

variable (program : Program σ) (listener)

theorem greet_ok {s t : Supervisor σ ρ} {g g' : Nat} {c : Child}
    (h : s.greet listener g c = (.ok g', t)) : g' = g ∧ t = { s with held := some g } := by
  unfold greet at h
  split at h
  · split at h
    · split at h <;> cases h
    · cases h
  · split at h
    · cases h
      exact ⟨rfl, rfl⟩
    · cases h
    · cases h
    · cases h

/-- A child that is started where none is running is a new one. -/
theorem start_ok {s t : Supervisor σ ρ} {g : Nat} (hs : s.isRunning = false)
    (h : (Supervisor.start program listener).runFrom s = (.ok g, t)) :
    g = t.generation ∧ t.generation = s.generation + 1 ∧ t.held = some g := by
  have hg : (s.stop listener).generation = s.generation := (stop_wanes listener s).generation
  simp only [Attempt.runFrom, ExceptT.run, start, hs, Bool.false_eq_true, if_false] at h
  cases hh : hatch? program (s.stop listener) with
  | none =>
    obtain ⟨⟨f, hf⟩, -⟩ := spawn_of_hatch_none program listener hh
    rw [h] at hf
    cases hf
  | some hatched =>
    obtain ⟨u, printed⟩ := hatched
    obtain ⟨c, -, hspawn⟩ := spawn_of_hatch program listener hh
    rw [hspawn] at h
    obtain ⟨rfl, rfl⟩ := greet_ok listener h
    have hu := (hatched_of_hatch program hh).generation
    have hacts := (acts_turn listener u.generation printed u).frame.generation
    have hsame : ({ u.acts listener u.generation printed with held := some u.generation } :
        Supervisor σ ρ).generation = u.generation := hacts
    rw [hsame, hu, hg]
    exact ⟨rfl, rfl, rfl⟩

/-- A line is written to the child that runs, and the child reacts. -/
theorem sendLine_run {s : Supervisor σ ρ} {g : Nat} (line : String) (hg : g = s.generation)
    (hr : s.isRunning = true) :
    (sendLine program listener g line).runFrom s =
      (match (program.react s.program g line).1.error with
        | none => .ok ()
        | some text => .error
          (.engine (.unavailable "send" (some ("engine pipe closed: " ++ text)) (some g))),
        ({ s.record (.write g line) with program := (program.react s.program g line).2 } :
          Supervisor σ ρ).acts listener g (program.react s.program g line).1.acts) := by
  have hheld : s.held.isNone = false := by
    cases hh : s.held with
    | none => simp [isRunning_of_held_none hh] at hr
    | some h => rfl
  simp only [Attempt.runFrom, ExceptT.run, sendLine, hheld, ← hg, hr, ne_eq, not_true_eq_false,
    decide_false, Bool.not_true, Bool.or_self, Bool.false_eq_true, if_false]
  split
  · rename_i he
    have herror : (program.react s.program g line).1.error = none := he
    rw [herror]
    rfl
  · rename_i text he
    have herror : (program.react s.program g line).1.error = some text := he
    rw [herror]
    rfl

theorem sendLine_ok {s t : Supervisor σ ρ} {g : Nat} {line : String}
    (h : (sendLine program listener g line).runFrom s = (.ok (), t)) : .write g line ∈ t.log := by
  simp only [Attempt.runFrom, ExceptT.run, sendLine] at h
  split at h
  · cases h
  · split at h
    · cases h
      rw [(acts_turn listener g _ _).frame.log]
      simp [record]
    · cases h

theorem sendLine_error {s t : Supervisor σ ρ} {g : Nat} {line : String} {f : Failure}
    (h : (sendLine program listener g line).runFrom s = (.error f, t)) : ∃ e, f = .engine e := by
  simp only [Attempt.runFrom, ExceptT.run, sendLine] at h
  split at h
  · cases h
    exact ⟨_, rfl⟩
  · split at h
    · cases h
    · cases h
      exact ⟨_, rfl⟩

theorem sendLine_generation (s : Supervisor σ ρ) (g : Nat) (line : String) :
    ((sendLine program listener g line).runFrom s).2.generation = s.generation := by
  simp only [Attempt.runFrom, ExceptT.run, sendLine]
  split
  · rfl
  · split <;> exact (acts_turn listener g _ _).frame.generation

end

end Supervisor

end AssemblyBrowser
