import AssemblyBrowser.Proofs.Engine.Moment
/-!
What is kept whatever is done with a supervisor. Starting and stopping consist of a few single
things, so a condition that those keep is kept by all. The main instance: the child that is held is
the latest and has greeted, and a child that is read no longer has been reported.
-/
namespace AssemblyBrowser

/-- The generation that is written to, and the line. -/
def ProcessEvent.write? : ProcessEvent → Option (Nat × String)
  | .write g line => some (g, line)
  | _ => none

namespace Supervisor

variable {σ ρ : Type} {program : Program σ} {listener : Listener ρ}
  {I : Supervisor σ ρ → Prop} {s t : Supervisor σ ρ}

/-- A condition that every single thing done to end a child keeps, and what children do. -/
structure KeptByStop (listener : Listener ρ) (I : Supervisor σ ρ → Prop) : Prop where
  act : ∀ {s}, I s → ∀ g a, I (s.act listener g a)
  record : ∀ {s}, I s → ∀ {e}, ProcessEvent.write? e = none → I (s.record e)
  letGo : ∀ {s}, I s → I s.letGo

/-- A condition that every single thing done to start a child keeps as well. -/
structure KeptByStart (program : Program σ) (listener : Listener ρ) (I : Supervisor σ ρ → Prop) :
    Prop extends KeptByStop listener I where
  launch : ∀ {s}, I s →
    I { s with program := (program.launch s.program).2, attempts := s.attempts + 1 }
  bear : ∀ {s}, I s → s.held = none → ∀ {c : Child}, c.IsNew →
    I { s with children := s.children ++ [c] }
  hold : ∀ {s}, I s → ∀ {c : Child}, s.child? s.generation = some c → c.greeting.isSome = true →
    I { s with held := some s.generation }

namespace KeptByStop

variable (k : KeptByStop listener I)
include k

theorem actMoments (h : I s) (g : Nat) (as : List Act) : ∀ t ∈ actMoments listener g as s, I t := by
  induction as generalizing s with
  | nil =>
    intro t ht
    obtain rfl := List.mem_singleton.mp ht
    exact h
  | cons a as ih =>
    intro t ht
    rcases List.mem_cons.mp ht with rfl | ht
    · exact h
    · exact ih (k.act h g a) t ht

theorem acts (h : I s) (g : Nat) (as : List Act) : I (s.acts listener g as) :=
  k.actMoments h g as _ (List.mem_of_getLast? (getLast?_actMoments listener g as s))

theorem resist (h : I s) (r : Resistance) (g : Nat) (code : Int) :
    I (s.resist listener r g code) := by
  cases r with
  | none => exact k.act h g (.exit code)
  | ignores => exact h
  | refuses => exact h

theorem kill (h : I s) (g : Nat) : I (s.kill listener g) := by
  unfold Supervisor.kill
  split
  · exact h
  · exact k.resist (k.record h rfl) _ g _

theorem shutDownMoments (h : I s) (g : Nat) (c : Child) :
    ∀ t ∈ shutDownMoments listener s g c, I t := by
  have hrecord : I ((s.record (.closeInput g)).record (.terminate g)) :=
    k.record (k.record h rfl) rfl
  have hresist := k.resist hrecord c.temper.terminate g terminateCode
  intro t ht
  simp only [Supervisor.shutDownMoments] at ht
  split at ht
  · obtain rfl := List.mem_singleton.mp ht
    exact hrecord
  · rcases List.mem_cons.mp ht with rfl | ht
    · exact hrecord
    · rcases List.mem_cons.mp ht with rfl | ht
      · exact hresist
      · split at ht
        · split at ht
          · obtain rfl := List.mem_singleton.mp ht
            exact k.kill hresist g
          · cases ht
        · cases ht

/-- Stopping begins with letting go. -/
theorem stopMoments_of_letGo (h : I s.letGo) : ∀ t ∈ stopMoments listener s, I t := by
  intro t ht
  unfold Supervisor.stopMoments at ht
  split at ht
  · rename_i hn
    obtain rfl := List.mem_singleton.mp ht
    rwa [letGo_of_held_none hn] at h
  · simp only at ht
    split at ht
    · obtain rfl := List.mem_singleton.mp ht
      exact h
    · split at ht
      · exact k.shutDownMoments h _ _ t ht
      · obtain rfl := List.mem_singleton.mp ht
        exact h

theorem stopMoments (h : I s) : ∀ t ∈ stopMoments listener s, I t :=
  k.stopMoments_of_letGo (k.letGo h)

theorem stop (h : I s) : I (s.stop listener) :=
  k.stopMoments h _ (List.mem_of_getLast? (getLast?_stopMoments listener s))

end KeptByStop

/-! ## Children while one is stopped -/

section

variable (listener) (s : Supervisor σ ρ)

theorem wanes_keptByStop : KeptByStop listener (Wanes s.letGo) where
  act h g a := h.trans (act_turn listener g _ a).wanes
  record h _ _ := h.trans (record_wanes _ _)
  letGo h := (letGo_of_held_none h.held).symm ▸ h

theorem stopMoments_wanes : ∀ t ∈ stopMoments listener s, Wanes s.letGo t :=
  (wanes_keptByStop listener s).stopMoments_of_letGo (.refl _)

theorem stop_wanes : Wanes s.letGo (s.stop listener) :=
  stopMoments_wanes listener s _ (List.mem_of_getLast? (getLast?_stopMoments listener s))

theorem stop_held : (s.stop listener).held = none := (stop_wanes listener s).held

end

/-! ## Starting -/

namespace KeptByStart

variable (k : KeptByStart program listener I)
include k

theorem greet (h : I s) {c : Child} (hc : s.child? s.generation = some c) :
    I (s.greet listener s.generation c).2 := by
  unfold Supervisor.greet
  split
  · split
    · split
      · exact h
      · exact k.toKeptByStop.kill h _
    · exact h
  · rename_i line hline
    split
    · exact k.hold h hc (by rw [hline]; rfl)
    · exact h
    · exact k.toKeptByStop.kill h _
    · exact k.toKeptByStop.kill h _

theorem hatch {printed : List Act} (h : I s) (hheld : s.held = none)
    (hh : hatch? program s = some (t, printed)) : I t := by
  unfold hatch? at hh
  split at hh
  · cases hh
  · cases hh
  · rename_i word words _
    have hlaunch := k.launch (k.record h (e := .spawn (word :: words) s.options.environment) rfl)
    simp only [Supervisor.record] at hlaunch
    simp only at hh
    split at hh
    · cases hh
    · rename_i temper printed' state hl
      simp only [Option.some.injEq, Prod.mk.injEq] at hh
      obtain ⟨rfl, -⟩ := hh
      rw [show (program.launch s.program).2 = state from congrArg Prod.snd hl] at hlaunch
      exact k.bear hlaunch hheld (c := { number := s.attempts + 1, temper }) ⟨rfl, rfl, rfl⟩

theorem spawn (h : I s) (hheld : s.held = none) : I (s.spawn program listener).2 := by
  cases hh : hatch? program s with
  | some p =>
    obtain ⟨t, printed⟩ := p
    obtain ⟨c, hc, hspawn⟩ := spawn_of_hatch program listener hh
    have hacts : I (t.acts listener t.generation printed) :=
      k.toKeptByStop.acts (k.hatch h hheld hh) t.generation printed
    have hgen := (acts_turn listener t.generation printed t).frame.generation
    rw [hspawn]
    generalize t.acts listener t.generation printed = u at hacts hc hgen
    rw [← hgen] at hc ⊢
    exact k.greet hacts hc
  | none =>
    -- no child has come to be
    revert hh
    unfold hatch? Supervisor.spawn
    cases s.options.command with
    | none => exact fun _ => h
    | some words =>
      cases words with
      | nil => exact fun _ => h
      | cons word words =>
        have hlaunch := k.launch (k.record h (e := .spawn (word :: words) s.options.environment) rfl)
        simp only [Supervisor.record] at hlaunch
        cases hl : program.launch s.program with
        | mk launch state =>
          cases launch with
          | failed e =>
            intro _
            rw [show (program.launch s.program).2 = state from congrArg Prod.snd hl] at hlaunch
            simpa only [Supervisor.record, hl] using hlaunch
          | started temper printed => simp [hl, Supervisor.record]

theorem spawnMoments (h : I s) (hheld : s.held = none) :
    ∀ t ∈ spawnMoments program listener s, I t := by
  intro t ht
  unfold Supervisor.spawnMoments at ht
  split at ht
  · simp only [List.mem_cons, List.not_mem_nil, or_false] at ht
    rcases ht with rfl | rfl
    · exact h
    · exact k.spawn h hheld
  · rename_i u printed hh
    rcases List.mem_append.mp ht with ht | ht
    · rcases List.mem_cons.mp ht with rfl | ht
      · exact h
      · exact k.toKeptByStop.actMoments (k.hatch h hheld hh) _ _ t ht
    · obtain rfl := List.mem_singleton.mp ht
      exact k.spawn h hheld

theorem startMoments (h : I s) : ∀ t ∈ HandleStep.start.moments program listener s, I t := by
  intro t ht
  simp only [HandleStep.moments] at ht
  split at ht
  · obtain rfl := List.mem_singleton.mp ht
    exact h
  · rcases List.mem_append.mp ht with ht | ht
    · exact k.toKeptByStop.stopMoments h t ht
    · exact k.spawnMoments (k.toKeptByStop.stop h) (stop_held listener s) t ht

theorem start (h : I s) : I ((Supervisor.start program listener).runFrom s).2 := by
  simp only [Attempt.runFrom, ExceptT.run, Supervisor.start]
  split
  · exact h
  · exact k.spawn (k.toKeptByStop.stop h) (stop_held listener s)

end KeptByStart

/-! ## The child that is held -/

/-- The child that is held is the latest and has greeted; the end of the output of every child that
is read no longer has been reported. -/
structure Consistent (s : Supervisor σ ρ) : Prop where
  held : ∀ g, s.held = some g →
    g = s.generation ∧ ∃ c, s.child? g = some c ∧ c.greeting.isSome = true
  shut : ∀ g c, s.child? g = some c → c.reading = false → g ≤ s.endedGeneration

/-- A greeting is not taken back. -/
theorem act_greeting (listener : Listener ρ) (g : Nat) (s : Supervisor σ ρ) (a : Act) {g' : Nat}
    {c : Child} (hc : s.child? g' = some c) (hgreet : c.greeting.isSome = true) :
    ∃ d, (s.act listener g a).child? g' = some d ∧ d.greeting.isSome = true := by
  by_cases hg : g' = g
  · subst hg
    generalize ht : s.act listener g' a = t
    cases ht ▸ act_effect listener g' s a with
    | nothing => exact ⟨c, hc, hgreet⟩
    | becomes hc' hgrows hreading hkeeps =>
      obtain rfl := Option.some.inj (hc.symm.trans hc')
      exact ⟨_, child?_setChild hc _, hkeeps hgreet⟩
    | reports => exact ⟨c, hc, hgreet⟩
    | ends hc' hgrows hkeeps =>
      obtain rfl := Option.some.inj (hc.symm.trans hc')
      exact ⟨_, child?_endOutput listener hc _, hkeeps ▸ hgreet⟩
  · exact ⟨c, ((act_turn listener g s a).others g' hg).trans hc, hgreet⟩

theorem Consistent.act (h : s.Consistent) (g : Nat) (a : Act) :
    (s.act listener g a).Consistent := by
  have hturn := act_turn listener g s a
  constructor
  · intro g' hg'
    obtain ⟨hlast, c, hc, hgreet⟩ := h.held g' (hturn.frame.held.symm.trans hg')
    exact ⟨hlast.trans hturn.frame.generation.symm, act_greeting listener g s a hc hgreet⟩
  · intro g' d hd hr
    have hle : s.endedGeneration ≤ (s.act listener g a).endedGeneration := by
      have := hturn.ended
      omega
    by_cases hg : g' = g
    · subst hg
      obtain ⟨c, hc, -⟩ := hturn.wanes.back hd
      rcases hturn.shut c d hc hd hr with hr | hle'
      · exact Nat.le_trans (h.shut g' c hc hr) hle
      · exact hle'
    · have hsame := (hturn.others g' hg).symm.trans hd
      exact Nat.le_trans (h.shut g' d hsame hr) hle

theorem Consistent.of_children (h : s.Consistent) (hheld : ∀ g, t.held = some g → s.held = some g)
    (hc : t.children = s.children) (he : t.endedGeneration = s.endedGeneration) :
    t.Consistent := by
  have hgen : t.generation = s.generation := congrArg List.length hc
  constructor
  · intro g hg
    obtain ⟨hlast, c, hchild, hgreet⟩ := h.held g (hheld g hg)
    exact ⟨hlast.trans hgen.symm, c, (child?_congr hc g).trans hchild, hgreet⟩
  · intro g c hchild hr
    rw [he]
    exact h.shut g c ((child?_congr hc g).symm.trans hchild) hr

/-- A new child is read. -/
theorem Consistent.bear (h : s.Consistent) (hheld : s.held = none) {c : Child} (hc : c.IsNew) :
    ({ s with children := s.children ++ [c] } : Supervisor σ ρ).Consistent := by
  let t : Supervisor σ ρ := { s with children := s.children ++ [c] }
  constructor
  · intro g hg
    cases hheld.symm.trans hg
  · intro g d hd hr
    by_cases hlast : g = t.generation
    · have hnew := child?_append_new (s := s) (t := t) rfl
      rw [← hlast] at hnew
      cases hnew.symm.trans hd
      rw [hc.reading] at hr
      cases hr
    · have hold := child?_append_old (s := s) (t := t) rfl hlast
      exact h.shut g d (hold.symm.trans hd) hr

theorem consistent_keptByStop (listener : Listener ρ) :
    KeptByStop listener (Consistent : Supervisor σ ρ → Prop) where
  act h g a := h.act g a
  record h _ _ := h.of_children (fun _ hg => hg) rfl rfl
  letGo h := h.of_children (fun _ hg => by cases hg) rfl rfl

theorem consistent_keptByStart (program : Program σ) (listener : Listener ρ) :
    KeptByStart program listener (Consistent : Supervisor σ ρ → Prop) where
  toKeptByStop := consistent_keptByStop listener
  launch h := h.of_children (fun _ hg => hg) rfl rfl
  bear h hheld _ hc := h.bear hheld hc
  hold {s} h c hc hgreet := by
    constructor
    · intro g hg
      cases hg
      exact ⟨rfl, c, hc, hgreet⟩
    · exact h.shut

/-- The child that runs is read and has greeted. -/
theorem Consistent.isRunning (h : s.Consistent) (hended : s.endedGeneration ≤ s.generation)
    (hr : s.isRunning = true) :
    ∃ c, s.child? s.generation = some c ∧ c.reading = true ∧ c.greeting.isSome = true := by
  cases hheld : s.held with
  | none =>
    rw [isRunning_of_held_none hheld] at hr
    cases hr
  | some g =>
    obtain ⟨rfl, c, hc, hgreet⟩ := h.held g hheld
    refine ⟨c, hc, ?_, hgreet⟩
    cases hreading : c.reading with
    | true => rfl
    | false =>
      have hle := h.shut _ c hc hreading
      have hsame : s.endedGeneration = s.generation := Nat.le_antisymm hended hle
      simp [Supervisor.isRunning, heldChild?, hheld, hc, hsame] at hr

end Supervisor

end AssemblyBrowser
