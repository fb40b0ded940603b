import AssemblyBrowser.Proofs.Engine.Children
/-!
The live children of a supervisor. None is new where none is created, and none that has ended lives
again; a child that can be killed does not outlive being shut down, unless it cannot even be told to
terminate.
-/
namespace AssemblyBrowser.Supervisor

variable {σ ρ : Type}

/-! ## Live children -/

def IsLive (s : Supervisor σ ρ) (g : Nat) : Prop := ∃ c, s.child? g = some c ∧ c.isAlive = true

def AtMostOneLive (s : Supervisor σ ρ) : Prop := ∀ g g', s.IsLive g → s.IsLive g' → g = g'

def NoneLive (s : Supervisor σ ρ) : Prop := ∀ g, ¬s.IsLive g

theorem NoneLive.atMostOne {s : Supervisor σ ρ} (h : s.NoneLive) : s.AtMostOneLive :=
  fun g _ hg => absurd hg (h g)

/-- No child is new, and none that has ended lives again. -/
structure Wanes (s t : Supervisor σ ρ) : Prop where
  held : t.held = s.held
  generation : t.generation = s.generation
  grows : ∀ g c, s.child? g = some c → ∃ d, t.child? g = some d ∧ c.Grows d
  ended : t.endedGeneration ≤ max s.endedGeneration s.generation

theorem Wanes.of_children {s t : Supervisor σ ρ} (hh : t.held = s.held)
    (hc : t.children = s.children) (he : t.endedGeneration = s.endedGeneration) : Wanes s t where
  held := hh
  generation := by simp only [Supervisor.generation, hc]
  grows g c h := ⟨c, (child?_congr hc g).trans h, .refl c⟩
  ended := by omega

theorem Wanes.refl (s : Supervisor σ ρ) : Wanes s s := .of_children rfl rfl rfl

theorem Wanes.trans {s t u : Supervisor σ ρ} (h : Wanes s t) (h' : Wanes t u) : Wanes s u where
  held := h'.held.trans h.held
  generation := h'.generation.trans h.generation
  grows g c hc := by
    obtain ⟨d, hd, hcd⟩ := h.grows g c hc
    obtain ⟨e, he, hde⟩ := h'.grows g d hd
    exact ⟨e, he, hcd.trans hde⟩
  ended := by
    have h₁ := h.ended
    have h₂ := h'.ended
    have h₃ := h.generation
    omega

/-- A child of the later state was there before. -/
theorem Wanes.back {s t : Supervisor σ ρ} (h : Wanes s t) {g : Nat} {d : Child}
    (hd : t.child? g = some d) : ∃ c, s.child? g = some c ∧ c.Grows d := by
  have hle := child?_le hd
  rw [h.generation, ← child?_isSome, Option.isSome_iff_exists] at hle
  obtain ⟨c, hc⟩ := hle
  obtain ⟨d', hd', hcd⟩ := h.grows g c hc
  rw [hd] at hd'
  cases hd'
  exact ⟨c, hc, hcd⟩

theorem Wanes.live {s t : Supervisor σ ρ} (h : Wanes s t) {g : Nat} (hg : t.IsLive g) :
    s.IsLive g := by
  obtain ⟨d, hd, ha⟩ := hg
  obtain ⟨c, hc, hcd⟩ := h.back hd
  exact ⟨c, hc, hcd.alive ha⟩

theorem Wanes.atMostOne {s t : Supervisor σ ρ} (h : Wanes s t) (hs : s.AtMostOneLive) :
    t.AtMostOneLive := fun g g' hg hg' => hs g g' (h.live hg) (h.live hg')

theorem Turn.wanes {g : Nat} {s t : Supervisor σ ρ} (h : Turn g s t) : Wanes s t where
  held := h.frame.held
  generation := h.frame.generation
  grows g' c hc := by
    by_cases he : g' = g
    · subst he
      exact h.grows c hc
    · exact ⟨c, (h.others g' he).trans hc, .refl c⟩
  ended := by
    have he := h.ended
    omega

theorem resist_wanes (listener : Listener ρ) (r : Resistance) (g : Nat) (code : Int)
    (s : Supervisor σ ρ) : Wanes s (s.resist listener r g code) := by
  cases r with
  | none => exact (act_turn listener g s (.exit code)).wanes
  | ignores => exact .refl s
  | refuses => exact .refl s

theorem record_wanes (s : Supervisor σ ρ) (e : ProcessEvent) : Wanes s (s.record e) :=
  .of_children rfl rfl rfl

theorem kill_wanes (listener : Listener ρ) (s : Supervisor σ ρ) (g : Nat) :
    Wanes s (s.kill listener g) := by
  simp only [kill]
  split
  · exact .refl s
  · exact (record_wanes s _).trans (resist_wanes listener _ g _ _)

/-! ## Killing -/

section

variable (listener : Listener ρ)

/-- Killing ends each child that there is. -/
def AllKillable (s : Supervisor σ ρ) : Prop := ∀ g c, s.child? g = some c → c.temper.kill = .none

theorem Wanes.killable {s t : Supervisor σ ρ} (h : Wanes s t) (hs : s.AllKillable) :
    t.AllKillable := fun _ _ hd => by
  obtain ⟨c, hc, hcd⟩ := h.back hd
  rw [hcd.temper]
  exact hs _ c hc

theorem not_live_exit (s : Supervisor σ ρ) (g : Nat) (code : Int) :
    ¬(s.act listener g (.exit code)).IsLive g := by
  rintro ⟨d, hd, ha⟩
  unfold act at hd
  split at hd
  · rename_i hn
    rw [hn] at hd
    cases hd
  · rename_i c hc
    simp only at hd
    have he : (c.exitCode.or (some code)).isNone = false := by cases c.exitCode <;> rfl
    split at hd
    · rw [child?_endOutput listener hc] at hd
      cases hd
      exact Bool.noConfusion (he.symm.trans ha)
    · rw [child?_setChild hc] at hd
      cases hd
      exact Bool.noConfusion (he.symm.trans ha)

theorem not_live_kill {s : Supervisor σ ρ} (hs : s.AllKillable) (g : Nat) :
    ¬(s.kill listener g).IsLive g := by
  unfold kill
  split
  · rename_i hn
    rintro ⟨d, hd, -⟩
    rw [hn] at hd
    cases hd
  · rename_i c hc
    rw [hs g c hc]
    exact not_live_exit listener _ g killCode

theorem not_live_shutDown {s : Supervisor σ ρ} (hs : s.AllKillable) {g : Nat} {c : Child}
    (hc : c.temper.terminate ≠ .refuses) : ¬(s.shutDown listener g c).IsLive g := by
  have hr : Wanes s ((s.record (.closeInput g)).record (.terminate g)) := .of_children rfl rfl rfl
  have ht := hr.trans (resist_wanes listener c.temper.terminate g terminateCode _)
  simp only [shutDown, hc, if_false]
  split
  · split
    · exact not_live_kill listener (ht.killable hs) g
    · rename_i d hd ha
      rintro ⟨d', hd', ha'⟩
      rw [hd] at hd'
      cases hd'
      exact ha ha'
  · rename_i hn
    rintro ⟨d', hd', -⟩
    rw [hn] at hd'
    cases hd'

end

/-- Without the child that is held. -/
def letGo (s : Supervisor σ ρ) : Supervisor σ ρ := { s with held := none }

theorem letGo_of_held_none {s : Supervisor σ ρ} (h : s.held = none) : s.letGo = s := by
  simp only [letGo, ← h]

theorem isRunning_of_held_none {s : Supervisor σ ρ} (h : s.held = none) : s.isRunning = false := by
  simp [isRunning, heldChild?, h]

end AssemblyBrowser.Supervisor
