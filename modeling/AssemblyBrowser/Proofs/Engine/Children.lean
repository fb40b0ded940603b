import AssemblyBrowser.Engine.Supervisor
/-!
What the acts of a child change. A child that acts changes itself, the end of the output and the
owner, and nothing else of its supervisor; a child that has ended stays so.
-/
namespace AssemblyBrowser

/-- How a child can become: neither its end nor the end of its output is taken back. -/
structure Child.Grows (c d : Child) : Prop where
  temper : d.temper = c.temper
  alive : d.isAlive = true → c.isAlive = true
  reading : d.reading = true → c.reading = true

theorem Child.Grows.refl (c : Child) : c.Grows c := ⟨rfl, id, id⟩

theorem Child.Grows.trans {c d e : Child} (h : c.Grows d) (h' : d.Grows e) : c.Grows e :=
  ⟨h'.temper.trans h.temper, h.alive ∘ h'.alive, h.reading ∘ h'.reading⟩

/-- A child that has done nothing yet. -/
structure Child.IsNew (c : Child) : Prop where
  alive : c.isAlive = true
  reading : c.reading = true
  greeting : c.greeting = none

namespace Supervisor

variable {σ ρ : Type} (listener : Listener ρ)

/-! ## Children by generation -/

theorem child?_isSome {s : Supervisor σ ρ} {g : Nat} :
    (s.child? g).isSome = true ↔ 0 < g ∧ g ≤ s.generation := by
  by_cases h : g = 0
  · simp [child?, h]
  · simp only [child?, if_neg h, Option.isSome_iff_ne_none, ne_eq, List.getElem?_eq_none_iff,
      generation]
    omega

theorem child?_le {s : Supervisor σ ρ} {g : Nat} {c : Child} (h : s.child? g = some c) :
    0 < g ∧ g ≤ s.generation := child?_isSome.mp (by simp [h])

theorem child?_congr {s t : Supervisor σ ρ} (h : t.children = s.children) (g : Nat) :
    t.child? g = s.child? g := by
  simp only [child?, h]

theorem child?_setChild {s : Supervisor σ ρ} {g : Nat} {c : Child} (h : s.child? g = some c)
    (d : Child) : (s.setChild g d).child? g = some d := by
  have hg := child?_le h
  have hlt : g - 1 < s.children.length := by simp only [generation] at hg; omega
  simp [child?, setChild, show g ≠ 0 by omega, hlt]

theorem child?_setChild_ne {s : Supervisor σ ρ} {g g' : Nat} (hg : 0 < g) (h : g' ≠ g) (d : Child) :
    (s.setChild g d).child? g' = s.child? g' := by
  by_cases h0 : g' = 0
  · simp [child?, h0]
  · have hne : g - 1 ≠ g' - 1 := by omega
    simp [child?, setChild, h0, hne]

theorem generation_append {s t : Supervisor σ ρ} {c : Child} (h : t.children = s.children ++ [c]) :
    t.generation = s.generation + 1 := by simp [generation, h]

theorem child?_append_new {s t : Supervisor σ ρ} {c : Child} (h : t.children = s.children ++ [c]) :
    t.child? t.generation = some c := by simp [child?, generation, h]

theorem child?_append_old {s t : Supervisor σ ρ} {c : Child} (h : t.children = s.children ++ [c])
    {g : Nat} (hg : g ≠ t.generation) : t.child? g = s.child? g := by
  rw [generation_append h, generation] at hg
  simp only [child?, h]
  by_cases h0 : g = 0
  · simp [h0]
  · rw [if_neg h0, if_neg h0]
    rcases Nat.lt_or_gt_of_ne hg with hlt | hgt
    · rw [List.getElem?_append_left (by omega)]
    · rw [List.getElem?_eq_none (by simp; omega), List.getElem?_eq_none (by omega)]

/-! ## What stays the same -/

/-- Two states that differ at most in what children, of the same number, and the owner know. -/
structure Frame (s t : Supervisor σ ρ) : Prop where
  options : t.options = s.options
  program : t.program = s.program
  held : t.held = s.held
  attempts : t.attempts = s.attempts
  log : t.log = s.log
  generation : t.generation = s.generation

theorem Frame.refl (s : Supervisor σ ρ) : Frame s s := ⟨rfl, rfl, rfl, rfl, rfl, rfl⟩

theorem Frame.trans {s t u : Supervisor σ ρ} (h : Frame s t) (h' : Frame t u) : Frame s u :=
  ⟨h'.options.trans h.options, h'.program.trans h.program, h'.held.trans h.held,
    h'.attempts.trans h.attempts, h'.log.trans h.log, h'.generation.trans h.generation⟩

theorem setChild_frame (s : Supervisor σ ρ) (g : Nat) (c : Child) : Frame s (s.setChild g c) :=
  ⟨rfl, rfl, rfl, rfl, rfl, by simp [generation, setChild]⟩

theorem endOutput_frame (s : Supervisor σ ρ) (g : Nat) (c : Child) :
    Frame s (s.endOutput listener g c) :=
  ⟨rfl, rfl, rfl, rfl, rfl, by simp [generation, endOutput, setChild]⟩

/-! ## The child that acts -/

/-- What a child does takes one state to another. As long as its output is read, the latest end of
output stays; once it is not, its own end has come. -/
structure Turn (g : Nat) (s t : Supervisor σ ρ) : Prop where
  frame : Frame s t
  others : ∀ g' ≠ g, t.child? g' = s.child? g'
  grows : ∀ c, s.child? g = some c → ∃ d, t.child? g = some d ∧ c.Grows d
  ended : t.endedGeneration = s.endedGeneration ∨
    g ≤ s.generation ∧ t.endedGeneration = max s.endedGeneration g
  still : ∀ d, t.child? g = some d → d.reading = true → t.endedGeneration = s.endedGeneration
  shut : ∀ c d, s.child? g = some c → t.child? g = some d → d.reading = false →
    c.reading = false ∨ g ≤ t.endedGeneration

theorem Turn.of_children {g : Nat} {s t : Supervisor σ ρ} (hf : Frame s t)
    (hc : t.children = s.children) (he : t.endedGeneration = s.endedGeneration) : Turn g s t where
  frame := hf
  others g' _ := child?_congr hc g'
  grows c h := ⟨c, (child?_congr hc g).trans h, .refl c⟩
  ended := .inl he
  still _ _ _ := he
  shut c d h h' hr := by
    rw [child?_congr hc, h] at h'
    cases h'
    exact .inl hr

theorem Turn.refl (g : Nat) (s : Supervisor σ ρ) : Turn g s s := .of_children (.refl s) rfl rfl

theorem Turn.trans {g : Nat} {s t u : Supervisor σ ρ} (h : Turn g s t) (h' : Turn g t u) :
    Turn g s u where
  frame := h.frame.trans h'.frame
  others g' hne := (h'.others g' hne).trans (h.others g' hne)
  grows c hc := by
    obtain ⟨d, hd, hcd⟩ := h.grows c hc
    obtain ⟨e, he, hde⟩ := h'.grows d hd
    exact ⟨e, he, hcd.trans hde⟩
  ended := by
    have h₁ := h.ended
    have h₂ := h'.ended
    have h₃ := h.frame.generation
    omega
  still e he hr := by
    have h₂ := h'.still e he hr
    cases hs : s.child? g with
    | none =>
      -- a child that is there now was there before
      have hle := child?_le he
      rw [h'.frame.generation, h.frame.generation, ← child?_isSome, hs] at hle
      exact Bool.noConfusion hle
    | some c =>
      obtain ⟨d, hd, -⟩ := h.grows c hs
      obtain ⟨e', he', hde⟩ := h'.grows d hd
      rw [he] at he'
      cases he'
      exact h₂.trans (h.still d hd (hde.reading hr))
  shut c e hc he hr := by
    obtain ⟨d, hd, -⟩ := h.grows c hc
    have hle : t.endedGeneration ≤ u.endedGeneration := by have := h'.ended; omega
    rcases h'.shut d e hd he hr with hd' | hg
    · rcases h.shut c d hc hd hd' with hc' | hg
      · exact .inl hc'
      · exact .inr (Nat.le_trans hg hle)
    · exact .inr hg

theorem setChild_turn {s : Supervisor σ ρ} {g : Nat} {c d : Child} (h : s.child? g = some c)
    (hcd : c.Grows d) (hr : d.reading = c.reading) : Turn g s (s.setChild g d) where
  frame := setChild_frame s g d
  others g' hne := child?_setChild_ne (child?_le h).1 hne d
  grows c' hc' := by
    rw [h] at hc'
    cases hc'
    exact ⟨d, child?_setChild h d, hcd⟩
  ended := .inl rfl
  still _ _ _ := rfl
  shut c' d' hc' hd' hf := by
    rw [h] at hc'
    rw [child?_setChild h] at hd'
    cases hc'
    cases hd'
    exact .inl (hr ▸ hf)

theorem child?_endOutput {s : Supervisor σ ρ} {g : Nat} {c : Child} (h : s.child? g = some c)
    (d : Child) : (s.endOutput listener g d).child? g = some { d with reading := false } :=
  child?_setChild h _

theorem endOutput_turn {s : Supervisor σ ρ} {g : Nat} {c d : Child} (h : s.child? g = some c)
    (hcd : c.Grows d) : Turn g s (s.endOutput listener g d) := by
  have hnew := child?_endOutput listener h d
  exact {
    frame := endOutput_frame listener s g d
    others := fun g' hne => child?_setChild_ne (child?_le h).1 hne _
    grows := fun c' hc' => by
      rw [h] at hc'
      cases hc'
      exact ⟨_, hnew, hcd.temper, hcd.alive, fun hf => Bool.noConfusion hf⟩
    ended := .inr ⟨(child?_le h).2, rfl⟩
    still := fun d' hd' hr => by
      rw [hnew] at hd'
      cases hd'
      exact Bool.noConfusion hr
    shut := fun _ _ _ _ _ => .inr (Nat.le_max_right _ _) }

/-- What an act of a child comes to: nothing, another state of the child whose output is read or not
as before, a report to the owner, or the end of the output. No greeting is taken back. -/
inductive Effect (g : Nat) (s : Supervisor σ ρ) : Supervisor σ ρ → Prop
  | nothing : Effect g s s
  | becomes {c d : Child} : s.child? g = some c → c.Grows d → d.reading = c.reading →
    (c.greeting.isSome = true → d.greeting.isSome = true) → Effect g s (s.setChild g d)
  | reports {line : String} {owner : ρ} : listener.heard s.owner g line = some owner →
    Effect g s { s with owner }
  | ends {c d : Child} : s.child? g = some c → c.Grows d → d.greeting = c.greeting →
    Effect g s (s.endOutput listener g d)

theorem hear_effect {s : Supervisor σ ρ} {g : Nat} {c : Child} (h : s.child? g = some c)
    (line : String) : Effect listener g s (s.hear listener g c line) := by
  unfold hear
  dsimp only
  split
  · exact .nothing
  · split
    · exact .becomes h ⟨rfl, id, id⟩ rfl fun _ => rfl
    · split
      · exact .reports ‹_›
      · exact .ends h (.refl c) rfl

theorem act_effect (g : Nat) (s : Supervisor σ ρ) (a : Act) :
    Effect listener g s (s.act listener g a) := by
  unfold act
  split
  · exact .nothing
  · rename_i c hc
    cases a with
    | print line =>
      dsimp only
      split
      · exact hear_effect listener hc line
      · exact .nothing
    | closeOutput =>
      dsimp only
      split
      · exact .ends hc (.refl c) rfl
      · exact .nothing
    | exit code =>
      have hcd : c.Grows { c with exitCode := c.exitCode.or (some code) } :=
        ⟨rfl, fun h => by cases he : c.exitCode <;> simp [Child.isAlive, he] at h ⊢, id⟩
      dsimp only
      split
      · exact .ends hc hcd rfl
      · exact .becomes hc hcd rfl id

theorem act_turn (g : Nat) (s : Supervisor σ ρ) (a : Act) : Turn g s (s.act listener g a) := by
  generalize ht : s.act listener g a = t
  cases ht ▸ act_effect listener g s a with
  | nothing => exact .refl g s
  | becomes hc hcd hr => exact setChild_turn hc hcd hr
  | reports => exact .of_children ⟨rfl, rfl, rfl, rfl, rfl, rfl⟩ rfl rfl
  | ends hc hcd => exact endOutput_turn listener hc hcd

theorem acts_turn (g : Nat) (as : List Act) (s : Supervisor σ ρ) :
    Turn g s (s.acts listener g as) := by
  induction as generalizing s with
  | nil => exact .refl g s
  | cons a as ih => exact (act_turn listener g s a).trans (ih _)

end Supervisor

end AssemblyBrowser
