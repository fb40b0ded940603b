import AssemblyBrowser.Proofs.OrderedMap
import AssemblyBrowser.Proofs.Engine.Session
/-!
The assemblies that a session remembers. Each was accepted by an engine, and while an engine is
installed each was accepted by that one; an assembly is forgotten only when it is unloaded or when a
new engine refuses it.

The invariant is carried through the reload, where the assemblies still to come are held by older
engines only.
-/
namespace AssemblyBrowser

namespace Session

variable {σ : Type}

/-- The engine of a generation was asked to load an assembly and has answered. -/
def LoadAnswered (s : Session σ) (g : Nat) (path : String) (answer : Answer) : Prop :=
  ∃ id, s.Wrote g id .load (loadArguments path) ∧ s.Answered g id answer

/-- The engine of a generation accepted an assembly. -/
def Held (s : Session σ) (g : Nat) (path : String) : Prop :=
  ∃ body, s.LoadAnswered g path (.success body)

def Refused (s : Session σ) (g : Nat) (path : String) : Prop :=
  ∃ code message, s.LoadAnswered g path (.failure code message)

/-- An assembly was accepted by an engine and refused by a later one. -/
def Forgotten (s : Session σ) (path : String) : Prop :=
  ∃ g g', g < g' ∧ g' ≤ s.generation ∧ s.Held g path ∧ s.Refused g' path

variable {s t u : Session σ}

theorem Ages.loadAnswered (h : s.Ages t) {g : Nat} {path : String} {answer : Answer}
    (ha : s.LoadAnswered g path answer) : t.LoadAnswered g path answer := by
  obtain ⟨id, hw, c, hc, hs⟩ := ha
  obtain ⟨c', hc', hage⟩ := h.link g c hc
  exact ⟨id, h.log.subset hw, c', hc', hage.settled id _ hs⟩

theorem Ages.held (h : s.Ages t) {g : Nat} {path : String} (hh : s.Held g path) : t.Held g path :=
  hh.imp fun _ => h.loadAnswered

theorem Ages.forgotten (h : s.Ages t) {path : String} (hf : s.Forgotten path) :
    t.Forgotten path := by
  obtain ⟨g, g', hlt, hle, hheld, code, message, hr⟩ := hf
  exact ⟨g, g', hlt, Nat.le_trans hle h.generation, h.held hheld, code, message, h.loadAnswered hr⟩

/-- A session later that remembers no other assemblies and forgets only those that are refused. -/
structure Forgets (s t : Session σ) : Prop where
  sound : t.Sound
  ages : s.Ages t
  fewer : ∀ p ∈ t.loadedAssemblies, p ∈ s.loadedAssemblies
  forgotten : ∀ p ∈ s.loadedAssemblies, p ∈ t.loadedAssemblies ∨ t.Forgotten p

theorem Moves.forgets (h : s.Moves t) : s.Forgets t := by
  have hl := h.loadedAssemblies
  exact ⟨h.sound, h.ages, fun p hp => hl ▸ hp, fun p hp => .inl (hl ▸ hp)⟩

theorem Forgets.trans (h : s.Forgets t) (h' : t.Forgets u) : s.Forgets u where
  sound := h'.sound
  ages := h.ages.trans h'.ages
  fewer p hp := h.fewer p (h'.fewer p hp)
  forgotten p hp := by
    cases h.forgotten p hp with
    | inl hp => exact h'.forgotten p hp
    | inr hf => exact .inr (h'.ages.forgotten hf)

/-- What is remembered may be changed freely. -/
theorem Sound.mapLoaded (h : s.Sound) (f : OrderedMap String Member → OrderedMap String Member) :
    (s.mapLink fun l => { l with loaded := f l.loaded }).Sound ∧
      s.Ages (s.mapLink fun l => { l with loaded := f l.loaded }) :=
  ⟨⟨⟨h.link.channels, h.link.nodup, h.link.installed⟩, h.channels, h.current, h.ended⟩,
    rfl, rfl, List.prefix_refl _, Nat.le_refl _, .of_channels rfl⟩

theorem mem_unload {path p : String} :
    p ∈ (s.unload path).loadedAssemblies ↔ p ∈ s.loadedAssemblies ∧ p ≠ path := by
  have : (s.unload path).loadedAssemblies = s.loadedAssemblies.filter fun k => k ≠ path :=
    OrderedMap.keys_erase s.link.loaded path
  rw [this, List.mem_filter, decide_eq_true_eq]

theorem mem_remember {path p : String} {m : Member} :
    p ∈ (s.remember path m).loadedAssemblies ↔ p ∈ s.loadedAssemblies ∨ p = path := by
  have : (s.remember path m).loadedAssemblies =
      if path ∈ s.loadedAssemblies then s.loadedAssemblies else s.loadedAssemblies ++ [path] :=
    OrderedMap.keys_put s.link.loaded path m
  rw [this]
  split
  · rename_i hp
    exact ⟨.inl, fun h => h.elim id fun e => e ▸ hp⟩
  · simp

/-- An assembly that a later engine refuses is forgotten. -/
theorem Sound.unload_forgets (h : s.Sound) (path : String)
    (hf : path ∈ s.loadedAssemblies → s.Forgotten path) : s.Forgets (s.unload path) := by
  obtain ⟨hs, ha⟩ := h.mapLoaded (·.erase path)
  have ha : s.Ages (s.unload path) := ha
  refine ⟨hs, ha, fun p hp => (mem_unload.mp hp).1, fun p hp => ?_⟩
  by_cases he : p = path
  · exact .inr (ha.forgotten (he ▸ hf (he ▸ hp)))
  · exact .inl (mem_unload.mpr ⟨hp, he⟩)

/-- A session whose assemblies are loaded again: an older engine held all that is remembered, and
the new one holds what is not left to be loaded. -/
structure Reloading (g : Nat) (left : List String) (s : Session σ) : Prop where
  sound : s.Sound
  usable : s.settings.requestTimeout.IsUsable
  installed : s.link.installed = some g
  older : ∀ p ∈ s.loadedAssemblies, ∃ g₀ < g, s.Held g₀ p
  newer : ∀ p ∈ s.loadedAssemblies, p ∈ left ∨ s.Held g p

namespace Reloading

variable {g : Nat} {path : String} {left : List String}

theorem stays (h : s.Reloading g left) (hs : s.Stays t) : t.Reloading g left where
  sound := hs.moves.sound
  usable := hs.moves.ages.settings ▸ h.usable
  installed := hs.installed.trans h.installed
  older p hp := by
    obtain ⟨g₀, hlt, hh⟩ := h.older p (hs.moves.loadedAssemblies ▸ hp)
    exact ⟨g₀, hlt, hs.moves.ages.held hh⟩
  newer p hp := (h.newer p (hs.moves.loadedAssemblies ▸ hp)).imp_right hs.moves.ages.held

theorem cases (h : s.Reloading g (path :: left)) {p : String} (hp : p ∈ s.loadedAssemblies) :
    p = path ∨ p ∈ left ∨ s.Held g p := by
  cases h.newer p hp with
  | inl hm => exact (List.mem_cons.mp hm).imp_right .inl
  | inr hheld => exact .inr (.inr hheld)

/-- A path that the new engine holds is not left any more. -/
theorem accept (h : s.Reloading g (path :: left)) (hh : s.Held g path) : s.Reloading g left where
  sound := h.sound
  usable := h.usable
  installed := h.installed
  older := h.older
  newer p hp := by
    obtain rfl | hp := h.cases hp
    · exact .inr hh
    · exact hp

/-- A path that the new engine refuses is forgotten. -/
theorem refuse (h : s.Reloading g (path :: left)) {code : Option String} {message : String}
    (hr : s.LoadAnswered g path (.failure code message)) :
    s.Forgets (s.unload path) ∧ (s.unload path).Reloading g left := by
  have hf := h.sound.unload_forgets path fun hp => by
    obtain ⟨g₀, hlt, hh⟩ := h.older path hp
    exact ⟨g₀, g, hlt, Nat.le_of_eq (h.sound.current g h.installed), hh, code, message, hr⟩
  refine ⟨hf, hf.sound, h.usable, h.installed, fun p hp => ?_, fun p hp => ?_⟩
  · obtain ⟨g₀, hlt, hh⟩ := h.older p (hf.fewer p hp)
    exact ⟨g₀, hlt, hf.ages.held hh⟩
  · obtain ⟨hm, hne⟩ := mem_unload.mp hp
    exact ((h.cases hm).resolve_left hne).imp_right hf.ages.held

end Reloading

section

variable (program : Program σ)

/-- One path after another is loaded and settled. -/
theorem reload_cons (g : Nat) (path : String) (rest : List String) (s : Session σ) :
    (reload program g (path :: rest)).runFrom s =
      match settleReload path ((send program g .load (loadArguments path)).runFrom s).1
          ((send program g .load (loadArguments path)).runFrom s).2 with
      | (.ok _, t) => (reload program g rest).runFrom t
      | (.error f, t) => (.error f, t) := by
  rw [reload, Attempt.runFrom_bind, Attempt.runFrom_outcome]
  simp only
  rw [Attempt.runFrom_bind]
  cases hs : settleReload path ((send program g .load (loadArguments path)).runFrom s).1
      ((send program g .load (loadArguments path)).runFrom s).2 with
  | mk r t =>
    have hs : Attempt.runFrom
        (settleReload path ((send program g .load (loadArguments path)).runFrom s).1)
        ((send program g .load (loadArguments path)).runFrom s).2 = (r, t) := hs
    rw [hs]
    cases r <;> rfl

/-- Once its request has ended, a path is no longer left, or the engine is gone. -/
theorem Reloading.settle {g : Nat} {path : String} {rest : List String}
    (h : s.Reloading g (path :: rest)) :
    let r := (send program g .load (loadArguments path)).runFrom s
    let r' := settleReload path r.1 r.2
    s.Forgets r'.2 ∧
      match r'.1 with
      | .ok () => r'.2.Reloading g rest
      | .error _ => r'.2.link.installed = none := by
  obtain ⟨hstays, hr⟩ := h.sound.send program h.usable g .load (loadArguments path)
  generalize (send program g .load (loadArguments path)).runFrom s = r at hstays hr ⊢
  obtain ⟨r, t⟩ := r
  have ht : t.Reloading g (path :: rest) := h.stays hstays
  cases r with
  | error f =>
    obtain ⟨e, rfl⟩ := hr
    obtain ⟨hdown, hgone, -⟩ := ht.sound.teardown reloadFailed
    exact ⟨(hstays.moves.trans hdown).forgets, hgone⟩
  | ok answer =>
    have hanswered : t.LoadAnswered g path answer := hr
    cases answer with
    | success body => exact ⟨hstays.moves.forgets, ht.accept ⟨body, hanswered⟩⟩
    | failure code message =>
      obtain ⟨hf, hrest⟩ := ht.refuse hanswered
      exact ⟨hstays.moves.forgets.trans hf, hrest⟩

/-- After a reload all that is still remembered is held by the new engine, or the engine is gone. -/
theorem reload_held {g : Nat} (paths : List String) : ∀ {s : Session σ}, s.Reloading g paths →
    let t := ((reload program g paths).runFrom s).2
    s.Forgets t ∧
      match ((reload program g paths).runFrom s).1 with
      | .ok () => t.link.installed = some g ∧ ∀ p ∈ t.loadedAssemblies, t.Held g p
      | .error _ => t.link.installed = none := by
  induction paths with
  | nil =>
    intro s h
    refine ⟨h.sound.refl.forgets, h.installed, fun p hp => ?_⟩
    exact (h.newer p hp).elim (fun hp => by cases hp) id
  | cons path rest ih =>
    intro s h
    rw [reload_cons]
    obtain ⟨hf, hr⟩ := h.settle program
    generalize settleReload path _ _ = r at hf hr ⊢
    obtain ⟨r, t⟩ := r
    cases r with
    | error f => exact ⟨hf, hr⟩
    | ok u =>
      obtain ⟨hf', hr'⟩ := ih hr
      exact ⟨hf.trans hf', hr'⟩

/-! ## The invariant -/

/-- All that is remembered was accepted, and by the engine of now if there is one. -/
structure Stocked (s : Session σ) : Prop where
  sound : s.Sound
  usable : s.settings.requestTimeout.IsUsable
  accepted : ∀ p ∈ s.loadedAssemblies, ∃ g ≤ s.generation, s.Held g p
  held : ∀ g, s.link.installed = some g → ∀ p ∈ s.loadedAssemblies, s.Held g p

/-- A stocked session later, which has forgotten only what was refused. -/
structure Works (s t : Session σ) : Prop where
  stocked : t.Stocked
  ages : s.Ages t
  forgotten : ∀ p ∈ s.loadedAssemblies, p ∈ t.loadedAssemblies ∨ t.Forgotten p

theorem Stocked.refl (h : s.Stocked) : s.Works s := ⟨h, .refl s, fun _ hp => .inl hp⟩

theorem Works.trans (h : s.Works t) (h' : t.Works u) : s.Works u where
  stocked := h'.stocked
  ages := h.ages.trans h'.ages
  forgotten p hp := by
    cases h.forgotten p hp with
    | inl hp => exact h'.forgotten p hp
    | inr hf => exact .inr (h'.ages.forgotten hf)

theorem Stocked.of_trace (h : s.Stocked) (trace : Option (List TraceRecord)) :
    ({ s with trace } : Session σ).Stocked :=
  ⟨h.sound.of_trace trace, h.usable, h.accepted, h.held⟩

theorem Works.of_trace (h : s.Works t) (trace trace' : Option (List TraceRecord)) :
    ({ s with trace } : Session σ).Works { t with trace := trace' } :=
  ⟨h.stocked.of_trace trace',
    ⟨h.ages.settings, h.ages.options, h.ages.log, h.ages.generation, h.ages.link⟩, h.forgotten⟩

theorem Stocked.forgets (h : s.Stocked) (hf : s.Forgets t)
    (hheld : ∀ g, t.link.installed = some g → ∀ p ∈ t.loadedAssemblies, t.Held g p) :
    s.Works t where
  stocked := by
    refine ⟨hf.sound, hf.ages.settings ▸ h.usable, fun p hp => ?_, hheld⟩
    obtain ⟨g, hle, hh⟩ := h.accepted p (hf.fewer p hp)
    exact ⟨g, Nat.le_trans hle hf.ages.generation, hf.ages.held hh⟩
  ages := hf.ages
  forgotten := hf.forgotten

theorem Stocked.moves (h : s.Stocked) (hm : s.Moves t)
    (hi : t.link.installed = none ∨ t.link.installed = s.link.installed) : s.Works t := by
  refine h.forgets hm.forgets fun g hg p hp => ?_
  cases hi with
  | inl hn => rw [hn] at hg; cases hg
  | inr hi => exact hm.ages.held (h.held g (hi ▸ hg) p (hm.forgets.fewer p hp))

/-- A session that keeps its invariant, whatever it does and however that ends. -/
def Reliable {α : Type} (a : Attempt (Session σ) α) : Prop :=
  ∀ s : Session σ, s.Stocked → s.Works (a.runFrom s).2

/-- Tracing changes nothing but the trace. -/
theorem traced_run {α : Type} (op : TracedOperation) (arguments : List String) (shown : α → String)
    (a : Attempt (Session σ) α) (s : Session σ) : ∃ trace trace',
      (traced op arguments shown a).runFrom s =
        ((a.runFrom { s with trace }).1,
          { (a.runFrom { s with trace }).2 with trace := trace' }) := by
  refine ⟨s.trace.map (· ++ [.call op arguments]), ?_⟩
  simp only [Attempt.runFrom, ExceptT.run, traced]
  split
  · rename_i hr
    exact ⟨_, by rw [hr]⟩
  · rename_i hr
    exact ⟨_, by rw [hr]⟩

theorem Reliable.traced {α : Type} {a : Attempt (Session σ) α} (h : Reliable a)
    (op : TracedOperation) (arguments : List String) (shown : α → String) :
    Reliable (traced op arguments shown a) := by
  intro s hs
  obtain ⟨trace, trace', hr⟩ := traced_run op arguments shown a s
  rw [hr]
  exact (h _ (hs.of_trace trace)).of_trace s.trace trace'

theorem Reliable.bind {α β : Type} {a : Attempt (Session σ) α} {f : α → Attempt (Session σ) β}
    (h : Reliable a) (h' : ∀ v, Reliable (f v)) : Reliable (a >>= f) := by
  intro s hs
  have hw := h s hs
  rw [Attempt.runFrom_bind]
  cases ha : a.runFrom s with
  | mk r t =>
    rw [ha] at hw
    cases r with
    | error e => exact hw
    | ok v => exact hw.trans (h' v t hw.stocked)

theorem Reliable.pure {α : Type} (v : α) : Reliable (Pure.pure v : Attempt (Session σ) α) :=
  fun _ hs => hs.refl

theorem reliable_ofExcept {α : Type} (r : Except Failure α) :
    Reliable (Attempt.ofExcept r : Attempt (Session σ) α) := fun _ hs => hs.refl

theorem reliable_relaunch : Reliable (relaunch program) := by
  intro s hs
  obtain ⟨h₁, hl⟩ := hs.sound.launch program
  unfold relaunch
  rw [Attempt.runFrom_bind]
  cases hlaunch : (launch program).runFrom s with
  | mk r t =>
    rw [hlaunch] at h₁ hl
    cases r with
    | error f => exact hs.moves h₁ (.inl hl)
    | ok c =>
      obtain ⟨hi, hg, hlt⟩ := hl
      dsimp only
      rw [Attempt.runFrom_bind_ok (Attempt.runFrom_get t)]
      have hreload : t.Reloading c.generation t.loadedAssemblies := by
        refine ⟨h₁.sound, h₁.ages.settings ▸ hs.usable, hi, fun p hp => ?_, fun p hp => .inl hp⟩
        obtain ⟨g, hle, hh⟩ := hs.accepted p (h₁.forgets.fewer p hp)
        exact ⟨g, by omega, h₁.ages.held hh⟩
      obtain ⟨h₂, hr⟩ := reload_held program t.loadedAssemblies hreload
      refine hs.forgets (h₁.forgets.trans h₂) fun g hg' => ?_
      cases hres : ((reload program c.generation t.loadedAssemblies).runFrom t).1 with
      | error f =>
        rw [hres] at hr
        rw [hr] at hg'
        cases hg'
      | ok u =>
        rw [hres] at hr
        obtain rfl := Option.some.inj (hr.1.symm.trans hg')
        exact hr.2

/-- An engine found to have gone is marked, and that is all. -/
theorem Sound.isRunning (h : s.Sound) :
    s.Moves s.isRunning.2 ∧ s.isRunning.2.link.installed = s.link.installed := by
  unfold Session.isRunning
  split
  · exact ⟨h.refl, rfl⟩
  · split
    · exact ⟨h.refl, rfl⟩
    · split
      · exact ⟨h.refl, rfl⟩
      · have hc := h.link.markCrashed s.generation none
        exact ⟨h.mapLink (f := (·.markCrashed s.generation none)) hc, hc.frame.installed⟩

theorem isRunning_works (hs : s.Stocked) : s.Works s.isRunning.2 := by
  obtain ⟨hm, hi⟩ := hs.sound.isRunning
  exact hs.moves hm (.inr hi)

theorem reliable_runningNow : Reliable (runningNow : Attempt (Session σ) Bool) :=
  fun _ hs => isRunning_works hs

theorem reliable_ensureRunning : Reliable (ensureRunning program) := by
  refine Reliable.traced (.bind reliable_runningNow fun running => ?_) _ _ _
  cases running with
  | false => exact reliable_relaunch program
  | true => exact .pure _

theorem reliable_restart : Reliable (restart program) := (reliable_relaunch program).traced _ _ _

theorem reliable_stop : Reliable (stop : Attempt (Session σ) Unit) := by
  refine Reliable.traced (fun s hs => ?_) _ _ _
  obtain ⟨h, hn, -⟩ := hs.sound.teardown "engine stopped"
  exact hs.moves h (.inl hn)

/-! ## Requests -/

theorem giveUp_works (hs : s.Stocked) (g : Nat) (r : Except Failure Answer) :
    (giveUp g r s).1 = r ∧ s.Works (giveUp g r s).2 ∧
      ∀ answer, r = .ok answer → (giveUp g r s).2 = s := by
  unfold giveUp
  split
  · refine ⟨rfl, ?_, fun answer h => by cases h⟩
    dsimp only
    split
    · obtain ⟨h, hn, -⟩ := hs.sound.teardown timedOutReason
      exact hs.moves h (.inl hn)
    · exact hs.refl
  · exact ⟨rfl, hs.refl, fun _ _ => rfl⟩

/-- A request that is answered was written to the engine that is installed then. -/
theorem request_works (command : Command) (arguments : Fields) (hs : s.Stocked) :
    let t := ((request program command arguments).runFrom s).2
    s.Works t ∧ ∀ answer, ((request program command arguments).runFrom s).1 = .ok answer →
      ∃ g id, t.link.installed = some g ∧ t.Wrote g id command arguments ∧
        t.Answered g id answer := by
  have h₁ := reliable_ensureRunning program s hs
  unfold request
  rw [Attempt.runFrom_bind]
  cases hensure : (ensureRunning program).runFrom s with
  | mk r t =>
    rw [hensure] at h₁
    cases r with
    | error f => exact ⟨h₁, fun _ h => by cases h⟩
    | ok _ =>
      dsimp only
      rw [Attempt.runFrom_bind_ok (Attempt.runFrom_get t)]
      cases hi : t.link.installed with
      | none => exact ⟨h₁, fun _ h => by cases h⟩
      | some g =>
        dsimp only
        obtain ⟨h₂, hsend⟩ := h₁.stocked.sound.send program h₁.stocked.usable g command arguments
        rw [Attempt.runFrom_bind_ok (Attempt.runFrom_outcome _ t)]
        cases hres : (send program g command arguments).runFrom t with
        | mk r u =>
          rw [hres] at h₂ hsend
          have hw := h₁.stocked.moves h₂.moves (.inr h₂.installed)
          obtain ⟨hr, h₃, hsame⟩ := giveUp_works hw.stocked g r
          refine ⟨(h₁.trans hw).trans h₃, fun answer ha => ?_⟩
          obtain rfl : r = .ok answer := hr.symm.trans ha
          obtain ⟨id, hwrote, hanswer⟩ := hsend
          have hu : (giveUp g (.ok answer) u).2 = u := hsame answer rfl
          refine ⟨g, id, ?_⟩
          simp only [Attempt.runFrom, ExceptT.run] at hu ⊢
          rw [hu]
          exact ⟨h₂.installed.trans hi, hwrote, hanswer⟩

theorem remember_works (hs : s.Stocked) {g : Nat} {path : String} (hi : s.link.installed = some g)
    (hh : s.Held g path) (m : Member) : s.Works (s.remember path m) := by
  obtain ⟨hsound, ha⟩ := hs.sound.mapLoaded (·.put path m)
  have ha : s.Ages (s.remember path m) := ha
  refine ⟨⟨hsound, hs.usable, fun p hp => ?_, fun g' hg' p hp => ?_⟩, ha,
    fun p hp => .inl (mem_remember.mpr (.inl hp))⟩
  · cases mem_remember.mp hp with
    | inl hp =>
      obtain ⟨g₀, hle, hh₀⟩ := hs.accepted p hp
      exact ⟨g₀, hle, ha.held hh₀⟩
    | inr he => exact ⟨g, Nat.le_of_eq (hs.sound.current g hi), ha.held (he ▸ hh)⟩
  · have hg' : s.link.installed = some g' := hg'
    cases mem_remember.mp hp with
    | inl hp => exact ha.held (hs.held g' hg' p hp)
    | inr he =>
      obtain rfl := Option.some.inj (hi.symm.trans hg')
      exact ha.held (he ▸ hh)

/-- An assembly that is loaded is remembered. -/
theorem load_works (path : String) (hs : s.Stocked) :
    let t := ((load program path).runFrom s).2
    s.Works t ∧ ∀ m, ((load program path).runFrom s).1 = .ok m → path ∈ t.loadedAssemblies := by
  unfold load
  obtain ⟨trace, trace', hr⟩ := traced_run .load [Text.quoted path] Member.display (do
    let answer ← request program .load (loadArguments path)
    let m ← Attempt.ofExcept (loadResult path answer)
    modify (·.remember path m)
    return m) s
  rw [hr]
  obtain ⟨h₁, hanswer⟩ :=
    request_works program .load (loadArguments path) (hs.of_trace trace)
  rw [Attempt.runFrom_bind]
  cases hreq : (request program .load (loadArguments path)).runFrom { s with trace } with
  | mk r t =>
    rw [hreq] at h₁ hanswer
    cases r with
    | error f => exact ⟨h₁.of_trace s.trace trace', fun _ h => by cases h⟩
    | ok answer =>
      obtain ⟨g, id, hi, hwrote, hans⟩ := hanswer answer rfl
      dsimp only
      rw [Attempt.runFrom_bind, Attempt.runFrom_ofExcept]
      cases hres : loadResult path answer with
      | error f => exact ⟨h₁.of_trace s.trace trace', fun _ h => by cases h⟩
      | ok m =>
        cases answer with
        | failure code message => cases hres
        | success body =>
          have h₂ := remember_works h₁.stocked hi ⟨body, id, hwrote, hans⟩ m
          exact ⟨(h₁.trans h₂).of_trace s.trace trace', fun _ _ => mem_remember.mpr (.inr rfl)⟩

theorem reliable_request (command : Command) (arguments : Fields) :
    Reliable (request program command arguments) :=
  fun _ hs => (request_works program command arguments hs).1

theorem reliable_children (key : String) (assembly : Option String) :
    Reliable (children program key assembly) :=
  Reliable.traced (.bind (reliable_request program _ _) fun _ => reliable_ofExcept _) _ _ _

theorem languageOf_name (l : Language) : languageOf (some (.text l.name)) = .ok l := by
  cases l <;> rfl

theorem reliable_decompile (key : String) (language : Option Json) (assembly : Option String) :
    Reliable (decompile program key language assembly) :=
  Reliable.traced (.bind (reliable_ofExcept _) fun _ =>
    .bind (reliable_request program _ _) fun _ => reliable_ofExcept _) _ _ _

/-- An assembly that is unloaded is remembered no longer, and nothing else is forgotten. -/
theorem unload_stocked (hs : s.Stocked) (path : String) :
    (s.unload path).Stocked ∧ s.Ages (s.unload path) := by
  obtain ⟨hsound, ha⟩ := hs.sound.mapLoaded (·.erase path)
  have ha : s.Ages (s.unload path) := ha
  refine ⟨⟨hsound, hs.usable, fun p hp => ?_, fun g hg p hp => ?_⟩, ha⟩
  · obtain ⟨g, hle, hh⟩ := hs.accepted p (mem_unload.mp hp).1
    exact ⟨g, hle, ha.held hh⟩
  · exact ha.held (hs.held g hg p (mem_unload.mp hp).1)

theorem happen_works (hs : s.Stocked) (g : Nat) (as : List Act) :
    s.Works { s with supervisor := s.supervisor.happen Link.listener g as } := by
  obtain ⟨hm, hi⟩ := hs.sound.onSupervisor
    (Supervisor.acts_ages Link.listener_respects g as s.supervisor)
    (.inr (Supervisor.acts_turn Link.listener g as s.supervisor).frame.generation)
  exact hs.moves hm (.inr hi)

theorem stocked_new (settings : EngineSettings) (locator : Option Locator)
    (environment : OrderedMap String String) (w : σ) (traced : Bool)
    (hw : settings.requestTimeout.IsUsable) :
    (Session.new settings locator environment w traced).Stocked where
  sound := sound_new settings locator environment w traced
  usable := hw
  accepted _ hp := by cases hp
  held _ hg := by cases hg

end

end Session

end AssemblyBrowser
