import AssemblyBrowser.Proofs.Engine.Reload
import AssemblyBrowser.Proofs.Tree.Paths
import AssemblyBrowser.Proofs.Tree.Session
/-!
What a tree shows and what the engine of its session holds. Main statement: while the engine runs,
an assembly in the tree was accepted by it, unless an engine refused to load the assembly again. A
refused assembly is forgotten by the session and stays in the tree.
-/
namespace AssemblyBrowser

variable {σ : Type}

/-- Everything in the tree is remembered by the session or was refused by an engine. -/
structure Forest.Coherent (s : Forest (Session σ)) : Prop where
  idle : s.tree.flights = []
  stocked : s.world.Stocked
  known : ∀ p ∈ s.tree.paths, p ∈ s.world.loadedAssemblies ∨ s.world.Forgotten p

namespace Session

theorem Works.known {s t : Session σ} (h : s.Works t) {p : String}
    (hp : p ∈ s.loadedAssemblies ∨ s.Forgotten p) : p ∈ t.loadedAssemblies ∨ t.Forgotten p :=
  hp.elim (h.forgotten p) fun hf => .inr (h.ages.forgotten hf)

variable (program : Program σ)

/-- After a call the session still knows the assemblies that the tree shows then. -/
theorem backend_known (c : Call) {s : Session σ} (hs : s.Stocked) (t : Tree)
    (ht : ∀ p ∈ t.paths, p ∈ s.loadedAssemblies ∨ s.Forgotten p) :
    let r := (backend program c).runFrom s
    r.2.Stocked ∧ ∀ p ∈ t.pathsAfter c r.1, p ∈ r.2.loadedAssemblies ∨ r.2.Forgotten p := by
  have hkeep : ∀ {u : Session σ}, s.Works u →
      u.Stocked ∧ ∀ p ∈ t.paths, p ∈ u.loadedAssemblies ∨ u.Forgotten p := fun hw =>
    ⟨hw.stocked, fun p hp => hw.known (ht p hp)⟩
  cases c with
  | load path =>
    obtain ⟨hw, hloaded⟩ := load_works program path hs
    refine ⟨hw.stocked, fun p hp => ?_⟩
    cases hres : ((backend program (.load path)).runFrom s).1 with
    | error f =>
      rw [hres] at hp
      exact (hkeep hw).2 p hp
    | ok m =>
      rw [hres] at hp
      cases List.mem_append.mp hp with
      | inl hp => exact (hkeep hw).2 p hp
      | inr hp => exact .inl (List.mem_singleton.mp hp ▸ hloaded m hres)
  | enumerate key assembly => exact hkeep (reliable_children program key (some assembly) s hs)
  | decompile key l assembly => exact hkeep (reliable_decompile program key _ _ s hs)
  | unload path =>
    obtain ⟨hstocked, hage⟩ := unload_stocked hs path
    refine ⟨hstocked, fun p hp => ?_⟩
    obtain ⟨hp, hne⟩ := List.mem_filter.mp hp
    cases ht p hp with
    | inl hp => exact .inl (mem_unload.mpr ⟨hp, by simpa using hne⟩)
    | inr hf => exact .inr (hage.forgotten hf)
  | stop => exact hkeep (reliable_stop s hs)

theorem interlude_works (i : Interlude) {s : Session σ} (hs : s.Stocked) :
    s.Works (i.after program s) := by
  cases i with
  | ensureRunning => exact reliable_ensureRunning program s hs
  | restart => exact reliable_restart program s hs
  | stop => exact reliable_stop s hs
  | status => exact isRunning_works hs
  | happen g acts => exact happen_works hs g acts

end Session

namespace Forest

variable (program : Program σ)

theorem Coherent.perform {s : Forest (Session σ)} (h : s.Coherent) (p : TreeOperation) :
    ((p.perform (Session.engine program)).runFrom s).2.Coherent := by
  rw [Session.engine_eq, perform_run _ h.idle]
  have hpaths := Tree.plan_paths h.idle p
  cases hplan : s.tree.plan p with
  | settled r t =>
    rw [hplan] at hpaths
    exact ⟨hpaths.1, h.stocked, fun q hq => h.known q (hpaths.2 ▸ hq)⟩
  | asks c finish =>
    rw [hplan] at hpaths
    obtain ⟨hidle, hp⟩ := hpaths ((Session.backend program c).runFrom s.world).1
    obtain ⟨hstocked, hknown⟩ := Session.backend_known program c h.stocked s.tree h.known
    exact ⟨hidle, hstocked, fun q hq => hknown q (hp ▸ hq)⟩

theorem Coherent.browse (xs : List Occurrence) :
    ∀ {s : Forest (Session σ)}, s.Coherent → (browse program xs s).2.Coherent := by
  induction xs with
  | nil => exact fun h => h
  | cons x xs ih =>
    intro s h
    cases x with
    | operation p => exact ih (h.perform program p)
    | interlude i =>
      have hw := Session.interlude_works program i h.stocked
      exact ih (s := { s with world := i.after program s.world })
        ⟨h.idle, hw.stocked, fun p hp => hw.known (h.known p hp)⟩

theorem coherent_planted (l : Language) {s : Session σ} (h : s.Stocked) :
    (s.planted l).Coherent := ⟨rfl, h, fun p hp => by cases hp⟩

theorem running_installed {s : Session σ} (hs : s.Sound) (hr : s.isRunning.1 = true) :
    s.link.installed = some s.generation := by
  unfold Session.isRunning at hr
  cases hi : s.link.installed with
  | none => simp [Link.installed?, hi] at hr
  | some g => rw [hs.current g hi]

/-- While the engine runs, it has accepted every assembly in the tree that the session remembers;
any other was accepted by an earlier engine and refused by a later one. -/
theorem shown_is_held_or_forgotten (settings : EngineSettings)
    (hw : settings.requestTimeout.IsUsable) (locator : Option Locator)
    (environment : OrderedMap String String) (w : σ) (traced : Bool) (l : Language)
    (xs : List Occurrence) :
    let s := (browse program xs
      ((Session.new settings locator environment w traced).planted l)).2
    s.world.isRunning.1 = true → ∀ p ∈ s.tree.paths,
      (p ∈ s.world.loadedAssemblies ∧ s.world.Held s.world.generation p) ∨
        (p ∉ s.world.loadedAssemblies ∧ s.world.Forgotten p) := by
  intro s hr p hp
  have hs : s.Coherent := (coherent_planted l
    (Session.stocked_new settings locator environment w traced hw)).browse program xs
  have hi := running_installed hs.stocked.sound hr
  by_cases hm : p ∈ s.world.loadedAssemblies
  · exact .inl ⟨hm, hs.stocked.held _ hi p hm⟩
  · exact .inr ⟨hm, (hs.known p hp).resolve_left hm⟩

end Forest

/-! ## An engine that refuses what it accepted before -/

/-- The first process loads every assembly, the later ones load none. -/
def fickle : Program Unit where
  launch w := (.started {} [.print "\x7b\"event\": \"ready\"\x7d"], w)
  react w g _ :=
    let answer := if g = 1 then
      "\x7b\"id\":1,\"success\":true,\"body\":" ++
        "\x7b\"assembly\":\x7b\"key\":\"k\",\"name\":\"n\",\"kind\":\"assembly\"\x7d\x7d\x7d"
      else "\x7b\"id\":1,\"success\":false,\"error\":\x7b\x7d\x7d"
    (⟨[.print answer], none⟩, w)

def fickleSession : Session Unit := .new plainSettings none ∅ () false

/-- What there is after one assembly has been added. -/
def fickleForest : Forest (Session Unit) :=
  (browse fickle [.operation (.add "a.dll")] (fickleSession.planted .csharp)).2

/-- The same session, written out. -/
def loadedSession : Session Unit where
  settings := plainSettings
  locator := none
  supervisor :=
    { options := ⟨some ["engine"], 30, ∅⟩
      program := ()
      owner :=
        { state := .running
          channels := [{
            generation := 1, timeout := 60, nextId := 2
            settled := [(1, .ok ⟨1, .success [("assembly", .object
              [("key", .text "k"), ("name", .text "n"), ("kind", .text "assembly")])]⟩)] }]
          installed := some 1
          loaded := (∅ : OrderedMap String Member).put "a.dll" ⟨"k", "n", .assembly, none⟩ }
      children := [{ number := 1, temper := {}, greeting := some "\x7b\"event\": \"ready\"\x7d" }]
      held := some 1
      attempts := 1
      log := [.spawn ["engine"] ∅,
        .write 1 (Request.encode ⟨1, .load, Session.loadArguments "a.dll"⟩)] }

theorem browse_append (program : Program σ) (xs ys : List Occurrence) (s : Forest (Session σ)) :
    (browse program (xs ++ ys) s).2 = (browse program ys (browse program xs s).2).2 := by
  induction xs generalizing s with
  | nil => rfl
  | cons x xs ih =>
    cases x with
    | operation p => exact ih _
    | interlude i => exact ih _

theorem fickleForest_world : fickleForest.world = loadedSession := by
  obtain ⟨h₁, h₂, h₃, h₄, h₅, h₆, h₇, h₈, h₉, h₁₀, h₁₁, h₁₂, h₁₃⟩ :
      fickleForest.world.settings = loadedSession.settings ∧
      fickleForest.world.locator = loadedSession.locator ∧
      fickleForest.world.trace = loadedSession.trace ∧
      fickleForest.world.supervisor.options = loadedSession.supervisor.options ∧
      fickleForest.world.link.state = loadedSession.link.state ∧
      fickleForest.world.link.channels = loadedSession.link.channels ∧
      fickleForest.world.link.installed = loadedSession.link.installed ∧
      fickleForest.world.link.loaded = loadedSession.link.loaded ∧
      fickleForest.world.supervisor.children = loadedSession.supervisor.children ∧
      fickleForest.world.supervisor.held = loadedSession.supervisor.held ∧
      fickleForest.world.supervisor.endedGeneration = loadedSession.supervisor.endedGeneration ∧
      fickleForest.world.supervisor.attempts = loadedSession.supervisor.attempts ∧
      fickleForest.world.supervisor.log = loadedSession.supervisor.log := by
    decide +kernel
  exact Session.eq_of_parts h₁ h₂ h₃ h₄ (Subsingleton.elim _ _) h₅ h₆ h₇ h₈ h₉ h₁₀ h₁₁ h₁₂ h₁₃

/-- What there is after the engine has been restarted. -/
def refusedForest : Forest (Session Unit) :=
  (browse fickle [.operation (.add "a.dll"), .interlude .restart] (fickleSession.planted .csharp)).2

theorem browse_restart (program : Program σ) (s : Forest (Session σ)) :
    (browse program [.interlude .restart] s).2 =
      { s with world := ((Session.restart program).runFrom s.world).2 } := rfl

theorem refusedForest_eq : refusedForest =
    { fickleForest with world := ((Session.restart fickle).runFrom loadedSession).2 } := by
  have h : refusedForest = (browse fickle [.interlude .restart] fickleForest).2 :=
    browse_append fickle [.operation (.add "a.dll")] [.interlude .restart] _
  rw [h, browse_restart, fickleForest_world]

theorem refusedForest_running : refusedForest.world.isRunning.1 = true := by
  rw [refusedForest_eq]
  decide +kernel

theorem refusedForest_paths : "a.dll" ∈ refusedForest.tree.paths := by
  rw [refusedForest_eq]
  decide +kernel

theorem refusedForest_settled :
    (refusedForest.world.link.channel? refusedForest.world.generation).map Channel.settled =
      some [(1, .ok ⟨1, .failure none "engine reported a failure"⟩)] := by
  rw [refusedForest_eq]
  decide +kernel

namespace Forest

/-- An assembly that the running engine has refused may still be in the tree. -/
theorem refused_still_shown :
    ¬∀ xs : List Occurrence,
      let s := (browse fickle xs (fickleSession.planted .csharp)).2
      s.world.isRunning.1 = true → ∀ p ∈ s.tree.paths, s.world.Held s.world.generation p := by
  intro h
  have hrefused := h [.operation (.add "a.dll"), .interlude .restart]
  dsimp only at hrefused
  rw [← refusedForest] at hrefused
  obtain ⟨body, id, -, c, hc, hs⟩ := hrefused refusedForest_running "a.dll" refusedForest_paths
  have hsettled := refusedForest_settled
  rw [hc, Option.map_some, Option.some.injEq] at hsettled
  have hm := Channel.mem_of_settlement hs
  rw [hsettled, List.mem_singleton] at hm
  simp at hm

theorem shown_is_held_or_forgotten_refused :
    plainSettings.requestTimeout.IsUsable ∧ refusedForest.world.isRunning.1 = true ∧
      "a.dll" ∈ refusedForest.tree.paths ∧
      (("a.dll" ∈ refusedForest.world.loadedAssemblies ∧
        refusedForest.world.Held refusedForest.world.generation "a.dll") ∨
      ("a.dll" ∉ refusedForest.world.loadedAssemblies ∧
        refusedForest.world.Forgotten "a.dll")) := by
  have hw : plainSettings.requestTimeout.IsUsable := ⟨by decide, 60000, by decide⟩
  have h := shown_is_held_or_forgotten fickle plainSettings hw none ∅ () false .csharp
    [.operation (.add "a.dll"), .interlude .restart]
  dsimp only at h
  rw [← fickleSession, ← refusedForest] at h
  exact ⟨hw, refusedForest_running, refusedForest_paths,
    h refusedForest_running "a.dll" refusedForest_paths⟩

end Forest

end AssemblyBrowser
