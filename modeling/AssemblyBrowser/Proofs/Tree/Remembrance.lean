import AssemblyBrowser.Proofs.Engine.Rejection
import AssemblyBrowser.Proofs.Tree.Holding
import Mathlib.Data.List.Induction
/-!
What a session remembers of a tree that is all its callers use to load assemblies. Main statement: at
any time the session remembers the assemblies in the tree, in their order, but for those whose reload
an engine has answered with a failure since they were added.
-/
namespace AssemblyBrowser

open Session

variable {σ : Type}

/-- The answers that engines give to reloads during a call. -/
def Call.answers (program : Program σ) (s : Session σ) : Call → List (String × Answer)
  | .load _ | .enumerate .. | .decompile .. => readyAnswers program s
  | .unload _ | .stop => []

/-- The answers that engines give to reloads meanwhile. -/
def Occurrence.answers (program : Program σ) (s : Forest (Session σ)) :
    Occurrence → List (String × Answer)
  | .operation p =>
    match s.tree.plan p with
    | .settled .. => []
    | .asks c _ => c.answers program s.world
  | .interlude .ensureRunning => readyAnswers program s.world
  | .interlude .restart => relaunchAnswers program s.world
  | .interlude .stop | .interlude .status | .interlude (.happen ..) => []

/-! ## One occurrence -/

namespace Session

/-- What is remembered of the assemblies in a tree, before and after engines have given these answers
to reloads: an assembly that is added is remembered, and one that is rejected is forgotten. -/
structure Recalls (answered : List (String × Answer)) (paths : List String) (s : Session σ)
    (paths' : List String) (t : Session σ) : Prop where
  sound : t.Sound
  ages : s.Ages t
  sublist : t.loadedAssemblies.Sublist paths'
  old : ∀ p ∈ paths', p ∈ paths →
    (p ∈ t.loadedAssemblies ↔ p ∈ s.loadedAssemblies ∧ p ∉ rejected answered)
  new : ∀ p ∈ paths', p ∉ paths → p ∈ t.loadedAssemblies
  heard : ∀ e ∈ answered, ∃ g, s.generation < g ∧ t.LoadAnswered g e.1 e.2

variable {s t : Session σ} {paths : List String}

theorem Sheds.recalls {answered : List (String × Answer)}
    (h : s.Sheds (s.generation + 1) answered t) (hsub : s.loadedAssemblies.Sublist paths) :
    Recalls answered paths s paths t where
  sound := h.sound
  ages := h.ages
  sublist := by
    rw [h.loaded]
    exact List.filter_sublist.trans hsub
  old p _ _ := by rw [h.loaded, List.mem_filter, decide_eq_true_eq]
  new p hp hnot := absurd hp hnot
  heard := h.heard

theorem Moves.recalls (h : s.Moves t) (hsub : s.loadedAssemblies.Sublist paths) :
    Recalls [] paths s paths t := (h.sheds _).recalls hsub

/-- An assembly that is loaded comes last, in the tree and in what is remembered. -/
theorem load_recalls (program : Program σ) {path : String} {tree : Tree} (hs : s.Sound)
    (hsub : s.loadedAssemblies.Sublist tree.paths) (hpath : path ∉ tree.paths) :
    let r := (load program path).runFrom s
    Recalls (readyAnswers program s) tree.paths s (tree.pathsAfter (.load path) r.1) r.2 := by
  obtain ⟨t, hsheds, hages, hsound, hloaded⟩ := load_sheds program path hs
  have ht := hsheds.recalls hsub
  intro r
  have hheard : ∀ e ∈ readyAnswers program s, ∃ g, s.generation < g ∧ r.2.LoadAnswered g e.1 e.2 := by
    intro e he
    obtain ⟨g, hlt, ha⟩ := ht.heard e he
    exact ⟨g, hlt, hages.loadAnswered ha⟩
  cases hr : r.1 with
  | error f =>
    have hsame : r.2.loadedAssemblies = t.loadedAssemblies := by
      rw [hr] at hloaded
      exact hloaded
    have hafter : tree.pathsAfter (.load path) (.error f) = tree.paths := rfl
    rw [hafter]
    refine ⟨hsound, ht.ages.trans hages, hsame ▸ ht.sublist, fun p hp hp' => ?_,
      fun p hp hnew => absurd hp hnew, hheard⟩
    rw [hsame]
    exact ht.old p hp hp'
  | ok m =>
    have hmore : r.2.loadedAssemblies = t.loadedAssemblies ++ [path] := by
      rw [hr] at hloaded
      exact hloaded.trans (if_neg fun hm => hpath (ht.sublist.subset hm))
    have hafter : tree.pathsAfter (.load path) (.ok m) = tree.paths ++ [path] := rfl
    rw [hafter]
    refine ⟨hsound, ht.ages.trans hages, ?_, fun p _ hp => ?_, fun p hp hnew => ?_, hheard⟩
    · rw [hmore]
      exact ht.sublist.append (List.Sublist.refl _)
    · have hne : p ≠ path := fun he => hpath (he ▸ hp)
      simp only [hmore, List.mem_append, List.mem_singleton, hne, or_false]
      exact ht.old p hp hp
    · rw [hmore]
      refine List.mem_append_right _ ?_
      exact (List.mem_append.mp hp).resolve_left hnew

theorem unload_recalls (hs : s.Sound) (hsub : s.loadedAssemblies.Sublist paths) (path : String) :
    Recalls [] paths s (paths.filter fun p => p ≠ path) (s.unload path) := by
  obtain ⟨hsound, hages⟩ := hs.mapLoaded (·.erase path)
  have hloaded : (s.unload path).loadedAssemblies = s.loadedAssemblies.filter fun p => p ≠ path :=
    OrderedMap.keys_erase s.link.loaded path
  refine ⟨hsound, hages, ?_, fun p hp _ => ?_, fun p hp hnew => ?_, fun e he => by cases he⟩
  · rw [hloaded]
    exact hsub.filter _
  · obtain ⟨-, hne⟩ := List.mem_filter.mp hp
    rw [hloaded, List.mem_filter]
    have hnone : p ∉ rejected [] := by simp [rejected]
    simp only [hne, and_true, hnone, not_false_eq_true]
  · exact absurd (List.mem_filter.mp hp).1 hnew

theorem interlude_recalls (program : Program σ) (i : Interlude) (s : Forest (Session σ))
    (hs : s.world.Sound) (hsub : s.world.loadedAssemblies.Sublist s.tree.paths) :
    Recalls ((Occurrence.interlude i).answers program s) s.tree.paths s.world s.tree.paths
      (i.after program s.world) := by
  cases i with
  | ensureRunning => exact (reloads_ensureRunning program _ hs).recalls hsub
  | restart => exact (reloads_restart program _ hs).recalls hsub
  | stop => exact (retains_stop _ hs).recalls hsub
  | status => exact hs.isRunning.1.recalls hsub
  | happen g acts => exact (hs.happen g acts).recalls hsub

/-- What a tree asks for is remembered as the tree shows it afterwards. -/
theorem backend_recalls (program : Program σ) (c : Call) (t : Tree) (hs : s.Sound)
    (hsub : s.loadedAssemblies.Sublist t.paths) (hnew : ∀ path, c = .load path → path ∉ t.paths) :
    let r := (backend program c).runFrom s
    Recalls (c.answers program s) t.paths s (t.pathsAfter c r.1) r.2 := by
  cases c with
  | load path => exact load_recalls program hs hsub (hnew path rfl)
  | enumerate key assembly => exact (reloads_children program key (some assembly) s hs).recalls hsub
  | decompile key l assembly => exact (reloads_decompile program key l (some assembly) s hs).recalls hsub
  | unload path => exact unload_recalls hs hsub path
  | stop => exact (retains_stop s hs).recalls hsub

end Session

/-- Only an assembly that is not in the tree is loaded, and only to be added. -/
theorem Tree.plan_load {t : Tree} {p : TreeOperation} {path : String}
    {finish : Except Failure Member → Except Failure p.Answer × Tree}
    (h : t.plan p = .asks (.load path) finish) : p = .add path ∧ path ∉ t.paths := by
  have hfetch : ∀ {α : Type} {id : NodeId} {kept : Node → Option α} {ask : Node → Plan α}
      {f : Except Failure Member → Except Failure α × Tree},
      (∀ n f, ask n ≠ .asks (.load path) f) → t.planFetch id kept ask ≠ .asks (.load path) f := by
    intro α id kept ask f hask hplan
    unfold planFetch at hplan
    split at hplan
    · cases hplan
    · split at hplan
      · cases hplan
      · split at hplan
        · exact hask _ _ hplan
        · cases hplan
  cases p with
  | add path' =>
    simp only [plan] at h
    split at h
    · cases h
    · rename_i hc
      cases h
      exact ⟨rfl, fun hm => hc ((t.roots.contains_iff path).mpr hm)⟩
  | remove path' =>
    simp only [plan] at h
    split at h <;> cases h
  | refresh => cases h
  | setLanguage name =>
    simp only [plan] at h
    split at h <;> cases h
  | children id =>
    refine absurd h (hfetch fun n f hask => ?_)
    split at hask <;> cases hask
  | code id => exact absurd h (hfetch fun n f hask => by cases hask)

namespace Forest

/-- Nobody uses the tree, and the session remembers nothing that the tree does not show. -/
structure Remembers (s : Forest (Session σ)) : Prop where
  idle : s.tree.flights = []
  sound : s.world.Sound
  sublist : s.world.loadedAssemblies.Sublist s.tree.paths

variable (program : Program σ) {s : Forest (Session σ)}

/-- What is remembered after one occurrence; an assembly comes into the tree only by being added. -/
theorem Remembers.occurs (h : s.Remembers) (x : Occurrence) :
    let t := (browse program [x] s).2
    t.tree.flights = [] ∧
      Recalls (x.answers program s) s.tree.paths s.world t.tree.paths t.world ∧
      ∀ p ∈ t.tree.paths, p ∉ s.tree.paths → x = .operation (.add p) := by
  cases x with
  | interlude i =>
    exact ⟨h.idle, interlude_recalls program i s h.sound h.sublist, fun p hp hnot => absurd hp hnot⟩
  | operation p =>
    intro t
    have ht : t = ((p.perform (Session.engine program)).runFrom s).2 := rfl
    rw [ht, Session.engine_eq, perform_run _ h.idle]
    have hpaths := Tree.plan_paths h.idle p
    unfold Occurrence.answers
    dsimp only
    cases hplan : s.tree.plan p with
    | settled r u =>
      rw [hplan] at hpaths
      obtain ⟨hidle, hsame⟩ := hpaths
      refine ⟨hidle, ?_, fun q hq hnot => absurd (hsame ▸ hq) hnot⟩
      have hrecalls := h.sound.refl.recalls h.sublist
      exact hsame.symm ▸ hrecalls
    | asks c finish =>
      rw [hplan] at hpaths
      obtain ⟨hidle, hafter⟩ := hpaths ((backend program c).runFrom s.world).1
      have hload : ∀ path, c = .load path → p = .add path ∧ path ∉ s.tree.paths := by
        rintro path rfl
        exact Tree.plan_load hplan
      have hrecalls := backend_recalls program c s.tree h.sound h.sublist fun path hc =>
        (hload path hc).2
      refine ⟨hidle, ?_, fun q hq hnot => ?_⟩
      · have hfollow : (follow (backend program) s (.asks c finish)).2.tree.paths =
          s.tree.pathsAfter c ((backend program c).runFrom s.world).1 := hafter
        rw [hfollow]
        exact hrecalls
      · have hq : q ∈ s.tree.pathsAfter c ((backend program c).runFrom s.world).1 := hafter ▸ hq
        cases c with
        | load path =>
          have hq : q = path := by
            unfold Tree.pathsAfter at hq
            split at hq
            · rename_i heq _
              cases heq
              exact List.mem_singleton.mp ((List.mem_append.mp hq).resolve_left hnot)
            · rename_i heq _
              cases heq
            · exact absurd hq hnot
          rw [(hload path rfl).1, hq]
        | unload path => exact absurd (List.mem_filter.mp hq).1 hnot
        | _ => exact absurd hq hnot

theorem Remembers.browse_one (h : s.Remembers) (x : Occurrence) :
    (browse program [x] s).2.Remembers := by
  obtain ⟨hidle, hrecalls, -⟩ := h.occurs program x
  exact ⟨hidle, hrecalls.sound, hrecalls.sublist⟩

/-- Induction on what happens; a session that has grown older still knows what was answered. -/
theorem Remembers.browse (xs : List Occurrence) : ∀ {s : Forest (Session σ)}, s.Remembers →
    (browse program xs s).2.Remembers ∧ s.world.Ages (browse program xs s).2.world := by
  induction xs with
  | nil => exact fun h => ⟨h, .refl _⟩
  | cons x xs ih =>
    intro s h
    obtain ⟨-, hrecalls, -⟩ := h.occurs program x
    obtain ⟨hr, hages⟩ := ih (h.browse_one program x)
    have happ := browse_append program [x] xs s
    rw [List.singleton_append] at happ
    rw [happ]
    exact ⟨hr, hrecalls.ages.trans hages⟩

/-! ## Since an assembly was added -/

/-- An assembly is added after the earlier occurrences, and it stays in the tree during the later
ones. -/
structure ShownSince (s : Forest (Session σ)) (p : String) (earlier later : List Occurrence) :
    Prop where
  before : p ∉ (AssemblyBrowser.browse program earlier s).2.tree.paths
  since : ∀ middle, middle <+: later →
    p ∈ (AssemblyBrowser.browse program (earlier ++ .operation (.add p) :: middle) s).2.tree.paths

/-- During one of the later occurrences an engine answers a reload of the assembly with a failure. -/
def RejectedSince (s : Forest (Session σ)) (p : String) (earlier later : List Occurrence) : Prop :=
  ∃ middle x rest, later = middle ++ x :: rest ∧ p ∈ rejected (x.answers program
    (AssemblyBrowser.browse program (earlier ++ .operation (.add p) :: middle) s).2)

variable {program}

theorem ShownSince.of_concat {p : String} {earlier later : List Occurrence} {x : Occurrence}
    (h : s.ShownSince program p earlier (later ++ [x])) : s.ShownSince program p earlier later :=
  ⟨h.before, fun middle hm => h.since middle (hm.trans (List.prefix_append later [x]))⟩

theorem rejectedSince_concat {p : String} {earlier later : List Occurrence} {x : Occurrence} :
    s.RejectedSince program p earlier (later ++ [x]) ↔ s.RejectedSince program p earlier later ∨
      p ∈ rejected (x.answers program
        (AssemblyBrowser.browse program (earlier ++ .operation (.add p) :: later) s).2) := by
  constructor
  · rintro ⟨middle, y, rest, hsplit, hr⟩
    rcases List.eq_nil_or_concat rest with rfl | ⟨rest, z, rfl⟩
    · obtain ⟨rfl, hy⟩ := List.append_inj' hsplit rfl
      obtain rfl := List.singleton_inj.mp hy
      exact .inr hr
    · have hassoc : later ++ [x] = (middle ++ y :: rest) ++ [z] := by
        rw [hsplit, List.concat_eq_append, List.append_assoc, List.cons_append]
      obtain ⟨rfl, -⟩ := List.append_inj' hassoc rfl
      exact .inl ⟨middle, y, rest, rfl, hr⟩
  · rintro (⟨middle, y, rest, rfl, hr⟩ | hr)
    · exact ⟨middle, y, rest ++ [x], by simp, hr⟩
    · exact ⟨later, x, [], rfl, hr⟩

variable (program)

/-- What is missing of the assemblies in a tree is what was rejected since it was added. -/
def Accounts (s₀ : Forest (Session σ)) (xs : List Occurrence) (p : String) : Prop :=
  (∃ earlier later, xs = earlier ++ .operation (.add p) :: later ∧
    s₀.ShownSince program p earlier later) ∧
  ∀ earlier later, xs = earlier ++ .operation (.add p) :: later →
    s₀.ShownSince program p earlier later →
    (p ∉ (AssemblyBrowser.browse program xs s₀).2.world.loadedAssemblies ↔
      s₀.RejectedSince program p earlier later)

/-- Induction on what happens, from its end: the last occurrence adds the assembly, or it comes after
the assembly was added. -/
theorem Remembers.accounts {s₀ : Forest (Session σ)} (h₀ : s₀.Remembers)
    (hnone : s₀.tree.paths = []) (xs : List Occurrence) :
    ∀ p ∈ (AssemblyBrowser.browse program xs s₀).2.tree.paths, s₀.Accounts program xs p := by
  induction xs using List.reverseRecOn with
  | nil =>
    intro p hp
    have hp : p ∈ s₀.tree.paths := hp
    rw [hnone] at hp
    cases hp
  | append_singleton xs x ih =>
    intro p hp
    obtain ⟨hs, -⟩ := h₀.browse program xs
    obtain ⟨-, hrecalls, hadded⟩ := hs.occurs program x
    unfold Accounts
    rw [browse_append] at hp ⊢
    by_cases hold : p ∈ (AssemblyBrowser.browse program xs s₀).2.tree.paths
    · obtain ⟨⟨earlier, later, hsplit, hshown⟩, hmissing⟩ := ih p hold
      refine ⟨⟨earlier, later ++ [x], by rw [hsplit]; simp, hshown.before, fun middle hm => ?_⟩,
        fun earlier' later' hsplit' hshown' => ?_⟩
      · rcases List.prefix_concat_iff.mp hm with rfl | hm
        · have hall : earlier ++ Occurrence.operation (.add p) :: (later ++ [x]) = xs ++ [x] := by
            rw [hsplit]
            simp
          rw [hall, browse_append]
          exact hp
        · exact hshown.since middle hm
      · rcases List.eq_nil_or_concat later' with rfl | ⟨later', y, rfl⟩
        · -- the assembly would be added only now
          obtain ⟨rfl, -⟩ := List.append_inj' hsplit' rfl
          exact absurd hold hshown'.before
        · have hassoc : xs ++ [x] = (earlier' ++ .operation (.add p) :: later') ++ [y] := by
            rw [hsplit', List.concat_eq_append, List.append_assoc, List.cons_append]
          obtain ⟨hxs, hy⟩ := List.append_inj' hassoc rfl
          obtain rfl := List.singleton_inj.mp hy
          rw [List.concat_eq_append] at hshown' ⊢
          rw [rejectedSince_concat, ← hmissing earlier' later' hxs hshown'.of_concat, ← hxs,
            hrecalls.old p hp hold, not_and_or, not_not]
    · have hx := hadded p hp hold
      refine ⟨⟨xs, [], by rw [hx], hold, fun middle hm => ?_⟩,
        fun earlier' later' hsplit' hshown' => ?_⟩
      · rw [List.prefix_nil.mp hm, ← hx, browse_append]
        exact hp
      · rcases List.eq_nil_or_concat later' with rfl | ⟨later', y, rfl⟩
        · have hyes := hrecalls.new p hp hold
          constructor
          · exact fun hno => absurd hyes hno
          · rintro ⟨middle, y, rest, hnil, -⟩
            cases middle <;> cases hnil
        · -- the assembly would have been in the tree before
          have hassoc : xs ++ [x] = (earlier' ++ .operation (.add p) :: later') ++ [y] := by
            rw [hsplit', List.concat_eq_append, List.append_assoc, List.cons_append]
          obtain ⟨hxs, -⟩ := List.append_inj' hassoc rfl
          have hwas := hshown'.since later' ⟨[y], (List.concat_eq_append).symm⟩
          rw [← hxs] at hwas
          exact absurd hwas hold

variable {program} in
/-- A rejection is the answer of an engine that was started after the assembly had been added. -/
theorem Remembers.refused {s₀ : Forest (Session σ)} (h₀ : s₀.Remembers) {p : String}
    {earlier later : List Occurrence} (h : s₀.RejectedSince program p earlier later) :
    ∃ g, (AssemblyBrowser.browse program (earlier ++ [.operation (.add p)]) s₀).2.world.generation < g ∧
      (AssemblyBrowser.browse program (earlier ++ .operation (.add p) :: later) s₀).2.world.Refused
        g p := by
  obtain ⟨middle, x, rest, rfl, hr⟩ := h
  obtain ⟨code, message, hm⟩ := mem_rejected.mp hr
  obtain ⟨hbefore, -⟩ := h₀.browse program (earlier ++ [.operation (.add p)])
  have happ : earlier ++ Occurrence.operation (.add p) :: middle =
      earlier ++ [.operation (.add p)] ++ middle := by simp
  have hall : earlier ++ Occurrence.operation (.add p) :: (middle ++ x :: rest) =
      earlier ++ Occurrence.operation (.add p) :: middle ++ [x] ++ rest := by simp
  obtain ⟨hmiddle, hages⟩ := hbefore.browse program middle
  rw [← browse_append, ← happ] at hmiddle hages
  obtain ⟨-, hrecalls, -⟩ := hmiddle.occurs program x
  obtain ⟨-, hlater⟩ := (hmiddle.browse_one program x).browse program rest
  rw [← browse_append, ← browse_append, ← hall] at hlater
  obtain ⟨g, hlt, hanswered⟩ := hrecalls.heard _ hm
  rw [← browse_append] at hanswered
  exact ⟨g, Nat.lt_of_le_of_lt hages.generation hlt, code, message, hlater.loadAnswered hanswered⟩

/-- Whatever is done with a tree and with its session: what the session remembers is what the tree
shows, in order and without repetition, but for the assemblies whose reload an engine has answered
with a failure since they were added; that engine was started after that. -/
theorem remembered_unless_rejected (settings : EngineSettings) (locator : Option Locator)
    (environment : OrderedMap String String) (w : σ) (traced : Bool) (l : Language)
    (xs : List Occurrence) :
    let s₀ := (Session.new settings locator environment w traced).planted l
    let s := (AssemblyBrowser.browse program xs s₀).2
    s.world.loadedAssemblies.Sublist s.tree.paths ∧ s.world.loadedAssemblies.Nodup ∧
      ∀ p ∈ s.tree.paths, s₀.Accounts program xs p ∧
        ∀ earlier later, xs = earlier ++ .operation (.add p) :: later →
          s₀.ShownSince program p earlier later → p ∉ s.world.loadedAssemblies →
          ∃ g, (AssemblyBrowser.browse program (earlier ++ [.operation (.add p)])
            s₀).2.world.generation < g ∧ s.world.Refused g p := by
  intro s₀ s
  have h₀ : s₀.Remembers :=
    ⟨rfl, sound_new settings locator environment w traced, List.Sublist.refl []⟩
  obtain ⟨hs, -⟩ := h₀.browse program xs
  refine ⟨hs.sublist, s.world.link.loaded.nodup, fun p hp => ?_⟩
  have haccounts := h₀.accounts program rfl xs p hp
  refine ⟨haccounts, fun earlier later hsplit hshown hmissing => ?_⟩
  have hrejected := (haccounts.2 earlier later hsplit hshown).mp hmissing
  have hrefused := h₀.refused hrejected
  rw [← hsplit] at hrefused
  exact hrefused

theorem refusedForest_missing : "a.dll" ∉ refusedForest.world.loadedAssemblies := by
  rw [refusedForest_eq]
  decide +kernel

theorem browse_fickle_added : (AssemblyBrowser.browse fickle [.operation (.add "a.dll")]
    (fickleSession.planted .csharp)).2 = fickleForest := rfl

theorem browse_fickle_refused : (AssemblyBrowser.browse fickle
    [.operation (.add "a.dll"), .interlude .restart] (fickleSession.planted .csharp)).2 =
      refusedForest := rfl

theorem refusedForest_shownSince :
    (fickleSession.planted .csharp).ShownSince fickle "a.dll" [] [.interlude .restart] := by
  have hpaths := refusedForest_paths
  refine ⟨fun hm => (by cases hm), fun middle hm => ?_⟩
  rw [List.nil_append]
  rcases List.prefix_cons_iff.mp hm with rfl | ⟨rest, rfl, hrest⟩
  · rw [browse_fickle_added]
    rw [refusedForest_eq] at hpaths
    dsimp only at hpaths
    exact hpaths
  · rw [List.prefix_nil.mp hrest, browse_fickle_refused]
    exact hpaths

/-- The engine of `fickle` rejects after the restart what it has loaded before. -/
theorem remembered_unless_rejected_refused :
    "a.dll" ∈ refusedForest.tree.paths ∧ "a.dll" ∉ refusedForest.world.loadedAssemblies ∧
      (fickleSession.planted .csharp).ShownSince fickle "a.dll" [] [.interlude .restart] ∧
      (fickleSession.planted .csharp).RejectedSince fickle "a.dll" [] [.interlude .restart] ∧
      ∃ g, fickleForest.world.generation < g ∧ refusedForest.world.Refused g "a.dll" := by
  have h := remembered_unless_rejected fickle plainSettings none ∅ () false .csharp
    [.operation (.add "a.dll"), .interlude .restart]
  dsimp only at h
  unfold Accounts at h
  rw [← fickleSession, browse_fickle_refused] at h
  obtain ⟨-, -, hall⟩ := h
  obtain ⟨⟨-, hmissing⟩, hrefused⟩ := hall "a.dll" refusedForest_paths
  have hlater := hrefused [] [.interlude .restart] rfl refusedForest_shownSince refusedForest_missing
  rw [List.nil_append, browse_fickle_added] at hlater
  have hrejected :=
    (hmissing [] [.interlude .restart] rfl refusedForest_shownSince).mp refusedForest_missing
  exact ⟨refusedForest_paths, refusedForest_missing, refusedForest_shownSince, hrejected, hlater⟩

end Forest

end AssemblyBrowser
