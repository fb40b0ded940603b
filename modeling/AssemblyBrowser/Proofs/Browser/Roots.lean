import AssemblyBrowser.Proofs.Browser.Gate
import AssemblyBrowser.Proofs.Browser.Keys
import AssemblyBrowser.Proofs.Engine.Resting
import AssemblyBrowser.Proofs.FileSystem.Places
/-!
The assemblies in the tree as files. Main statement: along any run in which no file changes, the tree
holds the paths to which those that users have typed are resolved, one for each file, and a file that is
there is not added again, however its path is typed; unless a link has been left in one of these paths.
-/
namespace AssemblyBrowser

variable {σ : Type}

/-! ## Adding an assembly -/

namespace Machine

variable {m : Machine} {typed : String} {pos : Position}

/-- A managed assembly is found at a place by the path that is typed, and the path is accepted. -/
def Admits (m : Machine) (typed : String) (pos : Position) : Prop :=
  m.checkPath typed none SafePath.defaultLimit = .ok pos ∧
    ∃ data, m.fileAt (.ofPosition pos) = .ok data ∧ (Image.inspect data).facts.isManaged = true

theorem Admits.names (h : m.Admits typed pos) : m.Names typed pos := (m.checkPath_ok_iff.mp h.1).1

/-- Whichever path is typed, it is the place that decides. -/
theorem Admits.of_names {typed' : String} (h : m.Admits typed pos) (hnames : m.Names typed' pos) :
    m.Admits typed' pos :=
  ⟨m.checkPath_ok_iff.mpr ⟨hnames, (m.checkPath_ok_iff.mp h.1).2⟩, h.2⟩

end Machine

namespace Session

variable (program : Program σ) {s : Session σ}

theorem isRunning_of_running (h : s.isRunning.1 = true) : s.isRunning = (true, s) := by
  revert h
  unfold isRunning
  cases s.link.installed? with
  | none =>
    intro h
    cases h
  | some c =>
    dsimp only
    split
    · intro h
      cases h
    · split
      · exact fun _ => rfl
      · intro h
        cases h

/-- An engine that is running is not started. -/
theorem ensureRunning_of_running (h : s.isRunning.1 = true) :
    ∃ trace, (ensureRunning program).runFrom s = (.ok (), { s with trace }) := by
  obtain ⟨trace, trace', hrun⟩ := traced_run .ensureRunning [] noValue
    (do if ← runningNow then return () else relaunch program) s
  have hnow : (runningNow : Attempt (Session σ) Bool).runFrom { s with trace } =
      (.ok true, { s with trace }) := by
    simp only [Attempt.runFrom, ExceptT.run, runningNow, isRunning_trace, isRunning_of_running h]
  rw [Attempt.runFrom_bind_ok hnow] at hrun
  exact ⟨trace', hrun⟩

end Session

namespace Forest

variable (program : Program σ) {s : Forest (Session σ)} {path : String}

theorem add_of_mem (h : path ∈ s.tree.paths) :
    (add (Session.engine program) path).runFrom s = (.ok false, s) := by
  have hc : s.tree.roots.contains path = true := (s.tree.roots.contains_iff path).mpr h
  exact consult_settled (by simp only [Tree.beginAdd, hc, if_true])

theorem add_of_notMem (hidle : s.tree.flights = []) (h : path ∉ s.tree.paths) :
    let r := (add (Session.engine program) path).runFrom s
    ((∃ f, r.1 = .error f) ∧ r.2.tree.paths = s.tree.paths) ∨
      (r.1 = .ok true ∧ r.2.tree.paths = s.tree.paths ++ [path]) := by
  have hc : ¬s.tree.roots.contains path = true := fun hc => h ((s.tree.roots.contains_iff path).mp hc)
  dsimp only
  rw [Session.engine_eq, add_run _ hidle]
  simp only [Tree.plan, if_neg hc, follow, Tree.finishAdd, Tree.land_of_idle hidle]
  cases ((Session.backend program (.load path)).runFrom s.world).1 with
  | error f => exact .inl ⟨⟨f, rfl⟩, rfl⟩
  | ok m => exact .inr ⟨rfl, (s.tree.paths_plant path m).trans (if_neg h)⟩

end Forest

namespace Browser

variable (program : Program σ) {b : Browser σ} {typed : String} {pos : Position}

/-- What leaves tree and session alone is not told to the selection. -/
theorem onForest_same {α : Type} {a : Attempt (Forest (Session σ)) α} {r : Except Failure α}
    (h : a.runFrom b.forest = (r, b.forest)) : (onForest a).runFrom b = (r, b) := by
  rw [onForest_untold a (by rw [h]; rfl), h]

/-- What is no managed assembly is refused before the engine is asked for anything. -/
theorem addAssembly_refused (h : ∀ pos, ¬b.machine.Admits typed pos) :
    ∃ f, (addAssembly program typed).runFrom b = (.error f, b) := by
  refine addInspected_refused program fun pos d hopens => ?_
  rw [← Bool.not_eq_true]
  exact fun hmanaged => h pos ⟨hopens.accepted, d, hopens.data, hmanaged⟩

/-- A managed assembly is added once the engine runs. -/
theorem addAssembly_admitted (h : b.machine.Admits typed pos) :
    (addAssembly program typed).runFrom b =
      match (Session.ensureRunning program).runFrom b.session with
      | (.error f, session) => (.error f, { b with forest := ⟨b.tree, session⟩ })
      | (.ok (), session) =>
        let r := (onForest (Forest.add (Session.engine program) pos.text)).runFrom
          { b with forest := ⟨b.tree, session⟩ }
        (r.1.map fun added => (added, pos.text), r.2) := by
  obtain ⟨hcheck, data, hdata, hmanaged⟩ := h
  rw [addAssembly, addInspected_opened program _ ⟨hcheck, hdata⟩, if_pos hmanaged, addManaged]
  rw [Attempt.runFrom_bind, onSession_run]
  generalize (Session.ensureRunning program).runFrom b.session = started
  obtain ⟨r, session⟩ := started
  cases r with
  | error f => rfl
  | ok u =>
    dsimp only
    rw [Attempt.runFrom_bind]
    generalize (onForest (Forest.add (Session.engine program) pos.text)).runFrom _ = added
    obtain ⟨r, t⟩ := added
    cases r <;> rfl

/-- A call to add an assembly leaves the assemblies as they are, or appends the one that is found by the
path. -/
theorem addAssembly_outcome (h : b.tree.flights = []) (typed : String) :
    let r := (addAssembly program typed).runFrom b
    ((∀ path, r.1 ≠ .ok (true, path)) ∧ r.2.tree.paths = b.tree.paths) ∨
      ∃ pos, b.machine.Admits typed pos ∧ pos.text ∉ b.tree.paths ∧ r.1 = .ok (true, pos.text) ∧
        r.2.tree.paths = b.tree.paths ++ [pos.text] := by
  dsimp only
  by_cases hadmits : ∃ pos, b.machine.Admits typed pos
  · obtain ⟨pos, hadmits⟩ := hadmits
    rw [addAssembly_admitted program hadmits]
    generalize (Session.ensureRunning program).runFrom b.session = started
    obtain ⟨r, session⟩ := started
    cases r with
    | error f => exact .inl ⟨nofun, rfl⟩
    | ok u =>
      let a : Attempt (Forest (Session σ)) Bool := Forest.add (Session.engine program) pos.text
      let s : Forest (Session σ) := ⟨b.tree, session⟩
      have hrun : ((onForest a).runFrom { b with forest := s }).1 = (a.runFrom s).1 ∧
          ((onForest a).runFrom { b with forest := s }).2.tree = (a.runFrom s).2.tree := ⟨rfl, rfl⟩
      dsimp only
      rw [hrun.1, hrun.2]
      by_cases hmem : pos.text ∈ b.tree.paths
      · rw [Forest.add_of_mem program (s := s) hmem]
        exact .inl ⟨nofun, rfl⟩
      · rcases Forest.add_of_notMem program (s := s) h hmem with ⟨⟨f, hf⟩, hpaths⟩ | ⟨hok, hpaths⟩
        · rw [hf]
          exact .inl ⟨nofun, hpaths⟩
        · rw [hok]
          exact .inr ⟨pos, hadmits, hmem, rfl, hpaths⟩
  · rw [not_exists] at hadmits
    obtain ⟨f, hf⟩ := addAssembly_refused program hadmits
    rw [hf]
    exact .inl ⟨nofun, rfl⟩

/-- An assembly that is there already is not added, and a running engine is not asked for anything. -/
theorem addAssembly_loaded (h : b.machine.Admits typed pos) (hmem : pos.text ∈ b.tree.paths)
    (hrunning : b.session.isRunning.1 = true) :
    ∃ trace, (addAssembly program typed).runFrom b = (.ok (false, pos.text),
      { b with forest := ⟨b.tree, { b.session with trace }⟩ }) := by
  obtain ⟨trace, hstarted⟩ := Session.ensureRunning_of_running program hrunning
  have hadd := onForest_same (b := { b with forest := ⟨b.tree, { b.session with trace }⟩ })
    (Forest.add_of_mem program (s := ⟨b.tree, { b.session with trace }⟩) hmem)
  refine ⟨trace, ?_⟩
  rw [addAssembly_admitted program h, hstarted]
  dsimp only
  rw [hadd]
  rfl

theorem call_addAssembly_loaded (h : b.machine.Admits typed pos) (hmem : pos.text ∈ b.tree.paths)
    (hrunning : b.session.isRunning.1 = true) :
    ∃ trace, (call program (.addAssembly typed)).runFrom b =
      (.ok ("Assembly already loaded: " ++ pos.text),
        { b with forest := ⟨b.tree, { b.session with trace }⟩ }) := by
  obtain ⟨trace, hadd⟩ := addAssembly_loaded program h hmem hrunning
  refine ⟨trace, ?_⟩
  simp only [call, tellAdded, tell]
  rw [Attempt.runFrom_outcome_bind, Attempt.runFrom_bind_ok hadd]
  rfl

/-! ## The machine -/

section

variable {α β : Type}

/-- What is attempted leaves the machine as it is. -/
def KeepsMachine (a : Attempt (Browser σ) α) : Prop := ∀ b, (a.runFrom b).2.machine = b.machine

namespace KeepsMachine

theorem pure (v : α) : KeepsMachine (Pure.pure v : Attempt (Browser σ) α) := fun _ => rfl

theorem bind {a : Attempt (Browser σ) α} {f : α → Attempt (Browser σ) β} (h : KeepsMachine a)
    (h' : ∀ v, KeepsMachine (f v)) : KeepsMachine (a >>= f) := by
  intro b
  have ha := h b
  apply Attempt.bind_state (P := fun t : Browser σ => t.machine = b.machine)
  all_goals
    intro v t ht
    rw [ht] at ha
  · exact ha
  · exact (h' v t).trans ha

theorem outcome {a : Attempt (Browser σ) α} (h : KeepsMachine a) : KeepsMachine a.outcome := h

theorem tell {a : Attempt (Browser σ) String} (h : KeepsMachine a) (told : Failure → String) :
    KeepsMachine (Browser.tell told a) := by
  intro b
  rw [tell_state]
  exact h b

end KeepsMachine

theorem keepsMachine_get : KeepsMachine (get : Attempt (Browser σ) (Browser σ)) := fun _ => rfl

theorem keepsMachine_onForest (a : Attempt (Forest (Session σ)) α) : KeepsMachine (onForest a) :=
  fun _ => rfl

theorem keepsMachine_onMachine (f : Machine → Except Failure α) :
    KeepsMachine (onMachine f : Attempt (Browser σ) α) := fun _ => rfl

theorem keepsMachine_diagnose : KeepsMachine (diagnose : Attempt (Browser σ) Fields) :=
  .bind keepsMachine_get fun _ => keepsMachine_onForest _

theorem keepsMachine_matchLoaded (typed : String) :
    KeepsMachine (matchLoaded typed : Attempt (Browser σ) (Option String)) := by
  intro b
  rw [matchLoaded_state]

theorem keepsMachine_resolve (key : String) (assembly : Option String) :
    KeepsMachine (resolve key assembly : Attempt (Browser σ) NodeId) := by
  intro b
  rw [resolve_state]

theorem keepsMachine_addAssembly (typed : String) : KeepsMachine (addAssembly program typed) := by
  refine .bind (keepsMachine_onMachine _) fun pos => .bind (keepsMachine_onMachine _) fun data => ?_
  dsimp only
  split
  · exact fun _ => rfl
  · exact .bind (keepsMachine_onForest _) fun _ => .bind (keepsMachine_onForest _) fun _ => .pure _

theorem keepsMachine_getCode (key : String) (assembly : Option String) (onlyIfChanged : Bool) :
    KeepsMachine (getCode program key assembly onlyIfChanged) := by
  have hselect (id : NodeId) : KeepsMachine (select id : Attempt (Browser σ) Bool) := by
    intro b
    simp only [Attempt.runFrom, ExceptT.run, select]
    split <;> rfl
  refine .bind (keepsMachine_resolve key assembly).outcome fun r => ?_
  cases r with
  | error f =>
    dsimp only
    split <;> exact fun _ => rfl
  | ok id =>
    refine .bind (hselect id) fun changed => ?_
    split
    · exact .pure _
    · refine .bind (keepsMachine_onForest _).outcome fun r => ?_
      cases r with
      | error f => exact fun _ => rfl
      | ok code => exact .bind keepsMachine_get fun _ => .pure _

/-- No tool changes a file. -/
theorem keepsMachine_call (c : ToolCall) : KeepsMachine (call program c) := by
  cases c with
  | addAssembly path =>
    exact .tell (.bind (keepsMachine_addAssembly program path) fun _ =>
      .bind keepsMachine_get fun _ => .pure _) _
  | findAssemblies directory => exact .bind (keepsMachine_onMachine _) fun _ => .pure _
  | listMembers key assembly limit =>
    cases key with
    | none => exact .bind keepsMachine_get fun _ => .pure _
    | some key =>
      exact .tell (.bind (keepsMachine_resolve key assembly) fun _ =>
        .bind (keepsMachine_onForest _) fun _ => .bind keepsMachine_get fun _ => .pure _) _
  | getCode key assembly onlyIfChanged => exact keepsMachine_getCode program key assembly onlyIfChanged
  | refreshTree =>
    exact .bind (keepsMachine_onForest _) fun _ => .bind keepsMachine_get fun _ => .pure _
  | removeAssembly path =>
    refine .bind (keepsMachine_matchLoaded path) fun found => ?_
    cases found with
    | none => exact .pure _
    | some path =>
      refine .bind (keepsMachine_onForest _) fun removed => ?_
      cases removed <;> exact .pure _
  | setLanguage language =>
    refine .bind (keepsMachine_onForest _).outcome fun r => ?_
    cases r with
    | error f => exact .pure _
    | ok changed => exact .bind keepsMachine_get fun _ => .pure _
  | engineStatus =>
    exact .bind keepsMachine_diagnose fun _ => .bind keepsMachine_get fun _ =>
      .bind keepsMachine_get fun _ => .bind (fun _ => rfl) fun _ => .pure _
  | restartEngine =>
    refine .bind (keepsMachine_onForest _).outcome fun r => ?_
    cases r with
    | error f => exact .pure _
    | ok u => exact .bind keepsMachine_diagnose fun _ => .pure _

end

/-! ## Runs -/

/-- The assemblies after something has happened: a call to add one may append it, and one to remove it
may take it away. -/
inductive Event.Roots (b : Browser σ) : Event → List String → Prop
  | same (x : Event) : Roots b x b.tree.paths
  | added {typed : String} {pos : Position} (hadmits : b.machine.Admits typed pos)
      (hnew : pos.text ∉ b.tree.paths) :
      Roots b (.call (.addAssembly typed)) (b.tree.paths ++ [pos.text])
  | removed {typed path : String} (hmeant : ((matchLoaded typed).runFrom b).1 = .ok (some path)) :
      Roots b (.call (.removeAssembly typed)) (b.tree.paths.filter fun p => p ≠ path)

theorem call_addAssembly_paths (typed : String) (b : Browser σ) :
    ((call program (.addAssembly typed)).runFrom b).2.tree.paths =
      ((addAssembly program typed).runFrom b).2.tree.paths := by
  rw [call, tellAdded_state]

theorem Event.roots (h : b.tree.Sited) (x : Event) : x.Roots b (x.after program b).tree.paths := by
  cases x with
  | happen g acts => exact .same _
  | change machine => exact .same _
  | call c =>
    have hafter : (Event.call c).after program b = ((Browser.call program c).runFrom b).2 := rfl
    rw [hafter]
    have hother (hc : ∀ typed, c ≠ .addAssembly typed) :
        Roots b (.call c) ((Browser.call program c).runFrom b).2.tree.paths := by
      rcases call_becomes program h c with hsame | ⟨p, hp, hbecomes⟩
      · rw [hsame]
        exact .same _
      · generalize ((Browser.call program c).runFrom b).2.tree = t at hbecomes
        cases hbecomes with
        | same => exact .same _
        | added hpath m =>
          cases c with
          | addAssembly typed => exact absurd rfl (hc typed)
          | _ => exact hp.elim
        | @removed path hpath =>
          cases c with
          | removeAssembly typed =>
            have hpaths : ((b.tree.uproot path).tell (.removed path)).paths =
                b.tree.paths.filter fun p => p ≠ path := b.tree.roots.keys_erase path
            rw [hpaths]
            exact .removed hp
          | _ => exact hp.elim
        | refreshed =>
          rw [Tree.paths_refresh]
          exact .same _
        | @spoken name l hparse hl =>
          have hpaths : ({ b.tree with language := l } : Tree).refresh.paths = b.tree.paths :=
            Tree.paths_refresh _
          rw [hpaths]
          exact .same _
        | @listed i m hm hnone ms =>
          have hpaths : (b.tree.populate i m ms).paths = b.tree.paths :=
            congrArg OrderedMap.keys (Tree.roots_populate b.tree i m ms)
          rw [hpaths]
          exact .same _
        | shown hm text => exact .same _
    cases c with
    | addAssembly typed =>
      rw [call_addAssembly_paths]
      rcases addAssembly_outcome program h.idle typed with
        ⟨-, hpaths⟩ | ⟨pos, hadmits, hnew, -, hpaths⟩
      · rw [hpaths]
        exact .same _
      · rw [hpaths]
        exact .added hadmits hnew
    | _ => exact hother (by simp)

/-- Nothing happens to the files. -/
def Event.KeepsFiles : Event → Prop
  | .change _ => False
  | .call _ | .happen .. => True

theorem Event.machine_after {x : Event} (hx : x.KeepsFiles) (b : Browser σ) :
    (x.after program b).machine = b.machine := by
  cases x with
  | call c => exact keepsMachine_call program c b
  | happen g acts => rfl
  | change machine => exact hx.elim

/-- What is in the tree has been added by a path that a user has typed. -/
def Brought (xs : List Event) (b : Browser σ) : Prop :=
  ∀ path ∈ b.tree.paths, ∃ typed pos, .call (.addAssembly typed) ∈ xs ∧ b.machine.Admits typed pos ∧
    pos.text = path

/-- By induction on the run from its end: what is in the tree was there before the last event, or has
been added by it. -/
theorem following_brought (h : b.tree.Sited) (hempty : b.tree.paths = []) {xs : List Event}
    (hfiles : ∀ x ∈ xs, x.KeepsFiles) :
    (following program xs b).machine = b.machine ∧ Brought xs (following program xs b) := by
  induction xs using List.reverseRecOn with
  | nil =>
    refine ⟨rfl, fun path hpath => ?_⟩
    have hpath : path ∈ b.tree.paths := hpath
    rw [hempty] at hpath
    cases hpath
  | append_singleton xs x ih =>
    obtain ⟨hmachine, hbrought⟩ := ih fun y hy => hfiles y (List.mem_append_left _ hy)
    have hlast : following program (xs ++ [x]) b = x.after program (following program xs b) :=
      following_append program xs [x] b
    have hsame := x.machine_after program (hfiles x (List.mem_append_right _ List.mem_cons_self))
      (following program xs b)
    rw [hlast]
    refine ⟨hsame.trans hmachine, fun path hpath => ?_⟩
    rw [hsame]
    have hroots := Event.roots program (following_sited program h xs) x
    have hold : path ∈ (following program xs b).tree.paths → ∃ typed pos,
        .call (.addAssembly typed) ∈ xs ++ [x] ∧ (following program xs b).machine.Admits typed pos ∧
          pos.text = path := by
      intro hpath
      obtain ⟨typed, pos, hmem, hadmits⟩ := hbrought path hpath
      exact ⟨typed, pos, List.mem_append_left _ hmem, hadmits⟩
    generalize (x.after program (following program xs b)).tree.paths = paths at hroots hpath
    cases hroots with
    | same => exact hold hpath
    | removed => exact hold (List.mem_of_mem_filter hpath)
    | @added typed pos hadmits hnew =>
      rcases List.mem_append.mp hpath with hpath | hpath
      · exact hold hpath
      · exact ⟨typed, pos, by simp, hadmits, (List.mem_singleton.mp hpath).symm⟩

/-- Without links that are left in it, a path in the tree is resolved to itself. -/
theorem Brought.resolved {xs : List Event} (h : Brought xs b) (hm : b.machine.Sound)
    (hleft : ∀ typed pos, .call (.addAssembly typed) ∈ xs → b.machine.Names typed pos →
      pos.text ∈ b.tree.paths → ¬b.machine.LeavesLink typed pos) {path : String}
    (hpath : path ∈ b.tree.paths) : ∃ pos, pos.text = path ∧
      b.machine.resolve (.ofString path) = .ok pos ∧ b.machine.LinkFree pos := by
  obtain ⟨typed, pos, hcall, hadmits, rfl⟩ := h path hpath
  have hnames := hadmits.names
  have hfree := (hnames.linkFree_iff hm).mpr (hleft typed pos hcall hnames hpath)
  obtain ⟨-, -, data, hread, -⟩ := b.machine.checkPath_ok_iff.mp hadmits.1
  exact ⟨pos, rfl, hfree.resolve_text (hnames.clean hm) (hnames.not_up hm) hread, hfree⟩

/-- Whoever names the place of an assembly in the tree names a managed assembly. -/
theorem Brought.admits {xs : List Event} (h : Brought xs b) (hm : b.machine.Sound)
    (hnames : b.machine.Names typed pos) (hmem : pos.text ∈ b.tree.paths) :
    b.machine.Admits typed pos := by
  obtain ⟨typed', pos', -, hadmits, htext⟩ := h _ hmem
  obtain rfl : pos' = pos :=
    Position.text_injective (hadmits.names.clean hm) (hnames.clean hm) htext
  exact hadmits.of_names hnames

/-- The assemblies in the tree are files, each known by one path only. -/
structure CanonicalRoots (b : Browser σ) : Prop where
  /-- The path of each is resolved to itself, and no link is in it. -/
  resolved : ∀ path ∈ b.tree.paths, ∃ pos, pos.text = path ∧
    b.machine.resolve (.ofString path) = .ok pos ∧ b.machine.LinkFree pos
  distinct : b.tree.paths.Pairwise fun path path' =>
    b.machine.resolve (.ofString path) ≠ b.machine.resolve (.ofString path')
  /-- What is there is not added again, and an engine that runs is not asked for anything. -/
  repeated : ∀ typed pos, b.machine.Names typed pos → pos.text ∈ b.tree.paths →
    b.session.isRunning.1 = true → ∃ trace, (call program (.addAssembly typed)).runFrom b =
      (.ok ("Assembly already loaded: " ++ pos.text),
        { b with forest := ⟨b.tree, { b.session with trace }⟩ })
  /-- What is added is what the typed path is resolved to. -/
  appended : ∀ typed path, ((addAssembly program typed).runFrom b).1 = .ok (true, path) →
    ∃ pos, b.machine.Names typed pos ∧ path = pos.text ∧
      ((call program (.addAssembly typed)).runFrom b).2.tree.paths = b.tree.paths ++ [path]

/-- Along any run in which no file changes the assemblies are files, each known by one path only,
unless one has been added by a path in which a link has been left. -/
theorem canonicalRoots_iff {machine : Machine} (hm : machine.Sound) (settings : Settings)
    (session : Session σ) (language : Language) {xs : List Event}
    (hfiles : ∀ x ∈ xs, x.KeepsFiles) :
    let b := following program xs (new machine settings session language)
    b.CanonicalRoots program ↔ ∀ typed pos, .call (.addAssembly typed) ∈ xs →
      machine.Names typed pos → pos.text ∈ b.tree.paths → ¬machine.LeavesLink typed pos := by
  intro b
  have hsited := sited_new machine settings session language
  obtain ⟨hmachine, hbrought⟩ := following_brought program hsited rfl hfiles
  have hidle := (following_sited program hsited xs).idle
  change b.machine = machine at hmachine
  change Brought xs b at hbrought
  change b.tree.flights = [] at hidle
  rw [← hmachine] at hm ⊢
  constructor
  · intro h typed pos hcall hnames hmem
    obtain ⟨pos', htext, hresolve, hfree⟩ := h.resolved _ hmem
    obtain rfl : pos' = pos := hnames.eq_of_resolve_text hm htext hresolve
    exact (hnames.linkFree_iff hm).mp hfree
  · intro hleft
    constructor
    · exact fun path hpath => hbrought.resolved hm hleft hpath
    · refine b.tree.roots.nodup.imp_of_mem fun {path path'} hpath hpath' hne hsame => hne ?_
      obtain ⟨pos, rfl, hpos, -⟩ := hbrought.resolved hm hleft hpath
      obtain ⟨pos', rfl, hpos', -⟩ := hbrought.resolved hm hleft hpath'
      rw [hpos, hpos', Except.ok.injEq] at hsame
      rw [hsame]
    · intro typed pos hnames hmem hrunning
      exact call_addAssembly_loaded program (hbrought.admits hm hnames hmem) hmem hrunning
    · intro typed path hadded
      rcases addAssembly_outcome program hidle typed with
        ⟨hnot, -⟩ | ⟨pos, hadmits, -, hok, hpaths⟩
      · exact absurd hadded (hnot path)
      · cases hok.symm.trans hadded
        exact ⟨pos, hadmits.names, rfl, (call_addAssembly_paths program typed b).trans hpaths⟩

/-- A machine with a link to itself, and with one into a directory beside it. -/
def loopMachine : Machine := .inRoot [("loop", .link "loop"),
  ("ok", .directory [("evil", .link "../secret")]),
  ("secret", .directory [("S.dll", .file smallImage 0o644)])]

/-- Behind the link to itself the other one is left in the path. -/
theorem not_canonicalRoots_of_loop :
    ¬(following smallProgram [.call (.addAssembly "/loop/../ok/evil/S.dll")]
      (new loopMachine ⟨.ofPosition [], none⟩ (.new plainSettings none ∅ 0 false) .csharp)).CanonicalRoots
        smallProgram := by
  intro h
  have hsound : loopMachine.Sound := Machine.sound_inRoot ⟨by decide,
    by decide, show '\x00' ∉ "loop".toList by decide,
    by decide, ⟨by decide, by decide, show '\x00' ∉ "../secret".toList by decide, trivial⟩,
    by decide, ⟨by decide, by decide, trivial, trivial⟩, trivial⟩
  let p : Path := ⟨.root, ["loop", "..", "ok", "evil", "S.dll"]⟩
  have hp : loopMachine.expandHome (.ofString (SafePath.stripQuotes "/loop/../ok/evil/S.dll")) =
      .ok p := by decide +kernel
  have hpos : loopMachine.resolve p = .ok ["ok", "evil", "S.dll"] := by decide +kernel
  have hleft := (canonicalRoots_iff smallProgram hsound _ _ _ (by simp [Event.KeepsFiles])).mp h
    "/loop/../ok/evil/S.dll" ["ok", "evil", "S.dll"] List.mem_cons_self
    ⟨by decide +kernel, p, hp, hpos⟩ (by decide +kernel)
  refine hleft ⟨⟨["ok", "evil"], "../secret", ⟨["S.dll"], rfl⟩, rfl⟩, p, hp, .inl ?_⟩
  have hloop : loopMachine.linkTarget? (.ofPosition []) "loop" = some "loop" := by decide +kernel
  exact ⟨_, .single (.follow (by decide) hloop rfl), "loop", _, "loop", rfl, by decide, hloop,
    by decide +kernel⟩

end Browser

end AssemblyBrowser
