import AssemblyBrowser.Browser.Tools
import AssemblyBrowser.Proofs.Engine.Run
import AssemblyBrowser.Proofs.Lookup
/-!
When a failure leaves a tool. Main statement: along any run of calls, whatever engines, files and
environment do, every call is answered with text exactly if none of the calls stumbles: a search for
assemblies over its root or over a file below it, a look for an assembly over an impossible path, and
a report over the installation or the file of settings.
-/
namespace AssemblyBrowser

variable {σ α β : Type}

/-- What follows an attempt whose result is taken as a value. -/
theorem Attempt.fails_outcome_bind_iff {a : Attempt σ α} {f : Except Failure α → Attempt σ β} {s : σ} :
    Fails ((a.outcome >>= f).runFrom s).1 ↔
      Fails ((f (a.runFrom s).1).runFrom (a.runFrom s).2).1 := by
  rw [runFrom_bind, runFrom_outcome]

/-- A failure of a look at files. -/
def Failure.OfFiles : Failure → Prop
  | .path _ | .nullCharacter | .system _ => True
  | _ => False

theorem Failure.OfFiles.ownReport? {f : Failure} (h : f.OfFiles) : f.ownReport? = none := by
  cases f <;> first | rfl | exact h.elim

namespace Machine

variable (m : Machine)

/-- A path is refused as a path, or because there is NUL in it, or because it is barred. -/
theorem checkPath_error {typed : String} {limit : Int} {f : Failure}
    (h : m.checkPath typed none limit = .error f) : f.OfFiles := by
  have hresolve : ∀ {cleaned : String}, m.resolveTyped typed cleaned = .error f →
      f.OfFiles := by
    intro cleaned h
    unfold resolveTyped at h
    split at h <;> cases h <;> trivial
  have hread : ∀ {pos : Position}, m.readableFile typed pos = .error f → f.OfFiles := by
    intro pos h
    unfold readableFile isFile at h
    cases hfile : m.leadsTo Entry.isFile (.ofPosition pos) with
    | error f' =>
      obtain ⟨e, -, -, rfl⟩ := m.leadsTo_error_iff.mp hfile
      rw [hfile] at h
      cases h
      trivial
    | ok there =>
      simp only [hfile, bind, Except.bind] at h
      split at h
      · cases h
        trivial
      · split at h
        · split at h <;> cases h
          trivial
        · cases h
          trivial
  unfold checkPath at h
  dsimp only at h
  split at h
  · cases h
    trivial
  · cases hresolved : m.resolveTyped typed (SafePath.stripQuotes typed) with
    | error f' =>
      rw [hresolved] at h
      cases h
      exact hresolve hresolved
    | ok pos =>
      cases hdata : m.readableFile typed pos with
      | error f' =>
        simp only [hresolved, hdata, bind, Except.bind] at h
        cases h
        exact hread hdata
      | ok data =>
        simp only [hresolved, hdata, bind, Except.bind] at h
        split at h
        · cases h
          trivial
        · split at h <;> cases h
          trivial

end Machine

namespace Browser

variable {b : Browser σ}

/-! ## Finding what a user means -/

/-- An assembly as typed by a user is not in the tree by that name, and it is no path. -/
def Unmatched (b : Browser σ) (typed : String) : Prop :=
  typed ∉ b.tree.paths ∧ b.machine.Impossible typed

theorem matchLoaded_run (typed : String) : (matchLoaded typed).runFrom b =
    if typed ∈ b.tree.paths then (.ok (some typed), b)
    else match b.machine.checkPath typed none SafePath.defaultLimit with
      | .ok pos => (.ok (if pos.text ∈ b.tree.paths then some pos.text else none), b)
      | .error (.path _) => (.ok none, b)
      | .error f => (.error f, b) := by
  unfold matchLoaded
  rw [Attempt.runFrom_bind_ok (Attempt.runFrom_get b)]
  dsimp only
  split
  · rfl
  · have hsanitize : (sanitize typed).outcome.runFrom b =
        (.ok (b.machine.checkPath typed none SafePath.defaultLimit), b) := rfl
    rw [Attempt.runFrom_bind_ok hsanitize]
    cases b.machine.checkPath typed none SafePath.defaultLimit with
    | ok pos => rfl
    | error f => cases f <;> rfl

/-- The failure of a look for an assembly is none that is shown to a user as a report of its own. -/
theorem matchLoaded_error {typed : String} {f : Failure}
    (h : ((matchLoaded typed).runFrom b).1 = .error f) : f.OfFiles := by
  rw [matchLoaded_run] at h
  split at h
  · cases h
  · cases hcheck : b.machine.checkPath typed none SafePath.defaultLimit with
    | ok pos =>
      rw [hcheck] at h
      cases h
    | error f' =>
      have hown := b.machine.checkPath_error hcheck
      rw [hcheck] at h
      cases f' <;> cases h <;> exact hown

theorem matchLoaded_fails_iff (typed : String) :
    Fails ((matchLoaded typed).runFrom b).1 ↔ b.Unmatched typed := by
  rw [Unmatched, ← b.machine.checkPath_escapes_iff typed none SafePath.defaultLimit, matchLoaded_run]
  split
  · rename_i hmem
    simp [hmem]
  · rename_i hnot
    cases b.machine.checkPath typed none SafePath.defaultLimit with
    | ok pos => simp
    | error f => cases f <;> simp [hnot, Failure.IsPath]

/-- The node with a key, once it is known which assembly is meant. -/
def nodeOf (key : String) (owner : Option String) : Attempt (Browser σ) NodeId := do
  match (← get).tree.getNode key owner with
  | .ok (some id) => return id
  | .ok none =>
    Attempt.fail (parameterInvalid "key" (.text key) "a member key returned by list_members()")
  | .error (.ambiguousKey _ paths) => Attempt.fail (parameterInvalid "assembly" .null (oneOf paths))
  | .error f => Attempt.fail f

/-- There is a failure, and it is no report. -/
def Escapes (r : Except Failure α) : Prop := ∃ f, r = .error f ∧ f.ownReport? = none

theorem nodeOf_reports (key : String) (owner : Option String) :
    ¬Escapes ((nodeOf key owner).runFrom b).1 := by
  rintro ⟨f, hf, hown⟩
  unfold nodeOf at hf
  rw [Attempt.runFrom_bind_ok (Attempt.runFrom_get b)] at hf
  split at hf
  · cases hf
  · cases hf
    cases hown
  · cases hf
    cases hown
  · rename_i f' hnot hnode
    cases owner with
    | some path => cases hnode
    | none =>
      simp only [Tree.getNode] at hnode
      split at hnode
      · cases hnode
      · cases hnode
      · cases hnode
        exact hnot _ _ rfl

theorem resolve_none (key : String) : (resolve key none).runFrom b = (nodeOf key none).runFrom b := by
  unfold resolve
  have hpure : (pure none : Attempt (Browser σ) (Option String)).runFrom b = (.ok none, b) := rfl
  rw [Attempt.runFrom_bind_ok hpure]
  rfl

theorem resolve_some (key typed : String) : (resolve key (some typed)).runFrom b =
    match ((matchLoaded typed).runFrom b).1 with
    | .ok (some path) => (nodeOf key (some path)).runFrom b
    | .ok none =>
      (.error (parameterInvalid "assembly" (.text typed) "the path of a loaded assembly"), b)
    | .error f => (.error f, b) := by
  have hsame : ((matchLoaded typed).runFrom b).2 = b := by
    rw [matchLoaded_run]
    split
    · rfl
    · split <;> rfl
  unfold resolve
  simp only
  rw [Attempt.runFrom_bind]
  generalize (matchLoaded typed).runFrom b = r at hsame
  obtain ⟨r, t⟩ := r
  obtain rfl := hsame
  cases r with
  | error f => rfl
  | ok found => cases found <;> rfl

/-- A member is found, or the failure is a report, unless the assembly is unmatched. -/
theorem resolve_escapes_iff (key : String) (assembly : Option String) :
    Escapes ((resolve key assembly).runFrom b).1 ↔
      ∃ typed, assembly = some typed ∧ b.Unmatched typed := by
  cases assembly with
  | none =>
    rw [resolve_none]
    simp [nodeOf_reports]
  | some typed =>
    simp only [Option.some.injEq, exists_eq_left', ← matchLoaded_fails_iff, resolve_some]
    cases hm : ((matchLoaded typed).runFrom b).1 with
    | error f =>
      simp only [fails_error, iff_true]
      exact ⟨f, rfl, (matchLoaded_error hm).ownReport?⟩
    | ok found =>
      simp only [not_fails_ok, iff_false]
      cases found with
      | none =>
        rintro ⟨f, hf, hown⟩
        cases hf
        cases hown
      | some path => exact nodeOf_reports key (some path)

/-! ## Diagnostics -/

/-- What the installation is cannot be found out. -/
def Undiagnosed (b : Browser σ) : Prop := ∃ l, b.session.locator = some l ∧ l.Lost b.machine

theorem onForest_result (a : Attempt (Forest (Session σ)) α) (b : Browser σ) :
    ((onForest a).runFrom b).1 = (a.runFrom b.forest).1 := rfl

theorem onSession_result (a : Attempt (Session σ) α) (b : Browser σ) :
    ((onSession a).runFrom b).1 = (a.runFrom b.session).1 := rfl

/-- Only the facts about the installation can be missing. -/
theorem session_diagnose_fails_iff (m : Machine) (s : Session σ) :
    Fails ((Session.diagnose m).runFrom s).1 ↔ ∃ l, s.locator = some l ∧ l.Lost m := by
  have hfirst : Fails ((Session.installation m).runFrom s).1 ↔
      ∃ l, s.locator = some l ∧ l.Lost m := by
    simp only [Attempt.runFrom, ExceptT.run, Session.installation]
    cases hl : s.locator with
    | none => simp
    | some l =>
      simp only [Option.some.injEq, exists_eq_left', ← Locator.diagnose_fails_iff, Attempt.runFrom,
        ExceptT.run]
  unfold Session.diagnose
  rw [Attempt.fails_bind_iff, hfirst]
  refine or_iff_left ?_
  -- the facts about the session itself are at hand
  rintro ⟨found, t, -, hfails⟩
  have hnow : (Session.runningNow : Attempt (Session σ) Bool).runFrom t =
      (.ok t.isRunning.1, t.isRunning.2) := rfl
  rw [Attempt.runFrom_bind_ok (Attempt.runFrom_get t), Attempt.runFrom_bind_ok hnow,
    Attempt.runFrom_bind_ok (Attempt.runFrom_get _), Attempt.runFrom_pure] at hfails
  exact not_fails_ok _ hfails

theorem diagnose_fails_iff : Fails (diagnose.runFrom b).1 ↔ b.Undiagnosed := by
  unfold diagnose
  rw [Attempt.runFrom_bind_ok (Attempt.runFrom_get b), onSession_result, session_diagnose_fails_iff]
  rfl

theorem teardown_locator (s : Session σ) (reason : String) :
    (s.teardown reason).locator = s.locator := by
  have hclose : (s.closeChannel reason).locator = s.locator := by
    unfold Session.closeChannel
    split <;> rfl
  have hteardown : s.teardown reason = (s.closeChannel reason).haltEngine := rfl
  rw [hteardown, ← hclose]
  unfold Session.haltEngine
  split <;> rfl

/-- Nothing that is done with a session changes where it looks for the engine. -/
theorem locator_kept (program : Program σ) (locator : Option Locator) :
    Session.Kept program fun s => s.locator = locator where
  trace h _ := h
  isRunning {s} h := by
    unfold Session.isRunning
    split
    · exact h
    · split
      · exact h
      · split <;> exact h
  teardown {s} h reason := (teardown_locator s reason).trans h
  launch {s} h := by
    have hdown := (teardown_locator s "engine restarting").trans h
    rw [Session.launch_run]
    unfold Session.settleLaunch
    dsimp only
    split <;> exact hdown
  send {s} h g command arguments := by
    have hcollect : ∀ id, Session.Keeps (fun s => s.locator = locator)
        (Session.collect g id command : Attempt (Session σ) Answer) := by
      intro id t ht
      simp only [Attempt.runFrom, ExceptT.run, Session.collect]
      split <;> exact ht
    have hpost : Session.Keeps (fun s => s.locator = locator)
        (Session.post program g command arguments) := by
      intro t ht
      by_cases htakes : t.Takes g command
      · obtain ⟨hr, c, hc⟩ := htakes
        rw [Session.post_run program hc hr arguments]
        unfold Session.settlePost
        split <;> exact ht
      · obtain ⟨e, he⟩ := Session.post_refused program htakes arguments
        rw [he]
        exact ht
    exact hpost.bind hcollect s h
  loaded h _ := h

section

variable (program : Program σ)

/-- After a restart the installation can be diagnosed if it could be before. -/
theorem restart_undiagnosed :
    ((onSession (Session.restart program)).runFrom b).2.Undiagnosed ↔ b.Undiagnosed := by
  have h := locator_kept program b.session.locator
  have hsame := h.traced h.relaunch .restart [] Session.noValue b.session rfl
  have hsession : ((onSession (Session.restart program)).runFrom b).2.session =
      ((Session.restart program).runFrom b.session).2 := rfl
  have hmachine : ((onSession (Session.restart program)).runFrom b).2.machine = b.machine := rfl
  unfold Undiagnosed
  rw [hsession, hmachine, ← hsame]
  rfl

/-! ## Calls -/

/-- A failure leaves the tool that is called. -/
def Stumbles (b : Browser σ) : ToolCall → Prop
  | .findAssemblies directory => b.machine.Unsearchable directory
  | .getCode _ (some typed) _ | .removeAssembly typed => b.Unmatched typed
  | .engineStatus => b.Undiagnosed ∨ b.settings.Unreadable b.machine
  | .restartEngine =>
    ((Session.restart program).runFrom b.session).1 = .ok () ∧ b.Undiagnosed
  | .addAssembly _ | .listMembers .. | .getCode _ none _ | .refreshTree | .setLanguage _ => False

theorem not_fails_tell (told : Failure → String) (a : Attempt (Browser σ) String) :
    ¬Fails ((tell told a).runFrom b).1 := by
  unfold tell
  rw [Attempt.fails_outcome_bind_iff]
  cases (a.runFrom b).1 <;> exact not_fails_ok _

theorem getCode_fails_iff (key : String) (assembly : Option String) (onlyIfChanged : Bool) :
    Fails ((getCode program key assembly onlyIfChanged).runFrom b).1 ↔
      ∃ typed, assembly = some typed ∧ b.Unmatched typed := by
  have hshow : ∀ (id : NodeId) (t : Browser σ), ¬Fails ((showCode program id).runFrom t).1 := by
    intro id t
    unfold showCode
    rw [Attempt.fails_outcome_bind_iff]
    split
    · rw [Attempt.runFrom_bind_ok (Attempt.runFrom_get _)]
      exact not_fails_ok _
    · exact not_fails_ok _
  rw [← resolve_escapes_iff (b := b) key]
  unfold getCode
  rw [Attempt.fails_outcome_bind_iff]
  generalize (resolve key assembly).runFrom b = r
  obtain ⟨r, t⟩ := r
  cases r with
  | error f =>
    cases hown : f.ownReport? with
    | some report => simp [Escapes, hown, Attempt.runFrom_pure]
    | none =>
      simp only [Escapes, hown, Except.error.injEq, exists_eq_left', iff_true, Option.isSome_none,
        Bool.false_eq_true, if_false]
      exact fails_error f
  | ok id =>
    simp only [Escapes, reduceCtorEq, false_and, exists_false, iff_false]
    have hselect : ∃ changed t', (select id : Attempt (Browser σ) Bool).runFrom t =
        (.ok changed, t') := by
      simp only [Attempt.runFrom, ExceptT.run, select]
      split <;> exact ⟨_, _, rfl⟩
    obtain ⟨changed, t', hselect⟩ := hselect
    rw [Attempt.runFrom_bind_ok hselect]
    split
    · exact not_fails_ok _
    · exact hshow id t'

/-- An assembly can always be removed from the tree: the engine is not asked. -/
theorem not_fails_remove (path : String) (b : Browser σ) :
    ¬Fails ((onForest (Forest.remove (Session.engine program) path)).runFrom b).1 := by
  rw [onForest_result]
  unfold Forest.remove
  rw [Attempt.runFrom_bind_ok (Attempt.runFrom_get _)]
  split
  · exact not_fails_ok _
  · exact not_fails_ok _

theorem removeAssembly_fails_iff (typed : String) :
    Fails ((removeAssembly program typed).runFrom b).1 ↔ b.Unmatched typed := by
  rw [← matchLoaded_fails_iff]
  unfold removeAssembly
  rw [Attempt.fails_bind_iff]
  refine ⟨fun h => h.elim id ?_, .inl⟩
  rintro ⟨found, t, -, hfails⟩
  cases found with
  | none => exact absurd hfails (not_fails_ok _)
  | some path =>
    rw [Attempt.fails_bind_iff] at hfails
    rcases hfails with hfails | ⟨removed, t', -, hfails⟩
    · exact absurd hfails (not_fails_remove program path t)
    · cases removed <;> exact absurd hfails (not_fails_ok _)

theorem not_fails_setLanguage (language : Json) :
    ¬Fails ((setLanguage language : Attempt (Browser σ) String).runFrom b).1 := by
  unfold setLanguage
  rw [Attempt.fails_outcome_bind_iff]
  split
  · rw [Attempt.runFrom_bind_ok (Attempt.runFrom_get _)]
    exact not_fails_ok _
  · exact not_fails_ok _

theorem engineStatus_fails_iff : Fails ((engineStatus : Attempt (Browser σ) String).runFrom b).1 ↔
    b.Undiagnosed ∨ b.settings.Unreadable b.machine := by
  have hkept : ∀ found t, diagnose.runFrom b = (.ok found, t) →
      t.settings = b.settings ∧ t.machine = b.machine := by
    intro found t h
    unfold diagnose at h
    rw [Attempt.runFrom_bind_ok (Attempt.runFrom_get b)] at h
    obtain rfl := congrArg Prod.snd h
    exact ⟨rfl, rfl⟩
  have hrest : ∀ found t, diagnose.runFrom b = (.ok found, t) → (Fails ((do
      let facts := found ++ [("tree_language", .text (← get).tree.language.name)]
      return statusText facts (← onSettings (Settings.status (← get).machine)) :
        Attempt (Browser σ) String).runFrom t).1 ↔ b.settings.Unreadable b.machine) := by
    intro found t h
    obtain ⟨hsettings, hmachine⟩ := hkept found t h
    have hstatus : ((onSettings (Settings.status t.machine)).runFrom t).1 =
        ((Settings.status b.machine).runFrom b.settings).1 := by
      rw [← hsettings, ← hmachine]
      rfl
    rw [Attempt.runFrom_bind_ok (Attempt.runFrom_get t),
      Attempt.runFrom_bind_ok (Attempt.runFrom_get t), Attempt.fails_bind_iff, hstatus,
      Settings.status_fails_iff]
    exact ⟨fun h => h.elim id fun ⟨_, _, _, h⟩ => absurd h (not_fails_ok _), .inl⟩
  unfold engineStatus
  rw [Attempt.fails_bind_iff, ← diagnose_fails_iff]
  constructor
  · rintro (h | ⟨found, t, h, hfails⟩)
    · exact .inl h
    · exact .inr ((hrest found t h).mp hfails)
  · rintro (h | h)
    · exact .inl h
    · cases hrun : diagnose.runFrom b with
      | mk r t =>
        cases r with
        | error f => exact .inl ⟨f, rfl⟩
        | ok found => exact .inr ⟨found, t, rfl, (hrest found t hrun).mpr h⟩

theorem restartEngine_fails_iff : Fails ((restartEngine program).runFrom b).1 ↔
    ((Session.restart program).runFrom b.session).1 = .ok () ∧ b.Undiagnosed := by
  unfold restartEngine
  rw [Attempt.fails_outcome_bind_iff, ← restart_undiagnosed program, onSession_result]
  cases ((Session.restart program).runFrom b.session).1 with
  | error f => simp [Attempt.runFrom_pure]
  | ok u =>
    simp only [true_and]
    rw [Attempt.fails_bind_iff, diagnose_fails_iff]
    exact ⟨fun h => h.elim id fun ⟨_, _, _, h⟩ => absurd h (not_fails_ok _), .inl⟩

/-- A failure leaves a tool exactly if its call stumbles. -/
theorem call_fails_iff (c : ToolCall) :
    Fails ((call program c).runFrom b).1 ↔ b.Stumbles program c := by
  unfold Stumbles
  cases c with
  | addAssembly path => simp only [call, tellAdded, not_fails_tell]
  | findAssemblies directory =>
    simp only [call]
    rw [Attempt.fails_bind_iff, ← b.machine.findAssemblies_fails_iff]
    exact ⟨fun h => h.elim id fun ⟨_, _, _, h⟩ => absurd h (not_fails_ok _), .inl⟩
  | listMembers key assembly limit =>
    cases key with
    | none =>
      simp only [call, iff_false]
      rw [Attempt.runFrom_bind_ok (Attempt.runFrom_get b)]
      exact not_fails_ok _
    | some key => simp only [call, not_fails_tell]
  | getCode key assembly onlyIfChanged =>
    simp only [call, getCode_fails_iff]
    cases assembly <;> simp
  | refreshTree =>
    simp only [call, iff_false]
    exact not_fails_ok _
  | removeAssembly path => simp only [call, removeAssembly_fails_iff]
  | setLanguage language => simp only [call, not_fails_setLanguage]
  | engineStatus => simp only [call, engineStatus_fails_iff]
  | restartEngine => simp only [call, restartEngine_fails_iff]

/-! ## Runs -/

/-- What happens to a browser: a tool is called, a child does something of its own accord, or files
and environment become others. -/
inductive Event
  | call (c : ToolCall)
  | happen (generation : Nat) (acts : List Act)
  | change (machine : Machine)

def Event.after (b : Browser σ) : Event → Browser σ
  | .call c => ((Browser.call program c).runFrom b).2
  | .happen g acts =>
    let s := b.session
    let world := { s with supervisor := s.supervisor.happen Link.listener g acts }
    { b with forest := { b.forest with world } }
  | .change machine => { b with machine }

/-- How the calls of a run end, one after another. -/
def replies : List Event → Browser σ → List (Except Failure String)
  | [], _ => []
  | .call c :: xs, b => ((call program c).runFrom b).1 :: replies xs (Event.after program b (.call c))
  | x :: xs, b => replies xs (x.after program b)

/-- The calls of a run, each with the browser it finds. -/
def calls : List Event → Browser σ → List (Browser σ × ToolCall)
  | [], _ => []
  | .call c :: xs, b => (b, c) :: calls xs (Event.after program b (.call c))
  | x :: xs, b => calls xs (x.after program b)

theorem replies_eq (xs : List Event) (b : Browser σ) :
    replies program xs b = (calls program xs b).map fun (b, c) => ((call program c).runFrom b).1 := by
  induction xs generalizing b with
  | nil => rfl
  | cons x xs ih =>
    cases x with
    | call c => exact congrArg _ (ih _)
    | happen g acts => exact ih _
    | change machine => exact ih _

end

/-! ## A home directory that nobody has -/

/-- A machine with an empty working directory and one account. -/
def bareMachine : Machine where
  root := .directory [("work", .directory [])]
  workingDirectory := ["work"]
  environment := ∅
  user := "user"
  homes := [("user", "/work")]
  privileged := false
  platform := "Linux"
  hostReply := .failed

def bareBrowser : Browser Unit :=
  .new bareMachine ⟨.ofPosition ["work"], none⟩ (.new plainSettings none ∅ () false) .csharp

/-- An engine that is never asked anything. -/
def idleProgram : Program Unit where
  launch w := (.started {} [], w)
  react w _ _ := (⟨[], none⟩, w)

end Browser

end AssemblyBrowser
