import AssemblyBrowser.Proofs.Browser
import AssemblyBrowser.Proofs.Tree.Session
/-!
What the tools do to the tree, whatever they answer: a call leaves the tree alone or carries out one of
its operations, the one that the tool is for, on a session that may have changed in between. Main
statement: `call_conducts`.
-/
namespace AssemblyBrowser

variable {σ α β : Type}

/-- What follows an attempt whose result is taken as a value. -/
theorem Attempt.runFrom_outcome_bind (a : Attempt σ α) (f : Except Failure α → Attempt σ β) (s : σ) :
    (a.outcome >>= f).runFrom s = (f (a.runFrom s).1).runFrom (a.runFrom s).2 := by
  rw [runFrom_bind, runFrom_outcome]

/-- What holds after the first attempt if it fails, and else after the second, holds in the end. -/
theorem Attempt.bind_state {P : σ → Prop} {a : Attempt σ α} {f : α → Attempt σ β} {s : σ}
    (herror : ∀ e t, a.runFrom s = (.error e, t) → P t)
    (hok : ∀ v t, a.runFrom s = (.ok v, t) → P ((f v).runFrom t).2) :
    P ((a >>= f).runFrom s).2 := by
  rw [runFrom_bind]
  cases h : a.runFrom s with
  | mk r t =>
    cases r with
    | error e => exact herror e t h
    | ok v => exact hok v t h

namespace Browser

variable {b b' : Browser σ}

/-! ## Finding what is meant -/

theorem matchLoaded_state (typed : String) : ((matchLoaded typed).runFrom b).2 = b := by
  rw [matchLoaded_run]
  split
  · rfl
  · split <;> rfl

/-- The name of an assembly that is loaded means that assembly. -/
theorem matchLoaded_loaded {path : String} (h : path ∈ b.tree.paths) :
    (matchLoaded path).runFrom b = (.ok (some path), b) := by
  rw [matchLoaded_run, if_pos h]

theorem nodeOf_run (key : String) (owner : Option String) : (nodeOf key owner).runFrom b =
    (match b.tree.getNode key owner with
      | .ok (some id) => .ok id
      | .ok none =>
        .error (parameterInvalid "key" (.text key) "a member key returned by list_members()")
      | .error (.ambiguousKey _ paths) => .error (parameterInvalid "assembly" .null (oneOf paths))
      | .error f => .error f, b) := by
  unfold nodeOf
  rw [Attempt.runFrom_bind_ok (Attempt.runFrom_get b)]
  cases b.tree.getNode key owner with
  | ok found => cases found <;> rfl
  | error f => cases f <;> rfl

theorem resolve_state (key : String) (assembly : Option String) :
    ((resolve key assembly).runFrom b).2 = b := by
  cases assembly with
  | none => rw [resolve_none, nodeOf_run]
  | some typed =>
    rw [resolve_some]
    split
    · rw [nodeOf_run]
    · rfl
    · rfl

theorem getNode_ok {t : Tree} {key : String} {owner : Option String} {id : NodeId}
    (h : t.getNode key owner = .ok (some id)) : ∃ path, t.slots.find? (path, key) = some id := by
  cases owner with
  | some path => exact ⟨path, Except.ok.inj h⟩
  | none =>
    simp only [Tree.getNode] at h
    split at h
    · cases h
    · rename_i j hfound
      cases h
      have hmem : id ∈ t.findNodes key := hfound ▸ List.mem_cons_self
      obtain ⟨path, -, hslot⟩ := List.mem_filterMap.mp hmem
      exact ⟨path, hslot⟩
    · cases h

/-- The node that is meant holds a slot with the key. -/
theorem slot_of_resolve {key : String} {assembly : Option String} {id : NodeId}
    (h : ((resolve key assembly).runFrom b).1 = .ok id) :
    ∃ path, b.tree.slots.find? (path, key) = some id := by
  have hnode : ∀ owner, ((nodeOf key owner).runFrom b).1 = .ok id →
      ∃ path, b.tree.slots.find? (path, key) = some id := by
    intro owner hown
    rw [nodeOf_run] at hown
    dsimp only at hown
    split at hown
    · rename_i j hget
      cases hown
      exact getNode_ok hget
    all_goals cases hown
  cases assembly with
  | none => exact hnode none (resolve_none (b := b) key ▸ h)
  | some typed =>
    rw [resolve_some] at h
    split at h
    · exact hnode _ h
    all_goals cases h

/-- The key of a slot that is held means its node, beside the assembly. -/
theorem resolve_slot {path key : String} {id : NodeId} (hpath : path ∈ b.tree.paths)
    (hslot : b.tree.slots.find? (path, key) = some id) :
    (resolve key (some path)).runFrom b = (.ok id, b) := by
  rw [resolve_some, matchLoaded_loaded hpath]
  dsimp only
  rw [nodeOf_run]
  simp only [Tree.getNode, hslot]

/-! ## Tree and selection -/

/-- The tree and what was selected are the same. -/
structure Rests (b b' : Browser σ) : Prop where
  tree : b'.tree = b.tree
  selection : b'.selection = b.selection

theorem Rests.refl (b : Browser σ) : b.Rests b := ⟨rfl, rfl⟩

theorem Rests.trans {b'' : Browser σ} (h : b.Rests b') (h' : b'.Rests b'') : b.Rests b'' :=
  ⟨h'.tree.trans h.tree, h'.selection.trans h.selection⟩

/-- The selection stays when its listener is told nothing. -/
theorem onForest_untold (a : Attempt (Forest (Session σ)) α)
    (h : (a.runFrom b.forest).2.tree.deliveries = b.tree.deliveries) :
    (onForest a).runFrom b =
      ((a.runFrom b.forest).1, { b with forest := (a.runFrom b.forest).2 }) := by
  change ((a.runFrom b.forest).1, ({ b with
    forest := (a.runFrom b.forest).2
    selection := if ((a.runFrom b.forest).2.tree.deliveries.drop b.tree.deliveries.length).any
      (fun d => decide (d.1 = selectionListener)) then .forget else b.selection } : Browser σ)) = _
  rw [h, List.drop_length]
  rfl

/-- Nothing is selected once all listeners have been told of a change. -/
theorem onForest_told (a : Attempt (Forest (Session σ)) α) {e : TreeEvent}
    (hlistening : selectionListener ∈ b.tree.listeners)
    (h : (a.runFrom b.forest).2.tree.deliveries =
      b.tree.deliveries ++ b.tree.listeners.map fun l => (l, e)) :
    ((onForest a).runFrom b).2.selection = .forget := by
  change (if ((a.runFrom b.forest).2.tree.deliveries.drop b.tree.deliveries.length).any
    (fun d => decide (d.1 = selectionListener)) then Selection.forget else b.selection) = _
  rw [h, List.drop_left, if_pos]
  exact List.any_eq_true.mpr
    ⟨_, List.mem_map.mpr ⟨selectionListener, hlistening, rfl⟩, decide_eq_true rfl⟩

/-- What is done with the session is not told to the selection. -/
theorem onSession_run (a : Attempt (Session σ) α) (b : Browser σ) : (onSession a).runFrom b =
    ((a.runFrom b.session).1, { b with forest := ⟨b.tree, (a.runFrom b.session).2⟩ }) :=
  onForest_untold (Forest.lift a) rfl

theorem onSession_rests (a : Attempt (Session σ) α) (b : Browser σ) :
    b.Rests ((onSession a).runFrom b).2 := by
  rw [onSession_run]
  exact ⟨rfl, rfl⟩

theorem diagnose_rests (b : Browser σ) : b.Rests (diagnose.runFrom b).2 := by
  unfold diagnose
  rw [Attempt.runFrom_bind_ok (Attempt.runFrom_get b)]
  exact onSession_rests _ b

section

variable (program : Program σ)

/-- The tree goes through an operation, and the selection is told of it. -/
def carried (p : TreeOperation) (b : Browser σ) : Browser σ :=
  ((onForest (p.perform (Session.engine program))).runFrom b).2

/-- The operation of the tree that a call is for. -/
def Wants (b : Browser σ) : ToolCall → TreeOperation → Prop
  | .addAssembly _, .add _ | .listMembers .., .children _ | .refreshTree, .refresh => True
  | .getCode key assembly _, .code id => ((resolve key assembly).runFrom b).1 = .ok id
  | .removeAssembly typed, .remove path => ((matchLoaded typed).runFrom b).1 = .ok (some path)
  | .setLanguage language, .setLanguage name => name = language.plain
  | _, _ => False

/-- Tree and selection rest, or go through an operation and otherwise rest. -/
def Conducts (b : Browser σ) (wanted : TreeOperation → Prop) (b' : Browser σ) : Prop :=
  b.Rests b' ∨ ∃ p b₀, wanted p ∧ b.Rests b₀ ∧ (carried program p b₀).Rests b'

variable {program} {wanted : TreeOperation → Prop}

theorem conducts_carried {p : TreeOperation} (hp : wanted p) :
    b.Conducts program wanted (carried program p b) :=
  .inr ⟨p, b, hp, .refl b, .refl _⟩

theorem Rests.conducts (h : b.Rests b') {b'' : Browser σ} (hc : b'.Conducts program wanted b'') :
    b.Conducts program wanted b'' := by
  rcases hc with hrests | ⟨p, b₀, hp, hbefore, hafter⟩
  · exact .inl (h.trans hrests)
  · exact .inr ⟨p, b₀, hp, h.trans hbefore, hafter⟩

variable (program)

theorem addAssembly_conducts (typed : String) (b : Browser σ) :
    b.Conducts program (b.Wants (.addAssembly typed)) ((addAssembly program typed).runFrom b).2 := by
  unfold addAssembly addInspected
  refine Attempt.bind_state (fun e s h => ?_) fun pos s h => ?_
  · obtain rfl : b = s := congrArg Prod.snd h
    exact .inl (.refl b)
  obtain rfl : b = s := congrArg Prod.snd h
  refine Attempt.bind_state (fun e s h => ?_) fun data s h => ?_
  · obtain rfl : b = s := congrArg Prod.snd h
    exact .inl (.refl b)
  obtain rfl : b = s := congrArg Prod.snd h
  dsimp only
  split
  · exact .inl (.refl b)
  · have hstart := onSession_rests (Session.ensureRunning program) b
    refine Attempt.bind_state (fun e s h => ?_) fun u s h => ?_
    · rw [h] at hstart
      exact .inl hstart
    · rw [h] at hstart
      refine hstart.conducts (Attempt.bind_state (fun e t h => ?_) fun added t h => ?_)
      all_goals
        obtain rfl : carried program (.add pos.text) s = t := congrArg Prod.snd h
        have hwanted : b.Wants (.addAssembly typed) (.add pos.text) := trivial
        exact conducts_carried hwanted

theorem listMembers_run (key : String) (assembly : Option String) (limit : Int) (b : Browser σ) :
    (listMembers program key assembly limit).runFrom b =
      match ((resolve key assembly).runFrom b).1 with
      | .error f => (.error f, b)
      | .ok id =>
        let t := (carried program (.children id) b).tree
        (((Forest.children (Session.engine program) id).runFrom b.forest).1.map fun ids =>
          membersText t id ids limit, carried program (.children id) b) := by
  have hsame := resolve_state (b := b) key assembly
  unfold listMembers
  rw [Attempt.runFrom_bind]
  generalize (resolve key assembly).runFrom b = r at hsame
  obtain ⟨r, t⟩ := r
  obtain rfl : t = b := hsame
  cases r with
  | error f => rfl
  | ok id =>
    dsimp only
    have hresult := onForest_result (Forest.children (Session.engine program) id) t
    have hstate : ((onForest (Forest.children (Session.engine program) id)).runFrom t).2 =
        carried program (.children id) t := rfl
    rw [Attempt.runFrom_bind, ← hresult, ← hstate]
    generalize (onForest (Forest.children (Session.engine program) id)).runFrom t = r
    obtain ⟨r, s⟩ := r
    cases r <;> rfl

theorem listMembers_conducts (key : String) (assembly : Option String) (limit : Int)
    (b : Browser σ) : b.Conducts program (b.Wants (.listMembers (some key) assembly limit))
      ((listMembers program key assembly limit).runFrom b).2 := by
  rw [listMembers_run]
  split
  · exact .inl (.refl b)
  · exact conducts_carried (p := .children _) trivial

theorem removeAssembly_conducts (typed : String) (b : Browser σ) :
    b.Conducts program (b.Wants (.removeAssembly typed))
      ((removeAssembly program typed).runFrom b).2 := by
  unfold removeAssembly
  refine Attempt.bind_state (fun e s h => ?_) fun found s h => ?_
  · obtain rfl : b = s := (matchLoaded_state typed).symm.trans (congrArg Prod.snd h)
    exact .inl (.refl b)
  · obtain rfl : b = s := (matchLoaded_state typed).symm.trans (congrArg Prod.snd h)
    cases found with
    | none => exact .inl (.refl b)
    | some path =>
      have hwanted : b.Wants (.removeAssembly typed) (.remove path) := congrArg Prod.fst h
      refine Attempt.bind_state (fun e t h => ?_) fun removed t h => ?_
      all_goals obtain rfl : carried program (.remove path) b = t := congrArg Prod.snd h
      · exact conducts_carried hwanted
      · cases removed <;> exact conducts_carried hwanted

theorem setLanguage_conducts (language : Json) (b : Browser σ) :
    b.Conducts program (b.Wants (.setLanguage language)) ((setLanguage language).runFrom b).2 := by
  unfold setLanguage
  rw [Attempt.runFrom_outcome_bind]
  have hcarried : b.Conducts program (b.Wants (.setLanguage language))
      (carried program (.setLanguage language.plain) b) :=
    conducts_carried (p := .setLanguage language.plain) rfl
  have hstate : ((onForest (Forest.setLanguage language.plain)).runFrom b).2 =
      carried program (.setLanguage language.plain) b := rfl
  rw [hstate]
  cases ((onForest (Forest.setLanguage language.plain)).runFrom b).1 with
  | error f =>
    simp only [Attempt.runFrom_pure]
    exact hcarried
  | ok changed =>
    simp only [Attempt.runFrom_bind, Attempt.runFrom_get, Attempt.runFrom_pure]
    exact hcarried

theorem engineStatus_rests (b : Browser σ) :
    b.Rests ((engineStatus : Attempt (Browser σ) String).runFrom b).2 := by
  unfold engineStatus
  have hdiagnose := diagnose_rests b
  refine Attempt.bind_state (fun e s h => ?_) fun facts s h => ?_
  · rw [h] at hdiagnose
    exact hdiagnose
  · rw [h] at hdiagnose
    refine hdiagnose.trans ?_
    rw [Attempt.runFrom_bind_ok (Attempt.runFrom_get s),
      Attempt.runFrom_bind_ok (Attempt.runFrom_get s)]
    refine Attempt.bind_state (fun e t h => ?_) fun found t h => ?_
    all_goals
      obtain rfl := congrArg Prod.snd h
      exact ⟨rfl, rfl⟩

theorem restartEngine_rests (b : Browser σ) :
    b.Rests ((restartEngine program).runFrom b).2 := by
  unfold restartEngine
  rw [Attempt.runFrom_outcome_bind]
  refine (onSession_rests (Session.restart program) b).trans ?_
  split
  · refine Attempt.bind_state (fun e t h => ?_) fun found t h => ?_
    all_goals
      have hdiagnose := diagnose_rests ((onSession (Session.restart program)).runFrom b).2
      rw [h] at hdiagnose
      exact hdiagnose
  · exact .refl _

theorem tell_state (told : Failure → String) (a : Attempt (Browser σ) String) :
    ((tell told a).runFrom b).2 = (a.runFrom b).2 := by
  unfold tell
  rw [Attempt.runFrom_outcome_bind]
  split <;> rfl

theorem tellAdded_state (a : Attempt (Browser σ) (Bool × String)) :
    ((tellAdded a).runFrom b).2 = (a.runFrom b).2 := by
  rw [tellAdded, tell_state, Attempt.runFrom_bind]
  generalize a.runFrom b = r
  obtain ⟨r, t⟩ := r
  cases r <;> rfl

/-! ## Showing the text of a member -/

/-- The selection is on a member. -/
def selecting (b : Browser σ) (slot : Slot) : Browser σ := { b with selection := ⟨some slot⟩ }

theorem select_run {id : NodeId} {n : Node} (hn : b.tree.node? id = some n) :
    (select id).runFrom b = (.ok (decide (b.selection.last ≠ some n.slot)), b.selecting n.slot) := by
  obtain ⟨machine, settings, forest, last⟩ := b
  simp only [Attempt.runFrom, ExceptT.run, select, hn, Selection.select, selecting]
  by_cases hlast : last.last = some n.slot
  · obtain ⟨last⟩ := last
    obtain rfl : last = some n.slot := hlast
    simp
  · simp [hlast]

/-- The text of a node is fetched and shown; after a failure nothing counts as shown. -/
theorem showCode_run (id : NodeId) (b : Browser σ) : (showCode program id).runFrom b =
    match ((Forest.code (Session.engine program) id).runFrom b.forest).1 with
    | .ok code =>
      (.ok (codeText (carried program (.code id) b).tree id code), carried program (.code id) b)
    | .error f =>
      (.ok (staleFailure f), { carried program (.code id) b with selection := .forget }) := by
  unfold showCode
  have hstate : ((onForest (Forest.code (Session.engine program) id)).runFrom b).2 =
      carried program (.code id) b := rfl
  rw [Attempt.runFrom_outcome_bind, onForest_result, hstate]
  cases ((Forest.code (Session.engine program) id).runFrom b.forest).1 <;> rfl

theorem getCode_unresolved {key : String} {assembly : Option String} {f : Failure}
    (h : ((resolve key assembly).runFrom b).1 = .error f) (onlyIfChanged : Bool) :
    (getCode program key assembly onlyIfChanged).runFrom b =
      (if f.ownReport?.isSome then .ok f.userMessage else .error f, b) := by
  unfold getCode
  rw [Attempt.runFrom_outcome_bind, h, resolve_state]
  dsimp only
  split <;> rfl

theorem getCode_resolved {key : String} {assembly : Option String} {id : NodeId} {n : Node}
    (h : ((resolve key assembly).runFrom b).1 = .ok id) (hn : b.tree.node? id = some n)
    (onlyIfChanged : Bool) : (getCode program key assembly onlyIfChanged).runFrom b =
      if onlyIfChanged = true ∧ b.selection.last = some n.slot then
        (.ok ("Member `" ++ key ++ "` is already shown."), b)
      else (showCode program id).runFrom (b.selecting n.slot) := by
  unfold getCode
  rw [Attempt.runFrom_outcome_bind, h, resolve_state]
  dsimp only
  rw [Attempt.runFrom_bind_ok (select_run hn)]
  by_cases hshown : onlyIfChanged = true ∧ b.selection.last = some n.slot
  · have hsame : b.selecting n.slot = b := by
      have hselection : b.selection = ⟨some n.slot⟩ := by rw [← hshown.2]
      rw [selecting, ← hselection]
    simp only [hshown, and_self, if_true, ne_eq, not_true_eq_false, decide_false, Bool.not_false,
      Bool.and_true, hsame, Attempt.runFrom_pure]
  · have hchanged : (onlyIfChanged && !decide (b.selection.last ≠ some n.slot)) = false := by
      simpa using hshown
    rw [if_neg hshown, hchanged]
    rfl

/-! ## All tools -/

/-- A call other than for the text of a member leaves tree and selection alone, or carries out the
operation that it is for. -/
theorem call_conducts {c : ToolCall} (hc : ∀ key assembly changed, c ≠ .getCode key assembly changed)
    (b : Browser σ) : b.Conducts program (b.Wants c) ((call program c).runFrom b).2 := by
  cases c with
  | addAssembly path =>
    rw [call, tellAdded_state]
    exact addAssembly_conducts program path b
  | findAssemblies directory =>
    refine Attempt.bind_state (fun e s h => ?_) fun paths s h => ?_
    all_goals
      obtain rfl : b = s := congrArg Prod.snd h
      exact .inl (.refl b)
  | listMembers key assembly limit =>
    cases key with
    | none => exact .inl (.refl b)
    | some key =>
      simp only [call, tell_state]
      exact listMembers_conducts program key assembly limit b
  | getCode key assembly changed => exact absurd rfl (hc key assembly changed)
  | refreshTree => exact conducts_carried (p := .refresh) trivial
  | removeAssembly path => exact removeAssembly_conducts program path b
  | setLanguage language => exact setLanguage_conducts program language b
  | engineStatus => exact .inl (engineStatus_rests b)
  | restartEngine => exact .inl (restartEngine_rests program b)

/-- A tree that has gone through an operation, over some session. -/
def Carries (t : Tree) (p : TreeOperation) (t' : Tree) : Prop :=
  ∃ world, t' = ((p.perform (Session.engine program)).runFrom ⟨t, world⟩).2.tree

/-- A call leaves the tree alone or carries out the operation that it is for. -/
theorem call_tree (c : ToolCall) {b : Browser σ}
    (hslots : ∀ slot id, b.tree.slots.find? slot = some id → ∃ n, b.tree.node? id = some n) :
    ((call program c).runFrom b).2.tree = b.tree ∨
      ∃ p, b.Wants c p ∧ Carries program b.tree p ((call program c).runFrom b).2.tree := by
  have hother (hc : ∀ key assembly changed, c ≠ .getCode key assembly changed) :
      ((call program c).runFrom b).2.tree = b.tree ∨
        ∃ p, b.Wants c p ∧ Carries program b.tree p ((call program c).runFrom b).2.tree := by
    rcases call_conducts program hc b with hrests | ⟨p, b₀, hp, hbefore, hafter⟩
    · exact .inl hrests.tree
    · exact .inr ⟨p, hp, b₀.session, hbefore.tree ▸ hafter.tree⟩
  cases c with
  | getCode key assembly changed =>
    simp only [call]
    cases hid : ((resolve key assembly).runFrom b).1 with
    | error f =>
      rw [getCode_unresolved program hid]
      exact .inl rfl
    | ok id =>
      obtain ⟨path, hslot⟩ := slot_of_resolve hid
      obtain ⟨n, hn⟩ := hslots _ id hslot
      rw [getCode_resolved program hid hn]
      split
      · exact .inl rfl
      · refine .inr ⟨.code id, hid, b.session, ?_⟩
        rw [showCode_run]
        split <;> rfl
  | _ => exact hother (by simp)

end

/-! ## Runs -/

/-- The browser after a run. -/
def following (program : Program σ) (xs : List Event) (b : Browser σ) : Browser σ :=
  xs.foldl (Event.after program) b

theorem following_append (program : Program σ) (xs ys : List Event) (b : Browser σ) :
    following program (xs ++ ys) b = following program ys (following program xs b) :=
  List.foldl_append

/-- Everything in a run has a property where it happens. -/
def Along (program : Program σ) (P : Browser σ → Event → Prop) : List Event → Browser σ → Prop
  | [], _ => True
  | x :: xs, b => P b x ∧ Along program P xs (x.after program b)

theorem along_concat {program : Program σ} {P : Browser σ → Event → Prop} {xs : List Event}
    {x : Event} {b : Browser σ} : Along program P (xs ++ [x]) b ↔
      Along program P xs b ∧ P (following program xs b) x := by
  induction xs generalizing b with
  | nil => simp [Along, following]
  | cons y ys ih =>
    rw [List.cons_append, Along, Along, ih, and_assoc]
    rfl

/-! ## A small assembly -/

/-- An image with the headers that make it a managed one, and nothing behind them. -/
def smallImage : FileData where
  runs := [(0x0, [0x4D, 0x5A]), (0x3C, [0x40]), (0x40, [0x50, 0x45]), (0x44, [0x4C, 0x01]),
    (0xB4, [0x10]), (0x128, [0x01, 0x00, 0x00, 0x00, 0x01])]
  size := 0x138

def smallBrowser : Browser Nat :=
  .new { bareMachine with
      root := .directory [("work", .directory [("a.dll", .file smallImage 0o644)])] }
    ⟨.ofPosition ["work"], none⟩ (.new plainSettings none ∅ 0 false) .csharp

/-- An engine whose answers are for an assembly, its one member and the text of that, in this order. -/
def smallProgram : Program Nat where
  launch w := (.started {} [.print "\x7b\"event\": \"ready\"\x7d"], w)
  react w _ _ :=
    let body := match w with
      | 0 => "\"assembly\":\x7b\"key\":\"a\",\"name\":\"n\",\"kind\":\"assembly\"\x7d"
      | 1 => "\"members\":[\x7b\"key\":\"k\",\"name\":\"m\",\"kind\":\"method\"\x7d]"
      | _ => "\"code\":\"x\""
    (⟨[.print ("\x7b\"id\":" ++ toString (w + 1) ++ ",\"success\":true,\"body\":\x7b" ++ body ++
      "\x7d\x7d")], none⟩, w + 1)

end Browser

end AssemblyBrowser
