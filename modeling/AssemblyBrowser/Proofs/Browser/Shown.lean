import Mathlib.Data.List.Induction
import AssemblyBrowser.Proofs.Browser.Keys
/-!
The member that counts as shown. Main statement: along any run, whatever engines, files and environment
do, a member is called already shown only if its text is the last that was shown, in the language that
the tree has now, and since then no assembly has come or gone, the tree has not been refreshed, the
language has stayed and no text has failed to be shown.
-/
namespace AssemblyBrowser

variable {σ : Type}

namespace Tree

variable {t t' u : Tree}

/-! ## What listeners are told -/

/-- Listeners are told nothing, and the language stays. -/
structure Silent (t t' : Tree) : Prop where
  listeners : t'.listeners = t.listeners
  deliveries : t'.deliveries = t.deliveries
  language : t'.language = t.language

theorem Silent.refl (t : Tree) : t.Silent t := ⟨rfl, rfl, rfl⟩

theorem Silent.trans (h : t.Silent t') (h' : t'.Silent u) : t.Silent u :=
  ⟨h'.listeners.trans h.listeners, h'.deliveries.trans h.deliveries, h'.language.trans h.language⟩

theorem foldl_silent {α : Type} (f : Tree → α → Tree) (h : ∀ (t : Tree) a, t.Silent (f t a))
    (as : List α) : ∀ t : Tree, t.Silent (as.foldl f t) := by
  induction as with
  | nil => exact Silent.refl
  | cons a as ih => exact fun t => (h t a).trans (ih _)

theorem attach_silent (t : Tree) (id : NodeId) : t.Silent (t.attach id) := by
  unfold attach
  split <;> exact ⟨rfl, rfl, rfl⟩

theorem populate_silent (t : Tree) (id : NodeId) (n : Node) (ms : List Member) :
    t.Silent (t.populate id n ms) := by
  unfold populate adopt
  refine .trans ?_ (foldl_silent attach attach_silent _ _)
  exact ⟨rfl, rfl, rfl⟩

theorem replant_silent (t : Tree) : t.Silent t.replant := by
  have hbare : t.Silent { t with roots := ∅, slots := ∅ } := ⟨rfl, rfl, rfl⟩
  unfold replant
  refine hbare.trans (foldl_silent _ ?_ _ _)
  exact fun _ _ => ⟨rfl, rfl, rfl⟩

/-- All listeners are told the same, or none is told anything and assemblies and language stay. -/
def Announces (t t' : Tree) : Prop :=
  (∃ e, t'.deliveries = t.deliveries ++ t.listeners.map fun l => (l, e)) ∨
    t.Silent t' ∧ t'.paths = t.paths

theorem refresh_announces (t : Tree) : t.refresh.listeners = t.listeners ∧
    ∃ e, t.refresh.deliveries = t.deliveries ++ t.listeners.map fun l => (l, e) := by
  have h := replant_silent t
  refine ⟨h.listeners, .refreshed, ?_⟩
  rw [refresh, tell, h.deliveries, h.listeners]

/-- Nothing changes unannounced. -/
theorem Becomes.announces {p : TreeOperation} (hb : t.Becomes p t') :
    t'.listeners = t.listeners ∧ t.Announces t' := by
  cases hb with
  | same => exact ⟨rfl, .inr ⟨.refl t, rfl⟩⟩
  | added => exact ⟨rfl, .inl ⟨_, rfl⟩⟩
  | removed => exact ⟨rfl, .inl ⟨_, rfl⟩⟩
  | refreshed =>
    obtain ⟨hlisteners, hdeliveries⟩ := refresh_announces t
    exact ⟨hlisteners, .inl hdeliveries⟩
  | spoken =>
    obtain ⟨hlisteners, hdeliveries⟩ := refresh_announces { t with language := _ }
    exact ⟨hlisteners, .inl hdeliveries⟩
  | @listed id n _ _ ms =>
    have h := populate_silent t id n ms
    exact ⟨h.listeners, .inr ⟨h, congrArg OrderedMap.keys (roots_populate t id n ms)⟩⟩
  | shown => exact ⟨rfl, .inr ⟨⟨rfl, rfl, rfl⟩, rfl⟩⟩

/-- A look for a text changes the node at most by that text. -/
theorem Becomes.of_code {id : NodeId} {n : Node} (hb : t.Becomes (.code id) t')
    (hn : t.node? id = some n) :
    t.Silent t' ∧ ∃ code, t'.node? id = some { n with code } := by
  cases hb with
  | same => exact ⟨.refl t, n.code, hn⟩
  | shown hm text =>
    refine ⟨⟨rfl, rfl, rfl⟩, some text, ?_⟩
    rw [node?_modify, hn, if_pos rfl]
    rfl

end Tree

namespace Browser

variable (program : Program σ) {b b' : Browser σ}

/-! ## Answers -/

/-- The answer for a member that counts as shown. -/
def shownText (key : String) : String := "Member `" ++ key ++ "` is already shown."

/-- The answer with a text of a node. -/
def codeAnswer (n : Node) (code : String) (l : Language) : String :=
  Format.codeBlock n.member.name n.member.kind n.key code l.name

theorem head_shownText (key : String) : (shownText key).toList.head? = some 'M' := by
  simp [shownText]

theorem head_codeAnswer (n : Node) (code : String) (l : Language) :
    (codeAnswer n code l).toList.head? = some '*' := by
  simp [codeAnswer, Format.codeBlock, Format.ofLines]

theorem head_userMessage (f : Failure) : f.userMessage.toList.head? = some 'E' := by
  simp [Failure.userMessage, Report.userMessage, Report.userLines, String.toList_intercalate]

theorem head_staleFailure (f : Failure) : (staleFailure f).toList.head? = some 'E' := by
  unfold staleFailure
  split
  · simp
  · exact head_userMessage f

/-! ## What is selected -/

/-- Places are held by nodes of theirs, and the selection is told of changes. -/
structure Attends (b : Browser σ) : Prop where
  sited : b.tree.Sited
  listening : selectionListener ∈ b.tree.listeners

theorem Attends.rests (h : b.Attends) (hr : b.Rests b') : b'.Attends :=
  ⟨hr.tree ▸ h.sited, hr.tree ▸ h.listening⟩

/-- A call makes assemblies come or go, changes the language or refreshes the tree. -/
def Event.Alters (b : Browser σ) (x : Event) : Prop :=
  (x.after program b).tree.paths ≠ b.tree.paths ∨
    (x.after program b).tree.language ≠ b.tree.language ∨ x = .call .refreshTree

/-- A call is answered with a text of the member in a place, in the language of the tree. -/
def Event.Displays (b : Browser σ) (slot : Slot) (x : Event) : Prop :=
  ∃ key assembly changed id n code, x = .call (.getCode key assembly changed) ∧
    ((resolve key assembly).runFrom b).1 = .ok id ∧ b.tree.node? id = some n ∧ n.slot = slot ∧
    ((Browser.call program (.getCode key assembly changed)).runFrom b).1 =
      .ok (codeAnswer n code b.tree.language)

/-- A call for the text of a member that is known is answered with a failure. -/
def Event.Misses (b : Browser σ) (x : Event) : Prop :=
  ∃ key assembly changed id f, x = .call (.getCode key assembly changed) ∧
    ((resolve key assembly).runFrom b).1 = .ok id ∧
    ((Browser.call program (.getCode key assembly changed)).runFrom b).1 = .ok (staleFailure f)

/-- What was shown last is not touched. -/
def Event.IsQuiet (b : Browser σ) (x : Event) : Prop :=
  ¬x.Alters program b ∧ (∀ slot, ¬x.Displays program b slot) ∧ ¬x.Misses program b

/-- After an operation of the tree nothing is selected, or the selection and what it depends on are as
before. -/
theorem carried_selection (h : b.Attends) (p : TreeOperation) :
    (carried program p b).selection = .forget ∨
      (carried program p b).selection = b.selection ∧
        (carried program p b).tree.paths = b.tree.paths ∧
        (carried program p b).tree.language = b.tree.language := by
  have hbecomes := Tree.perform_becomes program p (s := b.forest) h.sited.idle
  rcases hbecomes.announces.2 with ⟨e, he⟩ | ⟨hsilent, hpaths⟩
  · exact .inl (onForest_told _ h.listening he)
  · have hrun := onForest_untold (p.perform (Session.engine program)) hsilent.deliveries
    refine .inr ⟨?_, hpaths, hsilent.language⟩
    rw [carried, hrun]

theorem refreshTree_forgets (h : b.Attends) :
    ((call program .refreshTree).runFrom b).2.selection = .forget := by
  obtain ⟨-, e, he⟩ := b.tree.refresh_announces
  exact onForest_told Forest.refresh h.listening he

/-- A text that has been fetched is shown for the node and in the language that there were. -/
theorem codeText_carried (h : b.Attends) {id : NodeId} {n : Node} (hn : b.tree.node? id = some n)
    (code : String) : codeText (carried program (.code id) b).tree id code =
      codeAnswer n code b.tree.language ∧
    (carried program (.code id) b).selection = b.selection ∧
    (carried program (.code id) b).tree.language = b.tree.language := by
  have hbecomes := Tree.perform_becomes program (.code id) (s := b.forest) h.sited.idle
  obtain ⟨hsilent, text, hnode⟩ := hbecomes.of_code hn
  have hrun := onForest_untold (TreeOperation.perform (Session.engine program) (.code id))
    hsilent.deliveries
  have htree : (carried program (.code id) b).tree.node? id = some { n with code := text } := hnode
  have hlanguage : (carried program (.code id) b).tree.language = b.tree.language :=
    hsilent.language
  refine ⟨?_, by rw [carried, hrun], hlanguage⟩
  rw [codeText, htree, codeAnswer, ← hlanguage]
  rfl

/-- How a call for the text of a known member ends: it counts as shown, its text is shown, or that
fails. -/
theorem getCode_outcome (h : b.Attends) {key : String} {assembly : Option String} {id : NodeId}
    {n : Node} (hid : ((resolve key assembly).runFrom b).1 = .ok id)
    (hn : b.tree.node? id = some n) (changed : Bool) :
    let r := (getCode program key assembly changed).runFrom b
    b.selection.last = some n.slot ∧ r = (.ok (shownText key), b) ∨
      (∃ code, r.1 = .ok (codeAnswer n code b.tree.language) ∧ r.2.selection.last = some n.slot ∧
        r.2.tree.language = b.tree.language) ∨
      ∃ f, r.1 = .ok (staleFailure f) ∧ r.2.selection.last = none := by
  dsimp only
  rw [getCode_resolved program hid hn]
  split
  · rename_i hshown
    exact .inl ⟨hshown.2, rfl⟩
  · have hsel : (b.selecting n.slot).Attends := ⟨h.sited, h.listening⟩
    rw [showCode_run]
    split
    · rename_i code hcode
      obtain ⟨htext, hselection, hlanguage⟩ :=
        codeText_carried program (b := b.selecting n.slot) hsel hn code
      refine .inr (.inl ⟨code, congrArg _ htext, ?_, hlanguage⟩)
      rw [hselection]
      rfl
    · rename_i f hf
      exact .inr (.inr ⟨f, rfl, rfl⟩)

/-! ## One event -/

/-- Browsers attend to their trees after anything that happens. -/
theorem Event.attends (h : b.Attends) (x : Event) : (x.after program b).Attends := by
  refine ⟨(Event.sited program h.sited x).1, ?_⟩
  cases x with
  | happen g acts => exact h.listening
  | change machine => exact h.listening
  | call c =>
    change selectionListener ∈ ((Browser.call program c).runFrom b).2.tree.listeners
    rcases call_becomes program h.sited c with hsame | ⟨p, -, hbecomes⟩
    · rw [hsame]
      exact h.listening
    · rw [hbecomes.announces.1]
      exact h.listening

/-- Only a call for a text displays one or misses one. -/
theorem Event.isQuiet_of_unaltered {x : Event}
    (hx : ∀ key assembly changed, x ≠ .call (.getCode key assembly changed))
    (h : ¬x.Alters program b) : x.IsQuiet program b := by
  refine ⟨h, ?_, ?_⟩
  · rintro slot ⟨key, assembly, changed, -, -, -, hcall, -⟩
    exact hx key assembly changed hcall
  · rintro ⟨key, assembly, changed, -, -, hcall, -⟩
    exact hx key assembly changed hcall

theorem Event.not_alters_of_same {x : Event} (hx : x ≠ .call .refreshTree)
    (hpaths : (x.after program b).tree.paths = b.tree.paths)
    (hlanguage : (x.after program b).tree.language = b.tree.language) : ¬x.Alters program b := by
  rintro (hno | hno | hcall)
  · exact hno hpaths
  · exact hno hlanguage
  · exact hx hcall

/-- A call that is not for a text keeps what was selected and is quiet, or nothing is selected after it. -/
theorem Event.selected_of_other (h : b.Attends) {c : ToolCall}
    (hc : ∀ key assembly changed, c ≠ .getCode key assembly changed) {slot : Slot}
    (hlast : ((Event.call c).after program b).selection.last = some slot) :
    b.selection.last = some slot ∧ (Event.call c).IsQuiet program b := by
  have hx : ∀ key assembly changed, Event.call c ≠ .call (.getCode key assembly changed) :=
    fun key assembly changed hcall => hc key assembly changed (Event.call.inj hcall)
  by_cases hrefresh : c = .refreshTree
  · subst hrefresh
    have hforget : ((Event.call .refreshTree).after program b).selection = .forget :=
      refreshTree_forgets program h
    rw [hforget] at hlast
    cases hlast
  · have hne : Event.call c ≠ .call .refreshTree := fun hcall => hrefresh (Event.call.inj hcall)
    rcases call_conducts program hc b with hrests | ⟨p, b₀, -, hbefore, hafter⟩
    · refine ⟨hrests.selection ▸ hlast, isQuiet_of_unaltered program hx ?_⟩
      exact not_alters_of_same program hne (congrArg Tree.paths hrests.tree)
        (congrArg Tree.language hrests.tree)
    · have hkept : ((Event.call c).after program b).selection = (carried program p b₀).selection :=
        hafter.selection
      rw [hkept] at hlast
      rcases carried_selection program (h.rests hbefore) p with hforget | ⟨hsame, hpaths, hlanguage⟩
      · rw [hforget] at hlast
        cases hlast
      · rw [hsame, hbefore.selection] at hlast
        rw [hbefore.tree] at hpaths hlanguage
        refine ⟨hlast, isQuiet_of_unaltered program hx ?_⟩
        exact not_alters_of_same program hne ((congrArg Tree.paths hafter.tree).trans hpaths)
          ((congrArg Tree.language hafter.tree).trans hlanguage)

/-- A member that is selected after a call for a text was displayed by it, or was selected before and the
call is quiet. -/
theorem Event.selected_of_getCode (h : b.Attends) (key : String) (assembly : Option String)
    (changed : Bool) {slot : Slot} {x : Event} (hx : x = .call (.getCode key assembly changed))
    (hlast : (x.after program b).selection.last = some slot) :
    (x.Displays program b slot ∧ (x.after program b).tree.language = b.tree.language) ∨
      b.selection.last = some slot ∧ x.IsQuiet program b := by
  have hafter : x.after program b = ((getCode program key assembly changed).runFrom b).2 := by
    rw [hx]
    rfl
  have hunaltered (hsame : x.after program b = b) : ¬x.Alters program b :=
    not_alters_of_same program (by simp [hx]) (by rw [hsame]) (by rw [hsame])
  cases hid : ((resolve key assembly).runFrom b).1 with
  | error f =>
    -- a key that means no node is answered without a look at the tree
    have hsame : x.after program b = b := by rw [hafter, getCode_unresolved program hid]
    refine .inr ⟨hsame ▸ hlast, hunaltered hsame, ?_, ?_⟩
    · rintro s ⟨_, _, _, id, _, _, hcall, hresolve, -⟩
      cases hx.symm.trans hcall
      rw [hid] at hresolve
      cases hresolve
    · rintro ⟨_, _, _, id, _, hcall, hresolve, -⟩
      cases hx.symm.trans hcall
      rw [hid] at hresolve
      cases hresolve
  | ok id =>
    obtain ⟨n, hn⟩ := holds_of_resolve h.sited hid
    rcases getCode_outcome program h hid hn.1 changed with
      ⟨hshown, hr⟩ | ⟨code, htext, hselected, hlanguage⟩ | ⟨f, htext, hselected⟩
    · have hsame : x.after program b = b := by rw [hafter, hr]
      refine .inr ⟨hsame ▸ hlast, hunaltered hsame, ?_, ?_⟩
      · rintro s ⟨_, _, _, id, n, code, hcall, -, -, -, hanswer⟩
        cases hx.symm.trans hcall
        rw [Browser.call, hr] at hanswer
        have hhead := head_shownText key
        rw [Except.ok.inj hanswer, head_codeAnswer] at hhead
        cases hhead
      · rintro ⟨_, _, _, id, f, hcall, -, hanswer⟩
        cases hx.symm.trans hcall
        rw [Browser.call, hr] at hanswer
        have hhead := head_shownText key
        rw [Except.ok.inj hanswer, head_staleFailure] at hhead
        cases hhead
    · rw [hafter, hselected] at hlast
      exact .inl ⟨⟨key, assembly, changed, id, n, code, hx, hid, hn.1, Option.some.inj hlast, htext⟩,
        hafter ▸ hlanguage⟩
    · rw [hafter, hselected] at hlast
      cases hlast

/-- What is selected after an event was displayed by it, or was selected before and the event is quiet. -/
theorem Event.selected (h : b.Attends) (x : Event) {slot : Slot}
    (hlast : (x.after program b).selection.last = some slot) :
    (x.Displays program b slot ∧ (x.after program b).tree.language = b.tree.language) ∨
      b.selection.last = some slot ∧ x.IsQuiet program b := by
  cases x with
  | happen g acts =>
    refine .inr ⟨hlast, isQuiet_of_unaltered program (by simp) ?_⟩
    exact not_alters_of_same program (by simp) rfl rfl
  | change machine =>
    refine .inr ⟨hlast, isQuiet_of_unaltered program (by simp) ?_⟩
    exact not_alters_of_same program (by simp) rfl rfl
  | call c =>
    by_cases hc : ∃ key assembly changed, c = .getCode key assembly changed
    · obtain ⟨key, assembly, changed, rfl⟩ := hc
      exact selected_of_getCode program h key assembly changed rfl hlast
    · simp only [not_exists] at hc
      exact .inr (selected_of_other program h hc hlast)

/-! ## Runs -/

theorem attends_new (machine : Machine) (settings : Settings) (session : Session σ)
    (language : Language) : (new machine settings session language).Attends :=
  ⟨sited_new machine settings session language, List.mem_singleton.mpr rfl⟩

theorem following_attends (h : b.Attends) (xs : List Event) : (following program xs b).Attends := by
  induction xs generalizing b with
  | nil => exact h
  | cons x xs ih => exact ih (x.attends program h)

/-- What is selected after a run was displayed in it, and everything since was quiet. -/
theorem following_selected (h : b.Attends) (hnone : b.selection.last = none) (xs : List Event)
    {slot : Slot} (hlast : (following program xs b).selection.last = some slot) :
    ∃ ys x zs, xs = ys ++ x :: zs ∧ x.Displays program (following program ys b) slot ∧
      (following program ys b).tree.language = (following program xs b).tree.language ∧
      Along program (fun b x => x.IsQuiet program b) zs (following program (ys ++ [x]) b) := by
  induction xs using List.reverseRecOn with
  | nil =>
    rw [following, List.foldl_nil, hnone] at hlast
    cases hlast
  | append_singleton xs x ih =>
    have hafter : following program (xs ++ [x]) b = x.after program (following program xs b) := by
      rw [following_append]
      rfl
    rw [hafter] at hlast ⊢
    rcases x.selected program (following_attends program h xs) hlast with
      ⟨hdisplays, hlanguage⟩ | ⟨hbefore, hquiet⟩
    · exact ⟨xs, x, [], rfl, hdisplays, hlanguage.symm, trivial⟩
    · obtain ⟨ys, y, zs, hxs, hdisplays, hlanguage, hrest⟩ := ih hbefore
      have hsame : (x.after program (following program xs b)).tree.language =
          (following program xs b).tree.language :=
        not_not.mp fun hno => hquiet.1 (.inr (.inl hno))
      refine ⟨ys, y, zs ++ [x], by rw [hxs]; simp, hdisplays, hlanguage.trans hsame.symm, ?_⟩
      refine along_concat.mpr ⟨hrest, ?_⟩
      rw [← following_append, List.append_assoc, List.singleton_append, ← hxs]
      exact hquiet

/-- A member is called already shown only if the last text that was shown, before this call in the run, is
that of the same place, in the language that the tree still has; in between no assembly has come or gone,
the tree has not been refreshed, the language not changed, and no text of a known member has failed to
be shown. -/
theorem already_shown_true (machine : Machine) (settings : Settings) (session : Session σ)
    (language : Language) (xs : List Event) (key : String) (assembly : Option String)
    (changed : Bool) :
    let start := new machine settings session language
    let b := following program xs start
    ((call program (.getCode key assembly changed)).runFrom b).1 = .ok (shownText key) →
      ∃ path id, ((resolve key assembly).runFrom b).1 = .ok id ∧
        b.tree.slots.find? (path, key) = some id ∧
        ∃ ys x zs, xs = ys ++ x :: zs ∧ x.Displays program (following program ys start) (path, key) ∧
          (following program ys start).tree.language = b.tree.language ∧
          Along program (fun b x => x.IsQuiet program b) zs
            (following program (ys ++ [x]) start) := by
  intro start b hanswer
  have h : b.Attends := following_attends program (attends_new machine settings session language) xs
  cases hid : ((resolve key assembly).runFrom b).1 with
  | error f =>
    rw [call, getCode_unresolved program hid] at hanswer
    have hhead := head_userMessage f
    split at hanswer
    · rw [Except.ok.inj hanswer, head_shownText] at hhead
      cases hhead
    · cases hanswer
  | ok id =>
    obtain ⟨path, hslot⟩ := slot_of_resolve hid
    obtain ⟨n, hn, hs⟩ := h.sited.slots _ id hslot
    refine ⟨path, id, rfl, hslot, ?_⟩
    have hhead := head_shownText key
    rcases getCode_outcome program h hid hn changed with
      ⟨hshown, -⟩ | ⟨code, htext, -⟩ | ⟨f, htext, -⟩
    · rw [hs] at hshown
      exact following_selected program (attends_new machine settings session language) rfl xs hshown
    · rw [call, htext] at hanswer
      rw [← Except.ok.inj hanswer, head_codeAnswer] at hhead
      cases hhead
    · rw [call, htext] at hanswer
      rw [← Except.ok.inj hanswer, head_staleFailure] at hhead
      cases hhead

/-- The text of a member is shown, and it counts as shown while its engine exits and after a call that
fails. -/
def showingRun : List Event :=
  [.call (.addAssembly "/work/a.dll"), .call (.listMembers (some "a") none 10),
    .call (.getCode "k" none true), .happen 1 [.exit 0], .call (.addAssembly "/work/b.dll")]

theorem already_shown_true_after_exit :
    let b := following smallProgram showingRun smallBrowser
    ((call smallProgram (.getCode "k" none true)).runFrom b).1 = .ok (shownText "k") ∧
      ∃ path id, ((resolve "k" none).runFrom b).1 = .ok id ∧
        b.tree.slots.find? (path, "k") = some id ∧
        ∃ ys x zs, showingRun = ys ++ x :: zs ∧
          x.Displays smallProgram (following smallProgram ys smallBrowser) (path, "k") ∧
          (following smallProgram ys smallBrowser).tree.language = b.tree.language ∧
          Along smallProgram (fun b x => x.IsQuiet smallProgram b) zs
            (following smallProgram (ys ++ [x]) smallBrowser) := by
  have hanswer : ((call smallProgram (.getCode "k" none true)).runFrom
      (following smallProgram showingRun smallBrowser)).1 = .ok (shownText "k") := by
    decide +kernel
  exact ⟨hanswer, already_shown_true smallProgram _ _ _ _ showingRun "k" none true hanswer⟩

end Browser

end AssemblyBrowser
