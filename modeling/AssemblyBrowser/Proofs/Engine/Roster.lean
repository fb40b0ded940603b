import AssemblyBrowser.Proofs.Engine.Registry
/-!
Callers whose requests are with their channels. A caller that waits for an answer has its request with
the channel of its generation and is the only one whose request is on its way there, and one that loads
assemblies again has the life of the engine in its hands. Main statement: a step of a caller keeps this
so, loses no request of another, and is no matter of the life of the engine when that is in the hands
of another.
-/
namespace AssemblyBrowser

/-- The request that a caller waits for. -/
def Phase.demand? : Phase → Option (Nat × Nat × Command)
  | .reloading _ g _ _ (.waiting id) => some (g, id, .load)
  | .requesting op _ g (.waiting id) => some (g, id, op.command)
  | _ => none

/-- Whether an operation loads assemblies again. -/
def Phase.reloads : Phase → Bool
  | .reloading .. => true
  | _ => false

namespace Callers

variable {σ : Type} {c c' d : Callers σ} {i g id : Nat} {op : Operation}

def demand? (c : Callers σ) (i : Nat) : Option (Nat × Nat × Command) :=
  (c.phase? i).bind Phase.demand?

def reloads (c : Callers σ) (i : Nat) : Bool := (c.phase? i).any Phase.reloads

/-- The request that a caller waits for is with its channel. One caller may be left apart. -/
structure Registered (apart : Option Nat) (c : Callers σ) : Prop where
  upright : c.session.Upright
  minds : ∀ j g id command, some j ≠ apart → c.demand? j = some (g, id, command) →
    c.session.link.Minds g id command
  sender : ∀ j g id command, some j ≠ apart → c.demand? j = some (g, id, command) →
    Assoc.find? g c.senders = some j
  holder : ∀ j, some j ≠ apart → c.reloads j = true → c.lifecycle = some j

/-- What a caller does while all stand where they stood. Where the life of the engine is in another's
hands, it stays there. -/
structure Stays (i : Nat) (c c' : Callers σ) : Prop where
  registered : c'.Registered (some i)
  phases : c'.phases = c.phases
  ages : c.session.link.Ages c'.session.link
  spares : ∀ k ≠ i, c.lifecycle = some k →
    c'.lifecycle = some k ∧ c.session.Spares c'.session

/-- A caller goes on. -/
structure Moves (i : Nat) (c c' : Callers σ) : Prop where
  registered : c'.Registered none
  others : ∀ j ≠ i, c'.phase? j = c.phase? j
  ages : c.session.link.Ages c'.session.link
  spares : ∀ k ≠ i, c.lifecycle = some k →
    c'.lifecycle = some k ∧ c.session.Spares c'.session

theorem Stays.trans (h : Stays i c c') (h' : Stays i c' d) : Stays i c d := by
  refine ⟨h'.registered, h'.phases.trans h.phases, h.ages.trans h'.ages, fun k hk hl => ?_⟩
  obtain ⟨hl', hs⟩ := h.spares k hk hl
  obtain ⟨hl'', hs'⟩ := h'.spares k hk hl'
  exact ⟨hl'', hs.trans hs'⟩

theorem Stays.moves (h : Stays i c c') (h' : Moves i c' d) : Moves i c d := by
  refine ⟨h'.registered, fun j hj => (h'.others j hj).trans ?_, h.ages.trans h'.ages,
    fun k hk hl => ?_⟩
  · rw [phase?, h.phases]
    rfl
  · obtain ⟨hl', hs⟩ := h.spares k hk hl
    obtain ⟨hl'', hs'⟩ := h'.spares k hk hl'
    exact ⟨hl'', hs.trans hs'⟩

namespace Registered

/-- A caller may be left apart. -/
theorem leave (h : c.Registered none) (i : Nat) : c.Registered (some i) :=
  ⟨h.upright, fun j g id command _ => h.minds j g id command (by simp),
    fun j g id command _ => h.sender j g id command (by simp), fun j _ => h.holder j (by simp)⟩

/-- A caller that waits for nothing and loads nothing need not be left apart. -/
theorem back (h : c.Registered (some i)) {p : Phase} (hp : c.phase? i = some p)
    (hd : p.demand? = none) (hr : p.reloads = false) : c.Registered none := by
  have hdemand : c.demand? i = none := by simp only [demand?, hp, Option.bind_some, hd]
  have hreloads : c.reloads i = false := by simp only [reloads, hp, Option.any_some, hr]
  have hne : ∀ {j}, j ≠ i → some j ≠ some i := fun hj he => hj (Option.some.inj he)
  refine ⟨h.upright, fun j g id command _ hj => ?_, fun j g id command _ hj => ?_, fun j _ hj => ?_⟩
  · refine h.minds j g id command (hne fun he => ?_) hj
    rw [he, hdemand] at hj
    cases hj
  · refine h.sender j g id command (hne fun he => ?_) hj
    rw [he, hdemand] at hj
    cases hj
  · refine h.holder j (hne fun he => ?_) hj
    rw [he, hreloads] at hj
    cases hj

section

variable (h : c.Registered (some i))
include h

theorem withSession {s : Session σ} (hs : c.session.Tends s)
    (hspares : ∀ k ≠ i, c.lifecycle = some k → c.session.Spares s) :
    Stays i c (c.withSession s) :=
  ⟨⟨hs.upright, fun j g id command hj hd => hs.minds g id command (h.minds j g id command hj hd),
    h.sender, h.holder⟩, rfl, hs.ages, fun k hk hl => ⟨hl, hspares k hk hl⟩⟩

/-- The life of the engine is not in another's hands. -/
theorem withSession_free {s : Session σ} (hs : c.session.Tends s)
    (hfree : ∀ k ≠ i, c.lifecycle ≠ some k) : Stays i c (c.withSession s) :=
  h.withSession hs fun k hk hl => absurd hl (hfree k hk)

theorem note (r : TraceRecord) : Stays i c (c.note r) :=
  h.withSession (h.upright.of_trace _) fun _ _ _ => ⟨rfl, rfl, fun _ hn => hn, fun hr => hr⟩

theorem isRunning : Stays i c (c.withSession c.session.isRunning.2) :=
  h.withSession h.upright.isRunning fun _ _ _ => h.upright.spares_isRunning

theorem release : Stays i c (c.release i) := by
  unfold Callers.release
  split
  · rename_i hi
    refine ⟨⟨h.upright, h.minds, h.sender, fun j hj hr => ?_⟩, rfl, .refl _, fun k hk hl => ?_⟩
    · have hl := h.holder j hj hr
      exact absurd (hl.symm.trans hi) hj
    · exact absurd (Option.some.inj (hl.symm.trans hi)) hk
  · exact ⟨h, rfl, .refl _, fun _ _ hl => ⟨hl, .refl _⟩⟩

/-- A caller takes the life of the engine into its hands. -/
theorem takes (hl : c.lifecycle = none) : Stays i c { c with lifecycle := some i } := by
  refine ⟨⟨h.upright, h.minds, h.sender, fun j hj hr => ?_⟩, rfl, .refl _, fun k _ hk => ?_⟩
  · cases hl.symm.trans (h.holder j hj hr)
  · cases hl.symm.trans hk

theorem goto {p : Phase}
    (hp : ∀ g id command, p.demand? = some (g, id, command) →
      c.session.link.Minds g id command ∧ Assoc.find? g c.senders = some i)
    (hr : p.reloads = true → c.lifecycle = some i) : Moves i c (c.goto i p) := by
  have hself : (c.goto i p).phase? i = some p := phase_goto c i p
  have hother : ∀ j ≠ i, (c.goto i p).phase? j = c.phase? j := fun j hj => phase_goto_ne hj c p
  have hcases : ∀ {j g id command}, (c.goto i p).demand? j = some (g, id, command) →
      (j = i ∧ p.demand? = some (g, id, command)) ∨
        (some j ≠ some i ∧ c.demand? j = some (g, id, command)) := by
    intro j g id command hj
    by_cases he : j = i
    · subst he
      rw [demand?, hself] at hj
      exact .inl ⟨rfl, hj⟩
    · rw [demand?, hother j he] at hj
      exact .inr ⟨by simpa using he, hj⟩
  refine ⟨⟨h.upright, fun j g id command _ hj => ?_, fun j g id command _ hj => ?_,
    fun j _ hj => ?_⟩, hother, .refl _, fun _ _ hl => ⟨hl, .refl _⟩⟩
  · rcases hcases hj with ⟨-, hd⟩ | ⟨hne, hd⟩
    · exact (hp g id command hd).1
    · exact h.minds j g id command hne hd
  · rcases hcases hj with ⟨rfl, hd⟩ | ⟨hne, hd⟩
    · exact (hp g id command hd).2
    · exact h.sender j g id command hne hd
  · by_cases he : j = i
    · subst he
      rw [reloads, hself] at hj
      exact hr hj
    · rw [reloads, hother j he] at hj
      exact h.holder j (by simpa using he) hj

/-- The caller goes where it waits for nothing and loads nothing. -/
theorem goto_quiet {p : Phase} (hp : p.demand? = none) (hr : p.reloads = false) :
    Moves i c (c.goto i p) := by
  refine h.goto (fun g id command hd => ?_) fun hr' => ?_
  · rw [hp] at hd
    cases hd
  · rw [hr] at hr'
    cases hr'

theorem finish (op : Operation) (r : Except Failure Value) : Moves i c (c.finish i op r) := by
  have hend : ∀ {d}, Stays i c d → Moves i c ((d.release i).goto i (.finished r)) := fun hd => by
    have hrelease := hd.trans hd.registered.release
    exact hrelease.moves (hrelease.registered.goto_quiet rfl rfl)
  cases r with
  | ok v => exact hend (h.note _)
  | error f => exact hend (h.note _)

theorem ready (op : Operation) (command : Command) (arguments : Fields) :
    Moves i c (c.ready i op command arguments) := by
  have hnote := h.note (.ok .ensureRunning "None")
  have hrelease := hnote.trans hnote.registered.release
  refine hrelease.moves ?_
  unfold Callers.ready
  dsimp only
  split
  · exact hrelease.registered.finish op _
  · split
    · exact hrelease.registered.finish op _
    · exact hrelease.registered.goto_quiet rfl rfl

theorem start (op : Operation) : Moves i c (c.start i op) := by
  have hnote := h.note (.call op.traced op.shownArguments)
  unfold Callers.start
  dsimp only
  split
  · exact hnote.moves (hnote.registered.finish op _)
  · split
    · have hlook := hnote.trans hnote.registered.isRunning
      split
      · exact hlook.moves (hlook.registered.finish op _)
      · exact hlook.moves (hlook.registered.goto_quiet rfl rfl)
    · exact hnote.moves (hnote.registered.goto_quiet rfl rfl)
  · rename_i command arguments _
    have hcall := hnote.trans (hnote.registered.note (.call .ensureRunning []))
    have hlook := hcall.trans hcall.registered.isRunning
    split
    · exact hlook.moves (hlook.registered.ready op command arguments)
    · exact hlook.moves (hlook.registered.goto_quiet rfl rfl)

theorem afterLaunch (op : Operation) (r : Except Failure Unit) :
    Moves i c (c.afterLaunch i op r) := by
  unfold Callers.afterLaunch
  split
  · rename_i command arguments _
    cases r with
    | ok _ => exact h.ready op command arguments
    | error f =>
      have hnote := h.note (.fail .ensureRunning f)
      exact hnote.moves (hnote.registered.finish op (.error f))
  · exact h.finish op _

/-- What the answer to loading an assembly again leads to is done by the one in whose hands the life
of the engine is. -/
theorem settleReload (hl : c.lifecycle = some i) (path : String) (r : Except Failure Answer) :
    Stays i c (c.withSession (Session.settleReload path r c.session).2) := by
  have hfree : ∀ k ≠ i, c.lifecycle ≠ some k := fun k hk he => by
    rw [hl, Option.some.injEq] at he
    exact hk he.symm
  refine h.withSession_free ?_ hfree
  unfold Session.settleReload
  split
  · exact h.upright.refl
  · exact h.upright.mapLoaded (·.erase path)
  · exact h.upright.teardown _
  · exact h.upright.refl

theorem reloadNext (hl : c.lifecycle = some i) (op : Operation) (g : Nat) (paths : List String) :
    Moves i c (c.reloadNext i op g paths) := by
  cases paths with
  | nil => exact h.afterLaunch op (.ok ())
  | cons path rest =>
    simp only [Callers.reloadNext]
    split
    · rename_i e _
      have hsettle := h.settleReload hl path (.error (.engine e))
      exact hsettle.moves (hsettle.registered.afterLaunch op _)
    · exact h.goto (fun _ _ _ hd => by cases hd) fun _ => hl

theorem endReload (hl : c.lifecycle = some i) (op : Operation) (g : Nat) (path : String)
    (rest : List String) (r : Except Failure Answer) :
    Moves i c (c.endReload i op g path rest r) := by
  have hsettle := h.settleReload hl path r
  refine hsettle.moves ?_
  unfold Callers.endReload
  dsimp only
  split
  · exact hsettle.registered.reloadNext hl op g rest
  · exact hsettle.registered.afterLaunch op _

theorem endRequest (op : Operation) (g : Nat) (r : Except Failure Answer) :
    Moves i c (c.endRequest i op g r) := by
  unfold Callers.endRequest
  split
  · exact h.goto_quiet rfl rfl
  · exact h.finish op _
  · dsimp only
    split
    · rename_i path m _
      have hremember := h.withSession (h.upright.mapLoaded (·.put path m)) fun _ _ _ =>
        ⟨rfl, rfl, fun _ hn => hn, fun hr => hr⟩
      exact hremember.moves (hremember.registered.finish _ _)
    · exact h.finish _ _

theorem giveUp (hl : c.lifecycle = none) (op : Operation) (g : Nat) (f : Failure) :
    Moves i c ((c.withSession (if c.session.link.installed = some g then
      c.session.teardown Session.timedOutReason else c.session)).finish i op (.error f)) := by
  have hfree : ∀ k ≠ i, c.lifecycle ≠ some k := fun k _ he => by
    rw [hl] at he
    cases he
  split
  · have hteardown := h.withSession_free (h.upright.teardown Session.timedOutReason) hfree
    exact hteardown.moves (hteardown.registered.finish op _)
  · exact h.finish op _

/-- The request of a caller is posted where none is on its way. -/
theorem post (program : Program σ) (hfree : c.isFree g = true) (command : Command)
    (arguments : Fields) :
    Stays i c (c.post program i g command arguments).2 ∧
      ∀ id, (c.post program i g command arguments).1 = .ok id →
        (c.post program i g command arguments).2.session.link.Minds g id command ∧
        Assoc.find? g (c.post program i g command arguments).2.senders = some i := by
  obtain ⟨htends, hspares, hminds⟩ := h.upright.post program g command arguments
  have hposted := h.withSession htends fun _ _ _ => hspares
  unfold Callers.post
  cases hr : (Session.post program g command arguments).runFrom c.session with
  | mk r s =>
    rw [hr] at hposted hminds
    cases r with
    | error f => exact ⟨hposted, fun _ hid => by cases hid⟩
    | ok id =>
      have hregistered := hposted.registered
      refine ⟨⟨⟨hregistered.upright, hregistered.minds, fun j g' id' command' hj hd => ?_,
        hregistered.holder⟩, hposted.phases, hposted.ages, hposted.spares⟩, fun id' hid => ?_⟩
      · -- another's request is on its way to another generation
        have hsender := h.sender j g' id' command' hj hd
        have hg : g' ≠ g := by
          intro he
          subst he
          simp [isFree, hsender] at hfree
        exact (Assoc.find?_put_ne hg i c.senders).trans hsender
      · cases hid
        exact ⟨hminds id rfl, Assoc.find?_put_self g i c.senders⟩

end

/-- The request of a caller comes to its end, and no other is lost. -/
theorem collect (h : c.Registered none) {command : Command}
    (hi : c.demand? i = some (g, id, command)) (command' : Command) :
    Stays i c (c.collect g id command').2 := by
  obtain ⟨hdrops, hspares⟩ := h.upright.collect g id command'
  have hother : ∀ {j g' id' command''}, some j ≠ some i → c.demand? j = some (g', id', command'') →
      g' ≠ g := by
    intro j g' id' command'' hne hj he
    subst he
    have hsender := h.sender j g' id' command'' (by simp) hj
    rw [h.sender i g' id command (by simp) hi] at hsender
    exact hne hsender.symm
  refine ⟨⟨hdrops.upright, fun j g' id' command'' hne hj => ?_, fun j g' id' command'' hne hj => ?_,
    fun j _ => h.holder j (by simp)⟩, rfl, hdrops.ages, fun _ _ hl => ⟨hl, hspares⟩⟩
  · refine hdrops.minds g' id' command'' (fun he => hother hne hj (congrArg Prod.fst he)) ?_
    exact h.minds j g' id' command'' (by simp) hj
  · show Assoc.find? g' (Assoc.erase g c.senders) = some j
    have hfind := Assoc.find?_filter (fun k => decide (k ≠ g)) g' c.senders
    rw [if_pos (by simpa using hother hne hj)] at hfind
    exact hfind.trans (h.sender j g' id' command'' (by simp) hj)

/-- A caller takes a step; it does not take the life of the engine into its hands. -/
theorem step (h : c.Registered none) (program : Program σ) {patient : Bool}
    (hnot : ∀ op, c.phase? i = some (.wanting op) → c.lifecycle ≠ none)
    (hstep : c.step? program patient i = some c') : Moves i c c' := by
  have hleft := h.leave i
  unfold step? at hstep
  split at hstep
  · cases hstep
  · cases hstep
  · cases hstep
    exact hleft.start _
  · rename_i op hp
    split at hstep
    · rename_i hl
      exact absurd (Option.isNone_iff_eq_none.mp hl) (hnot op hp)
    · cases hstep
  · rename_i op g path rest hp
    have hl : c.lifecycle = some i := h.holder i (by simp) (by simp [reloads, hp, Phase.reloads])
    split at hstep
    · rename_i hfree
      obtain ⟨hposted, hminds⟩ := hleft.post program hfree .load (Session.loadArguments path)
      have hl' : (c.post program i g .load (Session.loadArguments path)).2.lifecycle = some i := by
        rw [← hl]
        simp only [Callers.post]
        split <;> rfl
      split at hstep
      · rename_i id d hpost
        cases hstep
        rw [hpost] at hposted hminds hl'
        refine hposted.moves (hposted.registered.goto (fun g' id' command hd => ?_) fun _ => hl')
        cases hd
        exact hminds id rfl
      · rename_i f d hpost
        cases hstep
        rw [hpost] at hposted hl'
        exact hposted.moves (hposted.registered.endReload hl' ..)
    · cases hstep
  · rename_i op g path rest id hp
    have hl : c.lifecycle = some i := h.holder i (by simp) (by simp [reloads, hp, Phase.reloads])
    have hdemand : c.demand? i = some (g, id, .load) := by simp [demand?, hp, Phase.demand?]
    split at hstep
    · cases hstep
    · cases hstep
      have hcollect := h.collect hdemand .load
      exact hcollect.moves (hcollect.registered.endReload hl ..)
  · rename_i op arguments g hp
    split at hstep
    · rename_i hfree
      obtain ⟨hposted, hminds⟩ := hleft.post program hfree op.command arguments
      split at hstep
      · rename_i id d hpost
        cases hstep
        rw [hpost] at hposted hminds
        refine hposted.moves
          (hposted.registered.goto (fun g' id' command hd => ?_) fun hr => by cases hr)
        cases hd
        exact hminds id rfl
      · rename_i f d hpost
        cases hstep
        rw [hpost] at hposted
        exact hposted.moves (hposted.registered.finish ..)
    · cases hstep
  · rename_i op arguments g id hp
    have hdemand : c.demand? i = some (g, id, op.command) := by simp [demand?, hp, Phase.demand?]
    split at hstep
    · cases hstep
    · cases hstep
      have hcollect := h.collect hdemand op.command
      exact hcollect.moves (hcollect.registered.endRequest ..)
  · rename_i op g f hp
    split at hstep
    · rename_i hl
      cases hstep
      exact hleft.giveUp (Option.isNone_iff_eq_none.mp hl) op g f
    · cases hstep

end Registered

/-! ## What happens -/

theorem registered_fresh (settings : EngineSettings) (locator : Option Locator)
    (environment : OrderedMap String String) (w : σ) (traced : Bool) :
    (fresh settings locator environment w traced).Registered none where
  upright := Session.upright_new settings locator environment w traced
  minds _ _ _ _ _ hj := by cases hj
  sender _ _ _ _ _ hj := by cases hj
  holder _ _ hj := by cases hj

/-- What happens moves no caller but the one whose step it is; and where a caller has taken the life of
the engine into its hands, it stays there. -/
structure Lasts (x : CallersStep) (c c' : Callers σ) : Prop where
  registered : c'.Registered none
  ages : c.session.link.Ages c'.session.link
  phases : ∀ j p, c.phase? j = some p → (∀ r, p ≠ .finished r) → (∀ patient, x ≠ .step j patient) →
    c'.phase? j = some p
  spares : ∀ k op, c.lifecycle = some k → c.phase? k = some (.wanting op) →
    c'.lifecycle = some k ∧ c'.phase? k = some (.wanting op) ∧ c.session.Spares c'.session

namespace Registered

variable (h : c.Registered none)
include h

theorem lasts_refl (x : CallersStep) : Lasts x c c :=
  ⟨h, .refl _, fun _ _ hp _ _ => hp, fun _ _ hl hp => ⟨hl, hp, .refl _⟩⟩

theorem lasts_session {s : Session σ} (hs : c.session.Tends s) (hspares : c.session.Spares s)
    (x : CallersStep) : Lasts x c (c.withSession s) :=
  ⟨⟨hs.upright, fun j g id command hj hd => hs.minds g id command (h.minds j g id command hj hd),
    h.sender, h.holder⟩, hs.ages, fun _ _ hp _ _ => hp, fun _ _ hl hp => ⟨hl, hp, hspares⟩⟩

/-- Whatever happens, if no caller takes the life of the engine into its hands. -/
theorem lasts (program : Program σ) (x : CallersStep)
    (hnot : ∀ i patient op, x = .step i patient → c.phase? i = some (.wanting op) →
      c.lifecycle ≠ none) : Lasts x c (x.after program c) := by
  cases x with
  | begin i op =>
    simp only [CallersStep.after]
    split
    · rename_i hidle
      have hbegun : Moves i c (c.begin i op) := (h.leave i).goto_quiet rfl rfl
      have hother : ∀ {j p}, c.phase? j = some p → (∀ r, p ≠ .finished r) → j ≠ i := by
        rintro j p hp hr rfl
        obtain ⟨r, rfl⟩ := finished_of_isIdle hidle hp
        exact hr r rfl
      refine ⟨hbegun.registered, hbegun.ages, fun j p hp hr _ => ?_, fun k op' hl hp => ?_⟩
      · exact (hbegun.others j (hother hp hr)).trans hp
      · have hk : k ≠ i := hother hp fun r he => by cases he
        obtain ⟨hl', hspares⟩ := hbegun.spares k hk hl
        exact ⟨hl', (hbegun.others k hk).trans hp, hspares⟩
    · exact h.lasts_refl _
  | step i patient =>
    simp only [CallersStep.after]
    cases hstep : c.step? program patient i with
    | none => exact h.lasts_refl _
    | some c' =>
      have hmoves := h.step program (hnot i patient · rfl) hstep
      refine ⟨hmoves.registered, hmoves.ages, fun j p hp _ hx => ?_, fun k op hl hp => ?_⟩
      · have hj : j ≠ i := fun he => hx patient (by rw [he])
        exact (hmoves.others j hj).trans hp
      · have hk : k ≠ i := by
          rintro rfl
          simp [step?, hp, hl] at hstep
        obtain ⟨hl', hspares⟩ := hmoves.spares k hk hl
        exact ⟨hl', (hmoves.others k hk).trans hp, hspares⟩
  | alone op =>
    simp only [CallersStep.after]
    split
    · exact h.lasts_refl _
    · rename_i hbusy
      have hbusy : c.isBusy = false := by simpa using hbusy
      obtain ⟨hupright, hages⟩ := (Session.upright_kept program c.session).run op c.session
        ⟨h.upright, .refl _⟩
      -- all have come to their ends
      have hquiet : ∀ j, c.demand? j = none ∧ c.reloads j = false := by
        intro j
        unfold demand? reloads
        cases hp : c.phase? j with
        | none => exact ⟨rfl, rfl⟩
        | some p =>
          obtain ⟨r, rfl⟩ := finished_of_not_isBusy hbusy hp
          exact ⟨rfl, rfl⟩
      have hdemand : ∀ {j g id command}, c.demand? j ≠ some (g, id, command) := by
        intro j g id command hj
        rw [(hquiet j).1] at hj
        cases hj
      refine ⟨⟨hupright, fun j g id command _ hj => absurd hj hdemand,
        fun j g id command _ hj => absurd hj hdemand, fun j _ hj => ?_⟩, hages,
        fun _ _ hp _ _ => hp, fun k op' _ hp => ?_⟩
      · cases (hquiet j).2.symm.trans hj
      · obtain ⟨r, hr⟩ := finished_of_not_isBusy hbusy hp
        cases hr
  | status => exact h.lasts_session h.upright.isRunning h.upright.spares_isRunning _
  | unload path =>
    have hspares : c.session.Spares (c.session.unload path) :=
      ⟨rfl, rfl, fun _ hn => hn, fun hr => hr⟩
    exact h.lasts_session (h.upright.mapLoaded (·.erase path)) hspares _
  | happen g a => exact h.lasts_session (h.upright.happen g [a]) (h.upright.spares_happen g [a]) _

end Registered

end Callers

end AssemblyBrowser
