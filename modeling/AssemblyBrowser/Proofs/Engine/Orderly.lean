import AssemblyBrowser.Proofs.Engine.Solitary
import AssemblyBrowser.Proofs.OrderedMap
/-!
Callers that use one session with a history, in any order of their steps. A request that waits
belongs to one caller, which waits for it and is the only one to have a request on its way to that
generation. Main statement: a step of a caller keeps this so; it waits for a request only after it
has written it, and it has a value for it only by the line that has decided the request.
-/
namespace AssemblyBrowser

open History

/-- The generation and the id of the request that a caller waits for. -/
def Phase.awaits? : Phase → Option (Nat × Nat)
  | .reloading _ g _ _ (.waiting id) => some (g, id)
  | .requesting _ _ g (.waiting id) => some (g, id)
  | _ => none

/-- The operation that is not at its end. -/
def Phase.operation? : Phase → Option Operation
  | .begun op | .wanting op | .reloading op _ _ _ _ | .requesting op _ _ _ | .givingUp op _ _ => some op
  | .finished _ => none

/-- What is to be requested is what the operation requests; one whose request cannot be made does not
get that far. -/
def Phase.IsProper : Phase → Prop
  | .requesting op arguments _ _ => op.request? = .ok (some (op.command, arguments))
  | .wanting op | .reloading op _ _ _ _ => ∃ request, op.request? = .ok request
  | _ => True

namespace Callers

variable {σ : Type} {c c' : Callers (σ × List Passage)} {i g id : Nat} {op : Operation}

def awaits? (c : Callers (σ × List Passage)) (i : Nat) : Option (Nat × Nat) :=
  (c.phase? i).bind Phase.awaits?

/-- What has passed in the session of all. -/
def past (c : Callers (σ × List Passage)) : List Passage := c.session.past

/-- Each request that waits has a caller that waits for it, and whose request is the one that is on
its way. One caller may be left apart. -/
structure Orderly (apart : Option Nat) (c : Callers (σ × List Passage)) : Prop where
  faithful : c.session.IsFaithful
  owned : ∀ g p, p ∈ c.session.link.waiting g → ∃ j, some j ≠ apart ∧ c.awaits? j = some (g, p.1)
  sender : ∀ j g id, some j ≠ apart → c.awaits? j = some (g, id) →
    Assoc.find? g c.senders = some j
  proper : ∀ j p, some j ≠ apart → c.phase? j = some p → p.IsProper

theorem phase_goto {τ : Type} (c : Callers τ) (i : Nat) (p : Phase) :
    (c.goto i p).phase? i = some p := Assoc.find?_put_self i p c.phases

theorem phase_goto_ne {τ : Type} {j : Nat} (hj : j ≠ i) (c : Callers τ) (p : Phase) :
    (c.goto i p).phase? j = c.phase? j := Assoc.find?_put_ne hj p c.phases

namespace Orderly

variable {apart : Option Nat}

/-- The history of the session goes on. -/
theorem continues (h : c.Orderly apart) {s : Session (σ × List Passage)}
    (hs : c.session.Continues s) : (c.withSession s).Orderly apart :=
  ⟨hs.faithful, fun g p hp => h.owned g p (hs.calms g p hp), h.sender, h.proper⟩

/-- A caller that waits for nothing may be left apart. -/
theorem leave (h : c.Orderly none) (hi : c.awaits? i = none) : c.Orderly (some i) := by
  refine ⟨h.faithful, fun g p hp => ?_, fun j g id _ => h.sender j g id (by simp),
    fun j p _ => h.proper j p (by simp)⟩
  obtain ⟨j, -, hj⟩ := h.owned g p hp
  refine ⟨j, fun he => ?_, hj⟩
  cases he
  rw [hi] at hj
  cases hj

/-- A caller that was left apart is no longer, if what it waits for is its own and of what waits now
nothing is without an owner. -/
theorem arrive (h : c.Orderly (some i)) {d : Callers (σ × List Passage)}
    (hfaithful : d.session.IsFaithful) (hothers : ∀ j ≠ i, d.phase? j = c.phase? j)
    (howned : ∀ g p, p ∈ d.session.link.waiting g →
      p ∈ c.session.link.waiting g ∨ d.awaits? i = some (g, p.1))
    (hown : ∀ g id, d.awaits? i = some (g, id) → Assoc.find? g d.senders = some i)
    (hsenders : ∀ j ≠ i, ∀ g, Assoc.find? g c.senders = some j → Assoc.find? g d.senders = some j)
    (hproper : ∀ p, d.phase? i = some p → p.IsProper) : d.Orderly none := by
  have hother : ∀ j ≠ i, d.awaits? j = c.awaits? j := fun j hj => by
    simp only [awaits?, hothers j hj]
  refine ⟨hfaithful, fun g p hp => ?_, fun j g id _ hj => ?_, fun j p _ hp => ?_⟩
  · rcases howned g p hp with hold | hnew
    · obtain ⟨j, hne, hj⟩ := h.owned g p hold
      have hne : j ≠ i := fun he => hne (congrArg some he)
      exact ⟨j, by simp, (hother j hne).trans hj⟩
    · exact ⟨i, by simp, hnew⟩
  · by_cases hne : j = i
    · subst hne
      exact hown g id hj
    · exact hsenders j hne g (h.sender j g id (by simpa using hne) ((hother j hne).symm.trans hj))
  · by_cases hne : j = i
    · subst hne
      exact hproper p hp
    · exact h.proper j p (by simpa using hne) ((hothers j hne).symm.trans hp)

/-- A caller goes where it waits for nothing. -/
theorem goto (h : c.Orderly (some i)) {p : Phase} (hp : p.awaits? = none) (hproper : p.IsProper) :
    (c.goto i p).Orderly none := by
  have hself : (c.goto i p).awaits? i = none := by
    simp only [awaits?, phase_goto, Option.bind_some, hp]
  refine h.arrive h.faithful (fun j hj => phase_goto_ne hj c p) (fun _ _ hq => .inl hq)
    (fun g id hi => ?_) (fun _ _ _ hj => hj) fun q hq => ?_
  · rw [hself] at hi
    cases hi
  · rw [phase_goto, Option.some.injEq] at hq
    exact hq ▸ hproper

/-- A caller goes where it waits for a request that was posted for it. -/
theorem await (h : c.Orderly (some i)) {g id : Nat} (hfree : c.isFree g = true)
    {s : Session (σ × List Passage)} {command : Command} {arguments : Fields}
    (hs : Session.Asks g command arguments c.session (.ok id, s)) {p : Phase}
    (hp : p.awaits? = some (g, id)) (hproper : p.IsProper) :
    (({ c with session := s, senders := Assoc.put g i c.senders } : Callers _).goto i p).Orderly
      none := by
  generalize hd : ({ c with session := s, senders := Assoc.put g i c.senders } : Callers _) = d
  have hself : (d.goto i p).awaits? i = some (g, id) := by
    simp only [awaits?, phase_goto, Option.bind_some, hp]
  have hsession : (d.goto i p).session = s := by rw [← hd]; rfl
  have hsenders : (d.goto i p).senders = Assoc.put g i c.senders := by rw [← hd]; rfl
  refine h.arrive (hsession ▸ hs.faithful) (fun j hj => ?_) (fun g' q hq => ?_) (fun g' id' hi => ?_)
    (fun j hj g' hg' => ?_) fun q hq => ?_
  · rw [phase_goto_ne hj, ← hd]
    rfl
  · rw [hsession] at hq
    rcases hs.waiting g' q hq with hold | ⟨rfl, id', hid, rfl⟩
    · exact .inl hold
    · cases hid
      exact .inr hself
  · rw [hself, Option.some.injEq, Prod.mk.injEq] at hi
    rw [hsenders, ← hi.1]
    exact Assoc.find?_put_self g i c.senders
  · -- another's request is on its way to another generation
    have hg : g' ≠ g := by
      intro he
      subst he
      simp [isFree, hg'] at hfree
    rw [hsenders]
    exact (Assoc.find?_put_ne hg i c.senders).trans hg'
  · rw [phase_goto, Option.some.injEq] at hq
    exact hq ▸ hproper

/-- Nobody waits at a generation to which no request is on its way. -/
theorem idle (h : c.Orderly apart) (hfree : c.isFree g = true) : c.session.link.waiting g = [] := by
  apply List.eq_nil_iff_forall_not_mem.mpr
  intro p hp
  obtain ⟨j, hne, hj⟩ := h.owned g p hp
  simp [isFree, h.sender j g p.1 hne hj] at hfree

end Orderly

/-! ## What a caller does -/

/-- What a caller that is left apart does while all stand where they stood. -/
structure Passes (i : Nat) (c c' : Callers (σ × List Passage)) : Prop where
  orderly : c'.Orderly (some i)
  phases : c'.phases = c.phases
  past : c.past <+: c'.past

/-- The caller goes on to where it waits for nothing; a value that it ends with has a condition. -/
structure Yields (i : Nat) (P : Value → Prop) (c c' : Callers (σ × List Passage)) : Prop where
  orderly : c'.Orderly none
  others : ∀ j ≠ i, c'.phase? j = c.phase? j
  past : c.past <+: c'.past
  awaits : c'.awaits? i = none
  value : ∀ v, c'.phase? i = some (.finished (.ok v)) → P v

variable {P : Value → Prop} {d : Callers (σ × List Passage)}

theorem Passes.trans (h : Passes i c c') (h' : Passes i c' d) : Passes i c d :=
  ⟨h'.orderly, h'.phases.trans h.phases, h.past.trans h'.past⟩

theorem Passes.yields (h : Passes i c c') (h' : Yields i P c' d) : Yields i P c d := by
  refine ⟨h'.orderly, fun j hj => (h'.others j hj).trans ?_, h.past.trans h'.past, h'.awaits,
    h'.value⟩
  rw [phase?, h.phases]
  rfl

namespace Orderly

section

variable (h : c.Orderly (some i))
include h

theorem withSession {s : Session (σ × List Passage)} (hs : c.session.Continues s) :
    Passes i c (c.withSession s) := ⟨h.continues hs, rfl, hs.past⟩

theorem note (r : TraceRecord) : Passes i c (c.note r) := h.withSession (h.faithful.of_trace _)

theorem isRunning : Passes i c (c.withSession c.session.isRunning.2) :=
  h.withSession h.faithful.isRunning

theorem takes : Passes i c { c with lifecycle := some i } :=
  ⟨⟨h.faithful, h.owned, h.sender, h.proper⟩, rfl, List.prefix_refl _⟩

theorem release : Passes i c (c.release i) := by
  unfold Callers.release
  split
  · exact ⟨⟨h.faithful, h.owned, h.sender, h.proper⟩, rfl, List.prefix_refl _⟩
  · exact ⟨h, rfl, List.prefix_refl _⟩

theorem yields_goto {p : Phase} (hp : p.awaits? = none) (hproper : p.IsProper)
    (hvalue : ∀ v, p = .finished (.ok v) → P v) : Yields i P c (c.goto i p) := by
  refine ⟨h.goto hp hproper, fun j hj => phase_goto_ne hj c p, List.prefix_refl _, ?_, fun v hv => ?_⟩
  · simp only [awaits?, phase_goto, Option.bind_some, hp]
  · rw [phase_goto, Option.some.injEq] at hv
    exact hvalue v hv

theorem finish (op : Operation) {r : Except Failure Value} (hvalue : ∀ v, r = .ok v → P v) :
    Yields i P c (c.finish i op r) := by
  have hend : ∀ {d}, Passes i c d → Yields i P c ((d.release i).goto i (.finished r)) := by
    intro d hd
    refine (hd.trans hd.orderly.release).yields ?_
    exact hd.orderly.release.orderly.yields_goto rfl trivial fun v hv => hvalue v (by cases hv; rfl)
  cases r with
  | ok v => exact hend (h.note _)
  | error f => exact hend (h.note _)

/-- An operation that fails has no value. -/
theorem finish_error (op : Operation) (f : Failure) : Yields i P c (c.finish i op (.error f)) :=
  h.finish op fun _ hv => by cases hv

/-! An operation that asks has no value before its request has ended. -/

theorem ready {op : Operation} {command : Command} {arguments : Fields}
    (hop : op.request? = .ok (some (command, arguments))) :
    Yields i P c (c.ready i op command arguments) := by
  have hnote := h.note (.ok .ensureRunning "None")
  have hrelease := hnote.trans hnote.orderly.release
  refine hrelease.yields ?_
  unfold Callers.ready
  dsimp only
  split
  · exact hrelease.orderly.finish_error op _
  · split
    · exact hrelease.orderly.finish_error op _
    · refine hrelease.orderly.yields_goto rfl ?_ fun v hv => by cases hv
      rw [← Operation.command_of_request hop] at hop
      exact hop

variable {op : Operation} (hvalue : ¬op.Asks → ∀ v, P v)
include hvalue

theorem start : Yields i P c (c.start i op) := by
  have hnote := h.note (.call op.traced op.shownArguments)
  have hwanting : ∀ {d}, (∃ request, op.request? = .ok request) → Passes i c d →
      Yields i P c (d.goto i (.wanting op)) := fun hop hd =>
    hd.yields (hd.orderly.yields_goto rfl hop fun v hv => by cases hv)
  unfold Callers.start
  dsimp only
  split
  · exact hnote.yields (hnote.orderly.finish_error op _)
  · rename_i hop
    have hnot : ¬op.Asks := fun hasks => hasks hop
    split
    · have hlook := hnote.trans hnote.orderly.isRunning
      split
      · exact hlook.yields (hlook.orderly.finish op fun v _ => hvalue hnot v)
      · exact hwanting ⟨_, hop⟩ hlook
    · exact hwanting ⟨_, hop⟩ hnote
  · rename_i command arguments hop
    have hcall := hnote.trans (hnote.orderly.note (.call .ensureRunning []))
    have hlook := hcall.trans hcall.orderly.isRunning
    split
    · exact hlook.yields (hlook.orderly.ready hop)
    · exact hwanting ⟨_, hop⟩ hlook

variable (hop : ∃ request, op.request? = .ok request)
include hop

theorem afterLaunch (r : Except Failure Unit) : Yields i P c (c.afterLaunch i op r) := by
  unfold Callers.afterLaunch
  split
  · rename_i command arguments hop
    cases r with
    | ok _ => exact h.ready hop
    | error f =>
      have hnote := h.note (.fail .ensureRunning f)
      exact hnote.yields (hnote.orderly.finish_error op f)
  · rename_i hother
    have hnot : ¬op.Asks := by
      obtain ⟨request, hr⟩ := hop
      cases request with
      | none => exact fun hasks => hasks hr
      | some request => exact absurd hr (hother request.1 request.2)
    exact h.finish op fun v _ => hvalue hnot v

theorem reloadNext (g : Nat) (paths : List String) :
    Yields i P c (c.reloadNext i op g paths) := by
  cases paths with
  | nil => exact h.afterLaunch hvalue hop (.ok ())
  | cons path rest =>
    simp only [Callers.reloadNext]
    split
    · rename_i e _
      have hsettle := h.withSession (h.faithful.settleReload path (.error (.engine e)))
      exact hsettle.yields (hsettle.orderly.afterLaunch hvalue hop _)
    · exact h.yields_goto rfl hop fun v hv => by cases hv

theorem endReload (g : Nat) (path : String) (rest : List String) (r : Except Failure Answer) :
    Yields i P c (c.endReload i op g path rest r) := by
  have hsettle := h.withSession (h.faithful.settleReload path r)
  refine hsettle.yields ?_
  unfold Callers.endReload
  dsimp only
  split
  · exact hsettle.orderly.reloadNext hvalue hop g rest
  · exact hsettle.orderly.afterLaunch hvalue hop _

theorem takeLifecycle (program : Program σ) :
    Yields i P c (c.takeLifecycle program.recorded i op) := by
  have htakes := h.takes
  unfold Callers.takeLifecycle
  dsimp only
  split
  · have hnot : ¬Operation.stop.Asks := fun hasks => hasks rfl
    have hteardown := htakes.trans
      (htakes.orderly.withSession (h.faithful.teardown "engine stopped"))
    exact hteardown.yields (hteardown.orderly.finish _ fun v _ => hvalue hnot v)
  · have hlook := htakes.trans htakes.orderly.isRunning
    split
    · exact hlook.yields (hlook.orderly.afterLaunch hvalue hop _)
    · have hlaunch := hlook.trans
        (hlook.orderly.withSession (hlook.orderly.faithful.launch program))
      split
      · rename_i hr
        have hs := congrArg Prod.snd hr
        dsimp only at hs
        subst hs
        exact hlaunch.yields (hlaunch.orderly.afterLaunch hvalue hop _)
      · rename_i hr
        have hs := congrArg Prod.snd hr
        dsimp only at hs
        subst hs
        exact hlaunch.yields (hlaunch.orderly.reloadNext hvalue hop _ _)

end

section

variable (h : c.Orderly (some i))
include h

theorem post_error {program : Program σ} (hfree : c.isFree g = true) {command : Command}
    {arguments : Fields} {f : Failure}
    (hpost : c.post program.recorded i g command arguments = (.error f, d)) : Passes i c d := by
  obtain ⟨hfaithful, hpast, hwaiting, -⟩ :=
    h.faithful.post program (h.idle hfree) command arguments
  unfold Callers.post at hpost
  dsimp only at hpost
  split at hpost
  · cases hpost
  · rename_i hr
    cases hpost
    refine h.withSession ⟨hfaithful, hpast, fun g' p hp => ?_⟩
    rcases hwaiting g' p hp with hold | ⟨-, id, hid, -⟩
    · exact hold
    · rw [hr] at hid
      cases hid

theorem post_ok {program : Program σ} (hfree : c.isFree g = true) {command : Command}
    {arguments : Fields}
    (hpost : c.post program.recorded i g command arguments = (.ok id, d)) :
    c.past <+: d.past ∧ d.phases = c.phases ∧
      Asked d.past g c.past.length id command arguments ∧
      ∀ p : Phase, p.awaits? = some (g, id) → p.IsProper → (d.goto i p).Orderly none := by
  have hasks := h.faithful.post program (h.idle hfree) command arguments
  unfold Callers.post at hpost
  dsimp only at hpost
  split at hpost
  · rename_i id' hr
    cases hpost
    rw [show (Session.post program.recorded g command arguments).runFrom c.session = (.ok id, _) from
      Prod.ext hr rfl] at hasks
    exact ⟨hasks.past, rfl, hasks.asked id rfl, fun p hp hproper => h.await hfree hasks hp hproper⟩
  · cases hpost

theorem endRequest (op : Operation) (g : Nat) (r : Except Failure Answer) :
    Yields i (fun v => ∃ answer, r = .ok answer ∧ op.result answer = .ok v) c
      (c.endRequest i op g r) := by
  unfold Callers.endRequest
  split
  · exact h.yields_goto rfl trivial fun v hv => by cases hv
  · exact h.finish_error op _
  · rename_i answer
    dsimp only
    split
    · rename_i path m hv
      have hremember := h.withSession (h.faithful.mapLoaded (·.put path m))
      exact hremember.yields (hremember.orderly.finish _ fun v hr => ⟨answer, rfl, hr⟩)
    · exact h.finish _ fun v hr => ⟨answer, rfl, hr⟩

theorem giveUp (op : Operation) (g : Nat) (f : Failure) :
    Yields i P c ((c.withSession (if c.session.link.installed = some g then
      c.session.teardown Session.timedOutReason else c.session)).finish i op (.error f)) := by
  split
  · have hteardown := h.withSession (h.faithful.teardown Session.timedOutReason)
    exact hteardown.yields (hteardown.orderly.finish_error op f)
  · exact h.finish_error op f

end

/-- The request of a caller comes to its end. -/
theorem collect (h : c.Orderly none) (hi : c.awaits? i = some (g, id)) (command : Command) :
    Passes i c (c.collect g id command).2 ∧
      ∀ answer, (c.collect g id command).1 = .ok answer → ∃ j k command arguments,
        Decides c.past g j k id command arguments (.ok ⟨id, answer⟩) := by
  obtain ⟨hcontinues, hpast, hwaits, hanswer⟩ := h.faithful.collect g id command
  refine ⟨⟨⟨hcontinues.faithful, fun g' p hp => ?_, fun j g' id' hne hj => ?_, fun j p _ => ?_⟩, rfl,
    hcontinues.past⟩, hanswer⟩
  · obtain ⟨j, -, hj⟩ := h.owned g' p (hcontinues.calms g' p hp)
    refine ⟨j, fun he => ?_, hj⟩
    cases he
    -- the caller waited for this request only, and it does not wait any more
    rw [hi] at hj
    simp only [Option.some.injEq, Prod.mk.injEq] at hj
    obtain ⟨rfl, rfl⟩ := hj
    exact (hwaits p hp).2 rfl
  · have hj : c.awaits? j = some (g', id') := hj
    have hsender := h.sender j g' id' (by simp) hj
    have hg : g' ≠ g := by
      intro he
      subst he
      rw [h.sender i g' id (by simp) hi] at hsender
      exact hne hsender.symm
    show Assoc.find? g' (Assoc.erase g c.senders) = some j
    have hfind := Assoc.find?_filter (fun k => decide (k ≠ g)) g' c.senders
    rw [if_pos (by simpa using hg)] at hfind
    exact hfind.trans hsender
  · exact h.proper j p (by simp)

end Orderly

/-! ## Steps -/

/-- A step of a caller. It waits for the request of its operation only after it has written it, and
has a value for it only by the line that has decided the request. -/
structure Steps (i : Nat) (c c' : Callers (σ × List Passage)) : Prop where
  orderly : c'.Orderly none
  others : ∀ j ≠ i, c'.phase? j = c.phase? j
  past : c.past <+: c'.past
  posted : ∀ op arguments g id, c'.phase? i = some (.requesting op arguments g (.waiting id)) →
    c.phase? i = some (.requesting op arguments g .queued) ∧
      Asked c'.past g c.past.length id op.command arguments
  answered : ∀ p op v, c.phase? i = some p → p.operation? = some op → op.Asks →
    c'.phase? i = some (.finished (.ok v)) →
      ∃ arguments g j k id command arguments' answer,
        p = .requesting op arguments g (.waiting id) ∧
        Decides c.past g j k id command arguments' (.ok ⟨id, answer⟩) ∧ op.result answer = .ok v

theorem Yields.steps {p : Phase} (h : Yields i P c c') (hp : c.phase? i = some p)
    (hvalue : ∀ op v, p.operation? = some op → op.Asks → P v →
      ∃ arguments g j k id command arguments' answer,
        p = .requesting op arguments g (.waiting id) ∧
        Decides c.past g j k id command arguments' (.ok ⟨id, answer⟩) ∧ op.result answer = .ok v) :
    Steps i c c' := by
  refine ⟨h.orderly, h.others, h.past, fun op arguments g id hi => ?_, fun q op v hq hop hasks hv => ?_⟩
  · have hawaits := h.awaits
    simp [awaits?, hi, Phase.awaits?] at hawaits
  · obtain rfl := Option.some.inj (hp.symm.trans hq)
    exact hvalue op v hop hasks (h.value v hv)

/-- Where the caller waits for nothing, it has no value before its request is on its way. -/
theorem Yields.steps_quiet {p : Phase} {op : Operation} (h : Yields i (fun _ => ¬op.Asks) c c')
    (hp : c.phase? i = some p) (hop : p.operation? = some op) : Steps i c c' := by
  refine h.steps hp fun op' v hop' hasks hnot => ?_
  rw [hop] at hop'
  cases hop'
  exact absurd hasks hnot

namespace Orderly

/-- A caller that waits for nothing may be left apart. -/
theorem apart (h : c.Orderly none) {p : Phase} (hp : c.phase? i = some p) (hw : p.awaits? = none) :
    c.Orderly (some i) :=
  h.leave (by simp only [awaits?, hp, Option.bind_some, hw])

/-- The request of a caller is on its way, and the caller waits for it in its next phase. -/
theorem posts (h : c.Orderly (some i)) {program : Program σ} (hfree : c.isFree g = true)
    {command : Command} {arguments : Fields}
    (hpost : c.post program.recorded i g command arguments = (.ok id, d)) {p : Phase}
    (hp : p.awaits? = some (g, id)) (hproper : p.IsProper)
    (hasked : ∀ op arguments' g' id', p = .requesting op arguments' g' (.waiting id') →
      c.phase? i = some (.requesting op arguments' g' .queued) ∧
        (g' = g ∧ id' = id ∧ op.command = command ∧ arguments' = arguments)) :
    Steps i c (d.goto i p) := by
  obtain ⟨hpast, hphases, hposted, hawait⟩ := h.post_ok hfree hpost
  refine ⟨hawait p hp hproper, fun j hj => ?_, hpast, fun op arguments' g' id' hi => ?_,
    fun q op v _ _ _ hv => ?_⟩
  · rw [phase_goto_ne hj, phase?, hphases]
    rfl
  · rw [phase_goto, Option.some.injEq] at hi
    obtain ⟨hqueued, rfl, rfl, rfl, rfl⟩ := hasked op arguments' g' id' hi
    exact ⟨hqueued, hposted⟩
  · -- a caller that has come to its end waits for nothing
    rw [phase_goto, Option.some.injEq] at hv
    subst hv
    cases hp

/-- A caller takes a step. -/
theorem step (h : c.Orderly none) (program : Program σ) {patient : Bool}
    (hstep : c.step? program.recorded patient i = some c') : Steps i c c' := by
  unfold step? at hstep
  split at hstep
  · cases hstep
  · cases hstep
  · rename_i op hp
    cases hstep
    exact ((h.apart hp rfl).start fun hnot _ => hnot).steps_quiet hp rfl
  · rename_i op hp
    split at hstep
    · cases hstep
      exact ((h.apart hp rfl).takeLifecycle (fun hnot _ => hnot) (h.proper i _ (by simp) hp)
        program).steps_quiet hp rfl
    · cases hstep
  · rename_i op g path rest hp
    have hop : ∃ request, op.request? = .ok request := h.proper i _ (by simp) hp
    split at hstep
    · rename_i hfree
      split at hstep
      · rename_i id d hpost
        cases hstep
        exact (h.apart hp rfl).posts hfree hpost rfl hop fun _ _ _ _ he => by cases he
      · rename_i f d hpost
        cases hstep
        have hpasses := (h.apart hp rfl).post_error hfree hpost
        exact (hpasses.yields (hpasses.orderly.endReload (fun hnot _ => hnot) hop ..)).steps_quiet hp rfl
    · cases hstep
  · rename_i op g path rest id hp
    split at hstep
    · cases hstep
    · cases hstep
      have hop : ∃ request, op.request? = .ok request := h.proper i _ (by simp) hp
      have hawaits : c.awaits? i = some (g, id) := by simp [awaits?, hp, Phase.awaits?]
      obtain ⟨hpasses, -⟩ := h.collect hawaits .load
      exact (hpasses.yields (hpasses.orderly.endReload (fun hnot _ => hnot) hop ..)).steps_quiet hp rfl
  · rename_i op arguments g hp
    split at hstep
    · rename_i hfree
      split at hstep
      · rename_i id d hpost
        cases hstep
        have hproper := h.proper i _ (by simp) hp
        refine (h.apart hp rfl).posts hfree hpost rfl hproper ?_
        rintro op' arguments' g' id' ⟨⟩
        exact ⟨hp, rfl, rfl, rfl, rfl⟩
      · rename_i f d hpost
        cases hstep
        have hpasses := (h.apart hp rfl).post_error hfree hpost
        exact (hpasses.yields (hpasses.orderly.finish_error op f)).steps_quiet hp rfl
    · cases hstep
  · rename_i op arguments g id hp
    split at hstep
    · cases hstep
    · cases hstep
      have hawaits : c.awaits? i = some (g, id) := by simp [awaits?, hp, Phase.awaits?]
      obtain ⟨hpasses, hanswer⟩ := h.collect hawaits op.command
      refine (hpasses.yields (hpasses.orderly.endRequest op g _)).steps hp ?_
      rintro op' v hop - ⟨answer, hr, hv⟩
      cases hop
      obtain ⟨j, k, command, arguments', hd⟩ := hanswer answer hr
      exact ⟨arguments, g, j, k, id, command, arguments', answer, rfl, hd, hv⟩
  · rename_i op g f hp
    split at hstep
    · cases hstep
      exact ((h.apart hp rfl).giveUp op g f).steps_quiet hp rfl
    · cases hstep

end Orderly

end Callers

end AssemblyBrowser
