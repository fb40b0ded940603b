import AssemblyBrowser.Proofs.Engine.Chronicle
/-!
Operations of a caller that is alone: when one begins no request waits, and when one ends none is left
waiting. Main statement: an operation returns a value only if it has written its request and the first
line afterwards that decides it is a success with its id, from the same generation.
-/
namespace AssemblyBrowser

open History

/-- An operation whose value is that of a request. -/
def Operation.Asks (op : Operation) : Prop := op.request? ≠ .ok none

/-- A value is read from one line: the request of the operation is written at one place, and at
another the same child prints a success with its id, the first line since that decides it. -/
def Operation.ReadsFrom (op : Operation) (past : List Passage) (g j k id : Nat) (v : Value) : Prop :=
  ∃ arguments line body, op.request? = .ok (some (op.command, arguments)) ∧
    past[k]? = some (.did g (.print line)) ∧
    Channel.readLine (Text.trim line) = .ok (.response ⟨id, .success body⟩) ∧
    Decides past g j k id op.command arguments (.ok ⟨id, .success body⟩) ∧
    op.result (.success body) = .ok v

namespace Operation

variable {op : Operation} {command : Command} {arguments : Fields}

theorem command_of_request (h : op.request? = .ok (some (command, arguments))) :
    op.command = command := by
  cases op with
  | load path =>
    cases h
    rfl
  | children key assembly =>
    cases h
    rfl
  | decompile key language assembly =>
    simp only [request?] at h
    cases hl : Session.languageOf language with
    | error f => simp [hl, Except.map] at h
    | ok l =>
      simp only [hl, Except.map, Except.ok.injEq, Option.some.injEq, Prod.mk.injEq] at h
      exact h.1
  | ensureRunning => cases h
  | restart => cases h
  | stop => cases h

/-- Only a success leads to a value. -/
theorem success_of_result (h : op.Asks) {answer : Answer} {v : Value}
    (hv : op.result answer = .ok v) : ∃ body, answer = .success body := by
  cases answer with
  | success body => exact ⟨body, rfl⟩
  | failure code message =>
    cases op with
    | load path => cases hv
    | children key assembly => cases hv
    | decompile key language assembly => cases hv
    | _ => exact absurd rfl h

/-- The value of the answer that the request of the operation was decided by. -/
theorem readsFrom {past : List Passage} {g j k id : Nat} {answer : Answer} {v : Value}
    (hop : op.request? = .ok (some (op.command, arguments)))
    (hd : Decides past g j k id op.command arguments (.ok ⟨id, answer⟩))
    (hv : op.result answer = .ok v) : op.ReadsFrom past g j k id v := by
  obtain ⟨body, rfl⟩ := success_of_result (by simp [Asks, hop]) hv
  obtain ⟨p, hp, hverdict⟩ := hd.verdict
  obtain ⟨line, rfl, -, hread, -⟩ := Passage.verdict_answer hverdict
  exact ⟨arguments, line, body, hop, hp, hread, hd, hv⟩

end Operation

namespace Session

variable {σ : Type} {program : Program σ} {s t u : Session (σ × List Passage)} {command : Command}
  {arguments : Fields} {answer : Answer}

/-- The history of a session goes on, and no request waits. -/
structure Rests (s t : Session (σ × List Passage)) : Prop where
  continues : s.Continues t
  idle : ∀ g, t.link.waiting g = []

namespace Rests

theorem later (h : s.Rests t) (ht : t.Continues u) : s.Rests u := by
  refine ⟨h.continues.trans ht, fun g => ?_⟩
  apply List.eq_nil_iff_forall_not_mem.mpr
  intro p hp
  have hold := ht.calms g p hp
  rw [h.idle g] at hold
  cases hold

/-- A request is answered by the line that has decided it, and when it has ended none waits. -/
theorem send (h : s.Rests t) (program : Program σ) (g : Nat) (command : Command)
    (arguments : Fields) :
    let r := (Session.send program.recorded g command arguments).runFrom t
    s.Rests r.2 ∧ ∀ answer, r.1 = .ok answer → ∃ k id,
      Decides r.2.past g t.past.length k id command arguments (.ok ⟨id, answer⟩) := by
  have hpost := h.continues.faithful.post program (h.idle g) command arguments
  intro r
  simp only [r, Session.send, Attempt.runFrom_bind]
  generalize (Session.post program.recorded g command arguments).runFrom t = posted at hpost
  obtain ⟨result, v⟩ := posted
  have hcontinues : ∀ {w : Session (σ × List Passage)}, v.Continues w →
      (∀ g', w.link.waiting g' = []) → s.Rests w := fun hw hidle =>
    ⟨⟨hw.faithful, h.continues.past.trans (hpost.past.trans hw.past), fun g' p hp => by
      rw [hidle g'] at hp
      cases hp⟩, hidle⟩
  cases result with
  | error f =>
    refine ⟨hcontinues hpost.faithful.refl fun g' => ?_, fun _ ha => by cases ha⟩
    apply List.eq_nil_iff_forall_not_mem.mpr
    intro p hp
    rcases hpost.waiting g' p hp with hold | ⟨-, id, hid, -⟩
    · rw [h.idle g'] at hold
      cases hold
    · cases hid
  | ok id =>
    obtain ⟨hw, hpast, hwaits, hanswer⟩ := hpost.faithful.collect g id command
    refine ⟨hcontinues hw fun g' => ?_, fun answer ha => ?_⟩
    · apply List.eq_nil_iff_forall_not_mem.mpr
      intro p hp
      rcases hpost.waiting g' p (hw.calms g' p hp) with hold | ⟨rfl, id', hid, rfl⟩
      · rw [h.idle g'] at hold
        cases hold
      · -- the request itself is no longer waited for
        cases hid
        exact (hwaits _ hp).2 rfl
    · obtain ⟨j, k, command', arguments', hd⟩ := hanswer answer ha
      have hasked := hpost.asked id rfl
      have hsame : j = t.past.length := hd.asked.unique hasked
      subst hsame
      refine ⟨k, id, ?_⟩
      dsimp only
      rw [hpast]
      exact hd.asked_as hasked

end Rests

theorem rests_kept (program : Program σ) (s : Session (σ × List Passage)) :
    Kept program.recorded (Rests s) where
  trace h trace := h.later (h.continues.faithful.of_trace trace)
  isRunning h := h.later h.continues.faithful.isRunning
  teardown h reason := h.later (h.continues.faithful.teardown reason)
  launch h := h.later (h.continues.faithful.launch program)
  send h g command arguments := (h.send program g command arguments).1
  loaded h f := h.later (h.continues.faithful.mapLoaded f)

/-- An answer is that of the line which has decided the request, and the request was written since. -/
def Responded (s t : Session (σ × List Passage)) (command : Command) (arguments : Fields)
    (answer : Answer) : Prop :=
  ∃ g j k id, s.past.length ≤ j ∧ Decides t.past g j k id command arguments (.ok ⟨id, answer⟩)

theorem Rests.request (h : s.Rests t)
    (hr : (request program.recorded command arguments).runFrom t = (.ok answer, u)) :
    s.Responded u command arguments answer := by
  obtain ⟨_, t₁, hrun, hr⟩ := Attempt.bind_returns hr
  have h₁ : s.Rests t₁ := by
    have hkept := (rests_kept program s).ensureRunning t h
    rw [hrun] at hkept
    exact hkept
  obtain ⟨_, t₂, hget, hr⟩ := Attempt.bind_returns hr
  cases hget
  cases hi : t₁.link.installed with
  | none =>
    rw [hi] at hr
    cases hr
  | some g =>
    rw [hi] at hr
    obtain ⟨r, t₂, hsend, hr⟩ := Attempt.bind_returns hr
    obtain ⟨-, hanswer⟩ := h₁.send program g command arguments
    rw [Attempt.runFrom_outcome] at hsend
    cases hsend
    have hgiven : giveUp g ((Session.send program.recorded g command arguments).runFrom t₁).1
        ((Session.send program.recorded g command arguments).runFrom t₁).2 = (.ok answer, u) := hr
    unfold giveUp at hgiven
    split at hgiven
    · rename_i he
      rw [he] at hgiven
      cases hgiven
    · obtain ⟨hok, rfl⟩ := Prod.mk.inj hgiven
      obtain ⟨k, id, hd⟩ := hanswer answer hok
      have hle := h₁.continues.past.length_le
      exact ⟨g, _, k, id, hle, hd⟩

theorem traced_returns {σ α : Type} {op : TracedOperation} {shown : List String} {show' : α → String}
    {a : Attempt (Session σ) α} {s t : Session σ} {v : α}
    (h : (traced op shown show' a).runFrom s = (.ok v, t)) : ∃ trace t',
      a.runFrom { s with trace } = (.ok v, t') ∧ t.supervisor.program = t'.supervisor.program := by
  obtain ⟨trace, trace', hr⟩ := traced_run op shown show' a s
  rw [hr] at h
  obtain ⟨hv, rfl⟩ := Prod.mk.inj h
  exact ⟨trace, _, Prod.ext hv rfl, rfl⟩

theorem Responded.reads {op : Operation} {v : Value}
    (h : s.Responded t op.command arguments answer)
    (hu : u.supervisor.program = t.supervisor.program)
    (hop : op.request? = .ok (some (op.command, arguments))) (hv : op.result answer = .ok v) :
    ∃ g j k id, s.past.length ≤ j ∧ op.ReadsFrom u.past g j k id v := by
  have hpast : u.past = t.past := congrArg Prod.snd hu
  obtain ⟨g, j, k, id, hle, hd⟩ := h
  exact ⟨g, j, k, id, hle, Operation.readsFrom hop (hpast ▸ hd) hv⟩

/-- An operation that sends a request has its value from one line, which has come after it. -/
theorem Rests.run (h : s.Rests s) {op : Operation} {v : Value}
    (hrun : (op.run program.recorded).runFrom s = (.ok v, u)) (hasks : op.Asks) :
    ∃ g j k id, s.past.length ≤ j ∧ op.ReadsFrom u.past g j k id v := by
  have hstart := fun trace => h.later (h.continues.faithful.of_trace trace)
  cases op with
  | load path =>
    obtain ⟨m, hload, rfl⟩ := Attempt.map_returns hrun
    obtain ⟨trace, t, hbody, hu⟩ := traced_returns hload
    obtain ⟨answer, t₁, hrequest, hrest⟩ := Attempt.bind_returns hbody
    obtain ⟨m', t₂, hresult, hremember⟩ := Attempt.bind_returns hrest
    obtain ⟨hm, rfl⟩ := Prod.mk.inj hresult
    cases hremember
    apply ((hstart trace).request hrequest).reads hu rfl
    simp only [Operation.result, hm, Except.map]
  | children key assembly =>
    obtain ⟨ms, hchildren, rfl⟩ := Attempt.map_returns hrun
    obtain ⟨trace, t, hbody, hu⟩ := traced_returns hchildren
    obtain ⟨answer, t₁, hrequest, hresult⟩ := Attempt.bind_returns hbody
    obtain ⟨hms, rfl⟩ := Prod.mk.inj hresult
    apply ((hstart trace).request hrequest).reads hu rfl
    simp only [Operation.result, hms, Except.map]
  | decompile key language assembly =>
    obtain ⟨code, hdecompile, rfl⟩ := Attempt.map_returns hrun
    obtain ⟨trace, t, hbody, hu⟩ := traced_returns hdecompile
    obtain ⟨l, t₀, hlanguage, hrest⟩ := Attempt.bind_returns hbody
    obtain ⟨hl, rfl⟩ := Prod.mk.inj hlanguage
    obtain ⟨answer, t₁, hrequest, hresult⟩ := Attempt.bind_returns hrest
    obtain ⟨hcode, rfl⟩ := Prod.mk.inj hresult
    apply ((hstart trace).request hrequest).reads hu
    · simp only [Operation.request?, hl, Except.map, Operation.command]
    · simp only [Operation.result, hcode, Except.map]
  | _ => exact absurd rfl hasks

end Session

end AssemblyBrowser
