import AssemblyBrowser.Proofs.Engine.Reaction
import AssemblyBrowser.Proofs.Engine.Shutdown
/-!
What an operation comes to that sends a request to a running engine, and what it leaves. Main
statement: its result is told by what settles the request; only an assembly that has been loaded is
remembered by it, and only an engine that does not answer in time is stopped.
-/
namespace AssemblyBrowser

/-! ## Results -/

namespace Operation

/-- The value in the body of a success. -/
def read : Operation → Fields → Except ProtocolError Value
  | .load _, body => (Member.ofLoadBody body).map .member
  | .children .., body => (Member.listOfBody body).map .members
  | .decompile .., body => (Member.codeOfBody body).map .code
  | _, _ => .ok .nothing

/-- The key of the member that an operation is about. -/
def key? : Operation → Option String
  | .children key _ => some key
  | .decompile key .. => some key
  | _ => none

/-- A result and what settles the request tell each other: the value is that of a success, a
rejection has the code and the message of the engine, what is malformed is a line or the body of a
success, the engine is unavailable where it ends first, and where nothing settles the request the
result is that of a wait in vain. -/
structure Concludes (op : Operation) (timeout : Number) (id : Nat) (settled : Option Settlement)
    (r : Except Failure Value) : Prop where
  value : ∀ v, r = .ok v ↔
    ∃ body, settled = some (.ok ⟨id, .success body⟩) ∧ op.read body = .ok v
  loadFailed : ∀ path message code, r = .error (.engine (.load path message code)) ↔
    settled = some (.ok ⟨id, .failure code message⟩) ∧ op = .load path
  decompileFailed : ∀ key operation message code,
    r = .error (.engine (.decompile key operation message code)) ↔
      settled = some (.ok ⟨id, .failure code message⟩) ∧ op.key? = some key ∧
        operation = op.command.name
  malformed : ∀ operation detail payload, r = .error (.engine (.malformed operation detail payload)) ↔
    settled = some (.error (.malformed operation detail payload)) ∨
      ∃ body e, settled = some (.ok ⟨id, .success body⟩) ∧ op.read body = .error e ∧
        operation = op.command.name ∧ detail = e.message ∧ payload = none
  unavailable : ∀ operation reason generation,
    r = .error (.engine (.unavailable operation reason generation)) ↔
      settled = some (.error (.unavailable operation reason generation))
  timedOut : ∀ operation seconds ms, r = .error (.engine (.timeout operation seconds ms)) ↔
    settled = none ∧ operation = op.command.name ∧ seconds = timeout ∧ timeout.wait = .ok () ∧
      timeout.milliseconds = .ok ms
  seconds : ∀ e, r = .error (.seconds e) ↔ settled = none ∧
    (timeout.wait = .error e ∨ timeout.wait = .ok () ∧ timeout.milliseconds = .error e)

variable {op : Operation}

theorem result_success (h : op.Asks) (body : Fields) : op.result (.success body) =
    (op.read body).mapError fun e => .engine (.malformed op.command.name e.message none) := by
  cases op with
  | load path =>
    simp only [result, Session.loadResult, Session.readBody, read, command]
    cases Member.ofLoadBody body <;> rfl
  | children key assembly =>
    simp only [result, Session.childrenResult, Session.readBody, read, command]
    cases Member.listOfBody body <;> rfl
  | decompile key language assembly =>
    simp only [result, Session.codeResult, Session.readBody, read, command]
    cases Member.codeOfBody body <;> rfl
  | _ => exact absurd rfl h

theorem result_failure (h : op.Asks) (code : Option String) (message : String) :
    (∃ path, op = .load path ∧
      op.result (.failure code message) = .error (.engine (.load path message code))) ∨
    ∃ key, op.key? = some key ∧ op.result (.failure code message) =
      .error (.engine (.decompile key op.command.name message code)) := by
  cases op with
  | load path => exact .inl ⟨path, rfl, rfl⟩
  | children key assembly => exact .inr ⟨key, rfl, rfl⟩
  | decompile key language assembly => exact .inr ⟨key, rfl, rfl⟩
  | _ => exact absurd rfl h

variable {id : Nat} {timeout : Number}

theorem concludes_success (h : op.Asks) (body : Fields) :
    op.Concludes timeout id (some (.ok ⟨id, .success body⟩)) (op.result (.success body)) := by
  rw [result_success h]
  cases hread : op.read body with
  | ok v => constructor <;> simp [Except.mapError, hread]
  | error e => constructor <;> simp [Except.mapError, hread, eq_comm, and_assoc, and_comm]

theorem concludes_failure (h : op.Asks) (code : Option String) (message : String) :
    op.Concludes timeout id (some (.ok ⟨id, .failure code message⟩))
      (op.result (.failure code message)) := by
  rcases result_failure h code message with ⟨path, rfl, hr⟩ | ⟨key, hkey, hr⟩
  · rw [hr]
    constructor <;> simp [key?]
    grind
  · rw [hr]
    constructor <;> simp [hkey]
    · rintro path rfl
      cases hkey
    · grind

theorem concludes_malformed (operation detail : String) (payload : Option String) :
    op.Concludes timeout id (some (.error (.malformed operation detail payload)))
      (.error (.engine (.malformed operation detail payload))) := by
  constructor <;> simp [eq_comm]

theorem concludes_unavailable (operation : String) (reason : Option String)
    (generation : Option Int) :
    op.Concludes timeout id (some (.error (.unavailable operation reason generation)))
      (.error (.engine (.unavailable operation reason generation))) := by
  constructor <;> simp [eq_comm]

theorem concludes_unanswered :
    op.Concludes timeout id none (.error (op.command.unanswered timeout)) := by
  unfold Command.unanswered EngineError.timedOut
  cases hwait : timeout.wait with
  | error e => constructor <;> simp [hwait]
  | ok _ =>
    cases hms : timeout.milliseconds with
    | error e => constructor <;> simp [hwait, hms, Except.map]
    | ok ms => constructor <;> simp [hwait, hms, Except.map, eq_comm]

/-- The result of an operation by what settles its request. -/
def outcome (op : Operation) (timeout : Number) (settled : Option Settlement) :
    Except Failure Value :=
  (op.command.outcome timeout settled).bind op.result

theorem concludes (h : op.Asks) {r : Reaction} {g : Nat} {settled : Option Settlement}
    (hs : r.Settles g id op.command settled) (timeout : Number) :
    op.Concludes timeout id settled (op.outcome timeout settled) := by
  cases hs with
  | unwritten => exact concludes_unavailable ..
  | ended => exact concludes_unavailable ..
  | silent => exact concludes_unanswered
  | decided hwritten hlines hpassed hdecided =>
    cases hdecided with
    | garbled => exact concludes_malformed ..
    | invalid => exact concludes_malformed ..
    | @answer message response hd hr hid =>
      obtain ⟨i, answer⟩ := response
      obtain rfl : i = id := hid
      cases answer with
      | success body => exact concludes_success h body
      | failure code message => exact concludes_failure h code message

end Operation

/-! ## An operation and its request -/

namespace Session

variable {σ : Type} {program : Program σ} {s t : Session σ} {op : Operation} {arguments : Fields}

/-- What an operation does with its result: an assembly that has been loaded is remembered. -/
def keep (op : Operation) (r : Except Failure Value) (s : Session σ) : Session σ :=
  match op, r with
  | .load path, .ok (.member m) => s.remember path m
  | _, _ => s

/-- An operation is its request and what follows from the answer; the rest is tracing. -/
theorem run_request (program : Program σ)
    (hop : op.request? = .ok (some (op.command, arguments))) (s : Session σ) : ∃ trace trace',
      let q := (request program op.command arguments).runFrom { s with trace }
      let r := q.1.bind op.result
      (op.run program).runFrom s = (r, { q.2.keep op r with trace := trace' }) := by
  cases op with
  | load path =>
    cases hop
    obtain ⟨trace, trace', hrun⟩ := traced_run .load [Text.quoted path] Member.display (do
      let answer ← request program .load (loadArguments path)
      let m ← Attempt.ofExcept (loadResult path answer)
      modify (·.remember path m)
      return m) s
    refine ⟨trace, trace', ?_⟩
    rw [Operation.run, Attempt.runFrom_map, Session.load, hrun, Attempt.runFrom_bind]
    dsimp only [Operation.command]
    generalize (request program .load (loadArguments path)).runFrom { s with trace } = q
    obtain ⟨r, t⟩ := q
    cases r with
    | error f => rfl
    | ok answer =>
      dsimp only [Except.bind, Operation.result]
      rw [Attempt.runFrom_bind, Attempt.runFrom_ofExcept]
      cases loadResult path answer <;> rfl
  | children key assembly =>
    cases hop
    obtain ⟨trace, trace', hrun⟩ := traced_run .children
      (Text.quoted key :: assembly.toList.map Text.quoted) displayMembers (do
        let answer ← request program .enumerate (memberArguments key assembly)
        Attempt.ofExcept (childrenResult key answer)) s
    refine ⟨trace, trace', ?_⟩
    rw [Operation.run, Attempt.runFrom_map, Session.children, hrun, Attempt.runFrom_bind]
    dsimp only [Operation.command]
    generalize (request program .enumerate (memberArguments key assembly)).runFrom
      { s with trace } = q
    obtain ⟨r, t⟩ := q
    cases r <;> rfl
  | decompile key language assembly =>
    cases hlanguage : languageOf language with
    | error f => simp [Operation.request?, hlanguage, Except.map] at hop
    | ok l =>
      simp only [Operation.request?, hlanguage, Except.map, Except.ok.injEq, Option.some.injEq,
        Prod.mk.injEq] at hop
      obtain ⟨-, rfl⟩ := hop
      obtain ⟨trace, trace', hrun⟩ := traced_run .decompile
        (decompileArguments key language assembly) Text.quoted (do
          let l ← Attempt.ofExcept (languageOf language)
          let answer ← request program .decompile
            (memberArguments key assembly ++ [("language", .text l.name)])
          Attempt.ofExcept (codeResult key answer)) s
      refine ⟨trace, trace', ?_⟩
      rw [Operation.run, Attempt.runFrom_map, Session.decompile, hrun, Attempt.runFrom_bind,
        Attempt.runFrom_ofExcept, hlanguage]
      dsimp only [Operation.command]
      rw [Attempt.runFrom_bind]
      generalize (request program .decompile
        (memberArguments key assembly ++ [("language", .text l.name)])).runFrom { s with trace } = q
      obtain ⟨r, t⟩ := q
      cases r <;> rfl
  | ensureRunning => cases hop
  | restart => cases hop
  | stop => cases hop

/-- Nothing is started for a request while the engine runs. -/
theorem request_running (program : Program σ) (hr : s.isRunning.1 = true) {g : Nat}
    (hi : s.link.installed = some g) (command : Command) (arguments : Fields) : ∃ trace,
      let q := (send program g command arguments).runFrom { s with trace }
      (request program command arguments).runFrom s = giveUp g q.1 q.2 := by
  obtain ⟨trace, trace', hrun⟩ := traced_run .ensureRunning [] noValue (do
    if ← runningNow then return () else relaunch program) s
  have hsame : s.isRunning.2 = s := by
    rcases s.isRunning_snd with ⟨-, hsame⟩ | ⟨hr', -⟩
    · exact hsame
    · rw [hr] at hr'
      cases hr'
  have hnow : (runningNow : Attempt (Session σ) Bool).runFrom { s with trace } =
      (.ok true, { s with trace }) := by
    have htrace := isRunning_trace s trace
    rw [hr, hsame] at htrace
    simp only [Attempt.runFrom, ExceptT.run, runningNow, htrace]
  rw [Attempt.runFrom_bind_ok hnow] at hrun
  have hensured : (ensureRunning program).runFrom s = (.ok (), { s with trace := trace' }) := hrun
  have hi' : ({ s with trace := trace' } : Session σ).link.installed = some g := hi
  refine ⟨trace', ?_⟩
  generalize ({ s with trace := trace' } : Session σ) = t at hensured hi' ⊢
  rw [request, Attempt.runFrom_bind_ok hensured, Attempt.runFrom_bind_ok (Attempt.runFrom_get t), hi']
  rfl

/-! ## What is left -/

/-- A line is written to the engine and nothing else is done to it: the session runs on, in the same
generation, unless the output of the engine has ended. -/
structure Lasts (s : Session σ) (line : String) (ended : Bool) (t : Session σ) : Prop where
  generation : t.generation = s.generation
  log : t.supervisor.log = s.supervisor.log ++ [.write s.generation line]
  state : t.state = if ended then .crashed else .running
  isRunning : t.isRunning.1 = !ended

variable {g : Nat} {c : Channel} {command : Command}

theorem Serving.released_letsGo (h : s.Serving g c) (hs : s.LetsGo) (hrunning : s.state = .running)
    (hl : ∀ line ∈ Act.lines (s.reaction program command arguments g c).acts,
      Channel.Legible line) : (s.released program command arguments g c).LetsGo := by
  have hlets := (letsGo_abiding program).kept.send hs g command arguments
  rwa [h.send_run program command arguments hs.sound hrunning hl] at hlets

section

variable (h : s.Serving g c) (hs : s.Sound) (hrunning : s.state = .running)
  (hl : ∀ line ∈ Act.lines (s.reaction program command arguments g c).acts, Channel.Legible line)
include h hs hrunning hl

theorem Serving.released_link :
    (s.released program command arguments g c).link.installed = some g ∧
      (s.released program command arguments g c).link.loaded = s.link.loaded := by
  obtain ⟨hlink, -⟩ := h.reacted program command arguments hs hrunning hl
  have hinstalled := congrArg Link.installed hlink
  have hloaded := congrArg Link.loaded hlink
  exact ⟨hinstalled.trans h.installed, hloaded⟩

theorem Serving.lasts : s.Lasts (Request.encode ⟨c.nextId, command, arguments⟩)
    (Act.ending? (s.reaction program command arguments g c).acts).isSome
    (s.released program command arguments g c) := by
  obtain ⟨hlink, hopen⟩ := h.reacted program command arguments hs hrunning hl
  have hg : g = s.generation := h.child.current
  have hframe := (Supervisor.acts_turn Link.listener g (s.reaction program command arguments g c).acts
    (s.asked program command arguments g c)).frame
  have hstate : (s.released program command arguments g c).state =
      if (Act.ending? (s.reaction program command arguments g c).acts).isSome then .crashed
      else .running := congrArg Link.state hlink
  refine ⟨hframe.generation, ?_, hstate, ?_⟩
  · rw [← hg]
    exact hframe.log
  · cases he : Act.ending? (s.reaction program command arguments g c).acts with
    | some exitCode =>
      rw [he] at hstate
      rw [Option.isSome_some, Bool.not_true, Bool.eq_false_iff, Ne, isRunning_iff, hstate]
      simp
    | none =>
      rw [he] at hstate
      rw [Option.isSome_none, Bool.not_false, isRunning_iff]
      refine ⟨?_, hstate, hopen he⟩
      have hchannel := h.reacted_channel program command arguments hs hrunning hl
      have hforget := (s.reacted program command arguments g c).link.channel?_update (g := g)
        (f := (·.forget c.nextId)) (fun _ _ hd => hd) g
      rw [if_pos rfl, hchannel] at hforget
      obtain ⟨hinstalled, -⟩ := h.released_link hs hrunning hl
      exact ⟨_, (Link.installed?_eq hinstalled).trans hforget,
        Channel.isClosed_reacted (h.isClosed_register command arguments) he c.nextId command⟩

end

theorem isRunning_keep (op : Operation) (r : Except Failure Value) (s : Session σ) :
    (s.keep op r).isRunning.1 = s.isRunning.1 := by
  unfold keep
  split
  · exact Bool.eq_iff_iff.mpr (isRunning_iff.trans (isRunning_iff (s := s)).symm)
  · rfl

theorem Lasts.keep {line : String} {ended : Bool} (h : s.Lasts line ended t) (op : Operation)
    (r : Except Failure Value) (trace : Option (List TraceRecord)) :
    s.Lasts line ended { t.keep op r with trace } := by
  have hsame : (t.keep op r).generation = t.generation ∧
      (t.keep op r).supervisor.log = t.supervisor.log ∧ (t.keep op r).state = t.state := by
    unfold Session.keep
    split <;> exact ⟨rfl, rfl, rfl⟩
  refine ⟨hsame.1.trans h.generation, hsame.2.1.trans h.log, hsame.2.2.trans h.state, ?_⟩
  rw [isRunning_trace, isRunning_keep]
  exact h.isRunning

/-! ## An operation of a session that runs -/

/-- The request was not answered in time. -/
def TimedOut {α : Type} (r : Except Failure α) : Prop :=
  ∃ operation seconds ms, r = .error (.engine (.timeout operation seconds ms))

theorem not_timedOut_result (h : op.Asks) (answer : Answer) : ¬TimedOut (op.result answer) := by
  rintro ⟨operation, seconds, ms, hr⟩
  cases answer with
  | success body =>
    rw [Operation.result_success h] at hr
    cases hread : op.read body <;> simp [hread, Except.mapError] at hr
  | failure code message =>
    rcases Operation.result_failure h code message with ⟨path, -, he⟩ | ⟨key, -, he⟩ <;>
      simp [he] at hr

/-- Only an engine that has not answered in time is given up. -/
theorem giveUp_cases (hi : s.link.installed = some g) (a : Except Failure Answer) :
    TimedOut a ∧ giveUp g a s = (a, s.teardown timedOutReason) ∨
      ¬TimedOut a ∧ giveUp g a s = (a, s) := by
  unfold giveUp
  split
  · rw [if_pos hi]
    exact .inl ⟨⟨_, _, _, rfl⟩, rfl⟩
  · rename_i hne
    refine .inr ⟨?_, rfl⟩
    rintro ⟨operation, seconds, ms, rfl⟩
    exact hne operation seconds ms rfl

theorem timedOut_bind (h : op.Asks) (a : Except Failure Answer) :
    TimedOut (a.bind op.result) ↔ TimedOut a := by
  cases a with
  | error f =>
    simp [TimedOut, Except.bind]
  | ok answer =>
    refine ⟨fun ht => absurd ht (not_timedOut_result h answer), ?_⟩
    rintro ⟨operation, seconds, ms, ha⟩
    cases ha

theorem keep_error (op : Operation) (f : Failure) (s : Session σ) : s.keep op (.error f) = s := by
  unfold keep
  split
  · rename_i he
    cases he
  · rfl

theorem keep_of_timedOut (op : Operation) {r : Except Failure Value} (h : TimedOut r)
    (s : Session σ) : s.keep op r = s := by
  obtain ⟨operation, seconds, ms, rfl⟩ := h
  exact keep_error op _ s

theorem keep_trace (op : Operation) (r : Except Failure Value) (s : Session σ)
    (trace : Option (List TraceRecord)) :
    ({ s with trace } : Session σ).keep op r = { s.keep op r with trace } := by
  unfold keep
  split <;> rfl

theorem Serving.of_trace (h : s.Serving g c) (trace : Option (List TraceRecord)) :
    ({ s with trace } : Session σ).Serving g c :=
  ⟨h.child, h.installed, h.channel, h.isOpen, h.idle⟩

/-- An operation that sends a request is told by what settles it; besides an assembly is remembered,
or the engine is stopped. -/
theorem Serving.run (h : s.Serving g c) (hs : s.Sound) (hr : s.isRunning.1 = true)
    (hop : op.request? = .ok (some (op.command, arguments)))
    (hl : ∀ line ∈ Act.lines (s.reaction program op.command arguments g c).acts,
      Channel.Legible line) :
    let settled := (s.reaction program op.command arguments g c).settlement? g c.nextId op.command
    let r := op.outcome s.settings.requestTimeout settled
    let u := s.released program op.command arguments g c
    ∃ t trace, (op.run program).runFrom s = (r, { t with trace }) ∧
      (TimedOut r → t = u.teardown timedOutReason) ∧ (¬TimedOut r → t = u.keep op r) := by
  intro settled r u
  have hasks : op.Asks := by simp [Operation.Asks, hop]
  obtain ⟨trace, trace', hrun⟩ := run_request program hop s
  have hr' : ({ s with trace } : Session σ).isRunning.1 = true := by rw [isRunning_trace, hr]
  obtain ⟨trace₂, hrequest⟩ := request_running program hr' h.installed op.command arguments
  rw [hrequest] at hrun
  have hstate : s.state = .running := (isRunning_iff.mp hr).2.1
  let a := op.command.outcome s.settings.requestTimeout settled
  have hsend : (Session.send program g op.command arguments).runFrom { s with trace := trace₂ } =
      (a, { u with trace := trace₂ }) :=
    (h.of_trace trace₂).send_result program op.command arguments (hs.of_trace trace₂) hstate hl
  have hinstalled : ({ u with trace := trace₂ } : Session σ).link.installed = some g :=
    (h.released_link hs hstate hl).1
  have htimed : TimedOut (a.bind op.result) ↔ TimedOut a := timedOut_bind hasks a
  rw [hsend] at hrun
  rcases giveUp_cases hinstalled a with ⟨hout, hgiven⟩ | ⟨hin, hgiven⟩
  · rw [hgiven, teardown_trace] at hrun
    have hout := htimed.mpr hout
    refine ⟨u.teardown timedOutReason, trace', ?_, fun _ => rfl, fun hin => absurd hout hin⟩
    rw [hrun]
    dsimp only
    rw [keep_of_timedOut op hout]
    rfl
  · rw [hgiven] at hrun
    refine ⟨u.keep op r, trace', ?_, fun hout => absurd (htimed.mp hout) hin, fun _ => rfl⟩
    rw [hrun]
    dsimp only
    rw [keep_trace]
    rfl

/-- What an operation makes of the assemblies that are remembered: one that it has loaded is added. -/
def remembering (op : Operation) (r : Except Failure Value) (loaded : OrderedMap String Member) :
    OrderedMap String Member :=
  match op, r with
  | .load path, .ok (.member m) => loaded.put path m
  | _, _ => loaded

theorem loaded_keep (op : Operation) (r : Except Failure Value) (s : Session σ) :
    (s.keep op r).link.loaded = remembering op r s.link.loaded := by
  unfold keep remembering
  split <;> rfl

/-- What an operation comes to that sends a request, and what it leaves. -/
theorem Serving.upshot (program : Program σ) (h : s.Serving g c) (hs : s.LetsGo)
    (hr : s.isRunning.1 = true) (hop : op.request? = .ok (some (op.command, arguments)))
    (hl : ∀ line ∈ Act.lines (s.reaction program op.command arguments g c).acts,
      Channel.Legible line) {settled : Option Settlement}
    (hsettled : (s.reaction program op.command arguments g c).Settles g c.nextId op.command settled) :
    ∃ r t, (op.run program).runFrom s = (r, t) ∧
      op.Concludes s.settings.requestTimeout c.nextId settled r ∧
      t.link.loaded = remembering op r s.link.loaded ∧
      (TimedOut r → t.IsStopped ∧ t.generation = s.generation) ∧
      (¬TimedOut r → s.Lasts (Request.encode ⟨c.nextId, op.command, arguments⟩)
        (Act.ending? (s.reaction program op.command arguments g c).acts).isSome t) := by
  obtain ⟨t, trace, hrun, hout, hin⟩ := h.run hs.sound hr hop hl
  have hasks : op.Asks := by simp [Operation.Asks, hop]
  have hstate : s.state = .running := (isRunning_iff.mp hr).2.1
  have hlasts := h.lasts hs.sound hstate hl
  have hreleased := h.released_letsGo hs hstate hl
  obtain ⟨-, hloaded⟩ := h.released_link hs.sound hstate hl
  rw [hsettled.eq] at hrun hout hin
  have hconcludes := Operation.concludes hasks hsettled s.settings.requestTimeout
  generalize op.outcome s.settings.requestTimeout settled = r at hrun hout hin hconcludes
  generalize s.released program op.command arguments g c = u
    at hout hin hlasts hreleased hloaded
  refine ⟨r, { t with trace }, hrun, hconcludes, ?_, ?_, ?_⟩
  · by_cases htimed : TimedOut r
    · rw [hout htimed]
      have hkeep := loaded_keep op r u
      rw [keep_of_timedOut op htimed] at hkeep
      exact ((hreleased.sound.teardown timedOutReason).1.loaded.trans hkeep).trans
        (congrArg (remembering op r) hloaded)
    · rw [hin htimed]
      exact (loaded_keep op r u).trans (congrArg (remembering op r) hloaded)
  · intro htimed
    rw [hout htimed]
    exact ⟨(hreleased.teardown timedOutReason).of_trace trace,
      (u.teardown_generation timedOutReason).trans hlasts.generation⟩
  · intro htimed
    rw [hin htimed]
    exact hlasts.keep op r trace

/-! ## A session at rest -/

theorem Accounted.upright {past : List Passage} (h : s.Accounted past) : s.Upright :=
  ⟨h.sound, h.consistent, h.link.opened⟩

/-- The number of the next request. -/
def nextId (s : Session σ) : Nat := (s.link.installed?.map Channel.nextId).getD 1

/-- The engine of a session that runs serves if no request waits. -/
theorem IsQuiet.serving (h : s.IsQuiet) (hr : s.isRunning.1 = true) :
    ∃ c, s.Serving s.generation c ∧ c.nextId = s.nextId := by
  obtain ⟨past, ha⟩ := h.accounted
  obtain ⟨⟨c, hc, hopen⟩, -, hrunning⟩ := isRunning_iff.mp hr
  obtain ⟨g, hi, hchannel⟩ := Option.bind_eq_some_iff.mp hc
  obtain rfl := ha.sound.current g hi
  obtain ⟨d, hd, hreading, hgreeted⟩ := ha.consistent.isRunning ha.sound.ended hrunning
  have hidle : c.pending = [] := (Link.waiting_of_channel hchannel).symm.trans (h.idle s.generation)
  have hnext : c.nextId = s.nextId := by rw [nextId, hc, Option.map_some, Option.getD_some]
  cases hheld : s.supervisor.held with
  | none =>
    rw [Supervisor.isRunning_of_held_none hheld] at hrunning
    cases hrunning
  | some g =>
    obtain ⟨hg, -⟩ := ha.consistent.held g hheld
    subst hg
    simp only [Supervisor.isRunning, Supervisor.heldChild?, hheld, Option.bind_some, hd, ne_eq,
      decide_not, Bool.and_eq_true, Bool.not_eq_true', decide_eq_false_iff_not] at hrunning
    refine ⟨c, ⟨⟨hheld, rfl, ⟨d, hd, ⟨hreading, hgreeted⟩, hrunning.2⟩, hrunning.1⟩, hi,
      hchannel, ?_, hidle⟩, hnext⟩
    exact Option.isNone_iff_eq_none.mp (by simpa [Channel.isClosed] using hopen)

end Session

namespace Callers

variable {σ : Type} {program : Program σ}

theorem Orderly.quiet {start : Callers σ} (h : (start.mapProgram (·, [])).Orderly none)
    {xs : List CallersStep} (hidle : (following program xs start).isBusy = false) :
    (following program xs start).session.IsQuiet := by
  rw [← witnessing_mapProgram] at hidle ⊢
  exact ((h.witnessing program xs).rests hidle).isQuiet

/-- The session with an engine that has been started and does not answer. -/
def reticentSession (timeout : Number) : Session Unit :=
  (following reticent [.alone .ensureRunning]
    (fresh { plainSettings with requestTimeout := timeout } none ∅ () false)).session

end Callers

end AssemblyBrowser
