import AssemblyBrowser.Proofs.Engine.Resting
/-!
What the trace of a session is, and what it is not. The records that an operation adds are those of
its call and of its end with those of the operations that it calls in between, and which they are does
not depend on what has been traced before or on whether anything is traced. Main statement: with the
trace and without it the same is done with the same results, and the records are well bracketed.
-/
namespace AssemblyBrowser

/-! ## Brackets -/

namespace TraceRecord

/-- The end of an operation. -/
def ending {α : Type} (op : TracedOperation) (shown : α → String) : Except Failure α → TraceRecord
  | .ok v => .ok op (shown v)
  | .error f => .fail op f

def Ends (op : TracedOperation) (r : TraceRecord) : Prop :=
  (∃ result, r = .ok op result) ∨ ∃ f, r = .fail op f

theorem ends_ending {α : Type} (op : TracedOperation) (shown : α → String) (r : Except Failure α) :
    (ending op shown r).Ends op := by
  cases r with
  | ok v => exact .inl ⟨_, rfl⟩
  | error f => exact .inr ⟨_, rfl⟩

/-- Each call is followed by well bracketed records, those of what it calls, and by its end. -/
inductive Bracketed : List TraceRecord → Prop
  | nil : Bracketed []
  | call {op : TracedOperation} {arguments : List String} {inner rest : List TraceRecord}
      {last : TraceRecord} : Bracketed inner → last.Ends op → Bracketed rest →
      Bracketed (.call op arguments :: inner ++ last :: rest)

theorem Bracketed.append {rs rs' : List TraceRecord} (h : Bracketed rs) (h' : Bracketed rs') :
    Bracketed (rs ++ rs') := by
  induction h with
  | nil => exact h'
  | @call op arguments inner rest last hinner hends _ _ ih =>
    have hcall : Bracketed (.call op arguments :: inner ++ last :: (rest ++ rs')) :=
      .call hinner hends ih
    simpa using hcall

/-- The records of a call: its own around those of what it calls. -/
def around {α : Type} (op : TracedOperation) (arguments : List String) (shown : α → String)
    (inner : List TraceRecord) (r : Except Failure α) : List TraceRecord :=
  .call op arguments :: inner ++ [ending op shown r]

theorem bracketed_around {α : Type} (op : TracedOperation) (arguments : List String)
    (shown : α → String) {inner : List TraceRecord} (h : Bracketed inner) (r : Except Failure α) :
    Bracketed (around op arguments shown inner r) :=
  .call h (ends_ending op shown r) .nil

end TraceRecord

namespace Session

variable {σ α β : Type} {s : Session σ} {rs : List TraceRecord}

/-! ## Attempts and their records -/

/-- From a session an attempt adds records to the trace, if there is one, and nothing else depends on
the trace. -/
def Notes (a : Attempt (Session σ) α) (s : Session σ) (rs : List TraceRecord) : Prop :=
  ∀ trace, a.runFrom { s with trace } =
    ((a.runFrom s).1, { (a.runFrom s).2 with trace := trace.map (· ++ rs) })

/-- What adds no records. -/
def Silent (a : Attempt (Session σ) α) : Prop := ∀ s, Notes a s []

theorem silent_iff {a : Attempt (Session σ) α} : Silent a ↔ ∀ s trace,
    a.runFrom { s with trace } = ((a.runFrom s).1, { (a.runFrom s).2 with trace }) := by
  simp only [Silent, Notes, List.append_nil, Option.map_id']

theorem Notes.bind {a : Attempt (Session σ) α} {f : α → Attempt (Session σ) β} (h : Notes a s rs)
    (hf : ∀ v, Silent (f v)) : Notes (a >>= f) s rs := by
  intro trace
  rw [Attempt.runFrom_bind, Attempt.runFrom_bind, h trace]
  cases a.runFrom s with
  | mk r t =>
    cases r with
    | error e => rfl
    | ok v => exact silent_iff.mp (hf v) t _

theorem Silent.bind {a : Attempt (Session σ) α} {f : α → Attempt (Session σ) β} (h : Silent a)
    (hf : ∀ v, Silent (f v)) : Silent (a >>= f) := fun s => (h s).bind hf

/-- What is looked up in the session has nothing to do with the trace. -/
theorem Silent.get_bind {f : Session σ → Attempt (Session σ) β} (h : ∀ s, Silent (f s))
    (hf : ∀ s trace, f { s with trace } = f s) : Silent (get >>= f) := by
  refine silent_iff.mpr fun s trace => ?_
  rw [Attempt.runFrom_bind_ok (Attempt.runFrom_get _), Attempt.runFrom_bind_ok (Attempt.runFrom_get _),
    hf]
  exact silent_iff.mp (h s) s trace

theorem Notes.map {a : Attempt (Session σ) α} (h : Notes a s rs) (f : α → β) :
    Notes (f <$> a) s rs := by
  intro trace
  rw [Attempt.runFrom_map, Attempt.runFrom_map, h trace]

theorem Silent.outcome {a : Attempt (Session σ) α} (h : Silent a) : Silent a.outcome := by
  refine silent_iff.mpr fun s trace => ?_
  rw [Attempt.runFrom_outcome, Attempt.runFrom_outcome, silent_iff.mp h s trace]

theorem silent_pure (v : α) : Silent (Pure.pure v : Attempt (Session σ) α) :=
  silent_iff.mpr fun _ _ => rfl

theorem silent_ofExcept (r : Except Failure α) : Silent (Attempt.ofExcept r : Attempt (Session σ) α) :=
  silent_iff.mpr fun _ _ => rfl

theorem Notes.ofExcept_bind {r : Except Failure α} {f : α → Attempt (Session σ) β}
    (herror : ∀ e, r = .error e → rs = []) (hok : ∀ v, r = .ok v → Notes (f v) s rs) :
    Notes (Attempt.ofExcept r >>= f) s rs := by
  cases r with
  | error e =>
    rw [herror e rfl]
    exact silent_iff.mpr (fun _ _ => rfl) s
  | ok v => exact hok v rfl

/-- Tracing an attempt puts its records between that of the call and that of the end. -/
theorem Notes.traced_runFrom {a : Attempt (Session σ) α} (h : Notes a s rs) (op : TracedOperation)
    (arguments : List String) (shown : α → String) (trace : Option (List TraceRecord)) :
    (traced op arguments shown a).runFrom { s with trace } = ((a.runFrom s).1,
      { (a.runFrom s).2 with
        trace := trace.map (· ++ TraceRecord.around op arguments shown rs (a.runFrom s).1) }) := by
  have hbody := h (trace.map (· ++ [.call op arguments]))
  simp only [Attempt.runFrom, ExceptT.run, traced] at hbody ⊢
  rw [hbody]
  cases a s with
  | mk r t => cases r <;> simp [TraceRecord.around, TraceRecord.ending, Function.comp_def]

theorem Notes.traced {a : Attempt (Session σ) α} (h : Notes a s rs) (op : TracedOperation)
    (arguments : List String) (shown : α → String) : Notes (traced op arguments shown a) s
      (TraceRecord.around op arguments shown rs
        ((Session.traced op arguments shown a).runFrom s).1) := by
  intro trace
  have hrun : (Session.traced op arguments shown a).runFrom s = _ :=
    h.traced_runFrom op arguments shown s.trace
  rw [h.traced_runFrom op arguments shown trace, hrun]

/-! ## The steps of operations -/

theorem silent_runningNow : Silent (runningNow : Attempt (Session σ) Bool) := by
  refine silent_iff.mpr fun s trace => ?_
  simp only [Attempt.runFrom, ExceptT.run, runningNow, isRunning_trace]

theorem silent_collect (g id : Nat) (command : Command) :
    Silent (collect g id command : Attempt (Session σ) Answer) := by
  refine silent_iff.mpr fun s trace => ?_
  have hlink : ({ s with trace } : Session σ).link = s.link := rfl
  simp only [Attempt.runFrom, ExceptT.run, collect, hlink]
  cases s.link.channel? g <;> rfl

theorem silent_settleReload (path : String) (r : Except Failure Answer) :
    Silent (settleReload path r : Attempt (Session σ) Unit) := by
  refine silent_iff.mpr fun s trace => ?_
  simp only [Attempt.runFrom, ExceptT.run, settleReload]
  split
  · rfl
  · rfl
  · rw [teardown_trace]
  · rfl

theorem silent_giveUp (g : Nat) (r : Except Failure Answer) :
    Silent (giveUp g r : Attempt (Session σ) Answer) := by
  refine silent_iff.mpr fun s trace => ?_
  have hlink : ({ s with trace } : Session σ).link = s.link := rfl
  simp only [Attempt.runFrom, ExceptT.run, giveUp, hlink, teardown_trace]
  split
  · dsimp only
    split <;> rfl
  · rfl

theorem silent_remember (path : String) (m : Member) :
    Silent (modify (·.remember path m) : Attempt (Session σ) PUnit) :=
  silent_iff.mpr fun _ _ => rfl

theorem silent_installation (m : Machine) :
    Silent (installation m : Attempt (Session σ) Fields) := by
  refine silent_iff.mpr fun s trace => ?_
  obtain ⟨settings, locator, supervisor, before⟩ := s
  cases locator <;> rfl

section

variable (program : Program σ)

theorem silent_launch : Silent (launch program) := by
  refine silent_iff.mpr fun s trace => ?_
  have hready : (({ s with trace } : Session σ).teardown "engine restarting").setState .starting =
      { (s.teardown "engine restarting").setState .starting with trace } := by
    rw [teardown_trace]
    rfl
  rw [launch_run, launch_run, hready]
  generalize (s.teardown "engine restarting").setState .starting = ready
  cases (Supervisor.start program Link.listener).runFrom ready.supervisor with
  | mk r v =>
    cases r with
    | error f => cases f <;> rfl
    | ok g => rfl

theorem silent_post (g : Nat) (command : Command) (arguments : Fields) :
    Silent (post program g command arguments) := by
  refine silent_iff.mpr fun s trace => ?_
  cases hr : s.refusal? g command with
  | some e => simp only [Attempt.runFrom, ExceptT.run, post, hr,
      show ({ s with trace } : Session σ).refusal? g command = _ from hr]
  | none =>
    cases hc : s.link.channel? g with
    | none => simp only [Attempt.runFrom, ExceptT.run, post, hr, hc,
        show ({ s with trace } : Session σ).refusal? g command = _ from hr,
        show ({ s with trace } : Session σ).link.channel? g = _ from hc]
    | some c =>
      have hrun := post_run program (s := { s with trace }) hc hr arguments
      rw [post_run program hc hr, hrun]
      dsimp only [enlist, mapLink]
      generalize (Supervisor.sendLine program Link.listener g _).runFrom _ = sent
      obtain ⟨r, v⟩ := sent
      cases r <;> rfl

theorem silent_send (g : Nat) (command : Command) (arguments : Fields) :
    Silent (send program g command arguments) :=
  (silent_post program g command arguments).bind fun id => silent_collect g id command

theorem silent_reload (g : Nat) (paths : List String) : Silent (reload program g paths) := by
  induction paths with
  | nil => exact silent_iff.mpr fun _ _ => rfl
  | cons path rest ih =>
    exact (silent_send program g .load (loadArguments path)).outcome.bind fun r =>
      (silent_settleReload path r).bind fun _ => ih

/-- To start an engine again calls no operation. -/
theorem silent_relaunch : Silent (relaunch program) :=
  (silent_launch program).bind fun c =>
    .get_bind (fun s => silent_reload program c.generation s.loadedAssemblies) fun _ _ => rfl

theorem notes_ensureRunning (s : Session σ) : Notes (ensureRunning program) s
    (TraceRecord.around .ensureRunning [] noValue [] ((ensureRunning program).runFrom s).1) := by
  refine Notes.traced (silent_runningNow.bind (fun running => ?_) s) _ _ _
  cases running with
  | true => exact silent_pure ()
  | false => exact silent_relaunch program

/-- A request makes sure first that the engine runs, and calls no other operation. -/
theorem notes_request (command : Command) (arguments : Fields) (s : Session σ) :
    Notes (request program command arguments) s
      (TraceRecord.around .ensureRunning [] noValue [] ((ensureRunning program).runFrom s).1) := by
  refine (notes_ensureRunning program s).bind fun _ => .get_bind (fun t => ?_) fun _ _ => rfl
  cases t.link.installed with
  | none => exact silent_iff.mpr fun _ _ => rfl
  | some g =>
    exact (silent_send program g command arguments).outcome.bind fun r => silent_giveUp g r

end

/-- What an operation returns is shown in the trace as such. -/
theorem Notes.returned {a : Attempt (Session σ) α} (h : Notes a s rs) (op : TracedOperation)
    (arguments : List String) {shown : α → String} {f : α → Value}
    (hshown : ∀ v, (f v).display = shown v) :
    Notes (f <$> Session.traced op arguments shown a) s
      (TraceRecord.around op arguments Value.display rs
        ((f <$> Session.traced op arguments shown a).runFrom s).1) := by
  have hnotes := (h.traced op arguments shown).map f
  have hending : ∀ r : Except Failure α,
      TraceRecord.ending op Value.display (r.map f) = TraceRecord.ending op shown r := by
    intro r
    cases r with
    | ok v => exact congrArg (TraceRecord.ok op) (hshown v)
    | error e => rfl
  simp only [TraceRecord.around, Attempt.runFrom_map, hending] at hnotes ⊢
  exact hnotes

end Session

/-! ## Operations -/

namespace Operation

variable {σ : Type} (program : Program σ)

/-- The records of what an operation calls: one that sends a request makes sure that the engine runs. -/
def innerRecords (op : Operation) (s : Session σ) : List TraceRecord :=
  match op.request? with
  | .ok (some _) => TraceRecord.around .ensureRunning [] Session.noValue []
      ((Session.ensureRunning program).runFrom s).1
  | _ => []

def records (op : Operation) (s : Session σ) : List TraceRecord :=
  TraceRecord.around op.traced op.shownArguments Value.display (op.innerRecords program s)
    ((op.run program).runFrom s).1

theorem bracketed_records (op : Operation) (s : Session σ) :
    TraceRecord.Bracketed (op.records program s) := by
  refine TraceRecord.bracketed_around _ _ _ ?_ _
  unfold innerRecords
  split
  · exact TraceRecord.bracketed_around _ _ _ .nil _
  · exact .nil

open Session in
/-- An operation does and returns the same whatever is traced, and adds its records. -/
theorem notes_run (op : Operation) (s : Session σ) :
    Notes (op.run program) s (op.records program s) := by
  cases op with
  | ensureRunning =>
    have hbody : Silent (do if ← runningNow then return () else relaunch program) :=
      silent_runningNow.bind fun running => by
        cases running with
        | true => exact silent_pure ()
        | false => exact silent_relaunch program
    exact (hbody s).returned .ensureRunning [] fun _ => rfl
  | restart => exact (silent_relaunch program s).returned .restart [] fun _ => rfl
  | stop =>
    have hbody : Silent (fun s : Session σ => (.ok (), s.teardown "engine stopped")) :=
      silent_iff.mpr fun s trace => congrArg _ (teardown_trace s "engine stopped" trace)
    exact (hbody s).returned .stop [] fun _ => rfl
  | load path =>
    refine Notes.returned ((notes_request program _ _ s).bind fun answer => ?_) _ _ fun _ => rfl
    exact (silent_ofExcept _).bind fun m => (silent_remember path m).bind fun _ => silent_pure m
  | children key assembly =>
    exact Notes.returned ((notes_request program _ _ s).bind fun answer => silent_ofExcept _) _ _
      fun _ => rfl
  | decompile key language assembly =>
    refine Notes.returned (Notes.ofExcept_bind (fun e he => ?_) fun l hl => ?_) _ _ fun _ => rfl
    · simp only [innerRecords, request?, he, Except.map]
    · simp only [innerRecords, request?, hl, Except.map]
      exact (notes_request program _ _ s).bind fun answer => silent_ofExcept _

end Operation

/-! ## Runs -/

/-- What a session is used for by one caller, and what a child does of its own accord. -/
inductive SessionUse
  | step (x : SessionStep)
  | diagnose (m : Machine)

/-- What a caller is told. -/
inductive SessionReply
  | value (r : Except Failure Value)
  | running (b : Bool)
  | facts (r : Except Failure Fields)
  | nothing

namespace SessionUse

variable {σ : Type} (program : Program σ)

def reply : SessionUse → Session σ → SessionReply
  | .step (.perform op), s => .value ((op.run program).runFrom s).1
  | .step .status, s => .running s.isRunning.1
  | .step (.unload _), _ | .step (.happen ..), _ => .nothing
  | .diagnose m, s => .facts ((Session.diagnose m).runFrom s).1

def after : SessionUse → Session σ → Session σ
  | .step x, s => x.after program s
  | .diagnose m, s => ((Session.diagnose m).runFrom s).2

/-- The records that a use adds to the trace. -/
def records : SessionUse → Session σ → List TraceRecord
  | .step (.perform op), s => op.records program s
  | .step .status, _ | .step (.unload _), _ | .step (.happen ..), _ | .diagnose _, _ => []

open Session in
theorem silent_diagnose (m : Machine) : Silent (Session.diagnose m : Attempt (Session σ) Fields) :=
  (silent_installation m).bind fun _ => .get_bind (fun _ => silent_runningNow.bind fun _ =>
    .get_bind (fun _ => silent_pure _) fun _ _ => rfl) fun _ _ => rfl

/-- A use comes to the same whatever is traced, and adds its records. -/
theorem after_trace (x : SessionUse) (s : Session σ) (trace : Option (List TraceRecord)) :
    x.reply program { s with trace } = x.reply program s ∧
      x.after program { s with trace } =
        { x.after program s with trace := trace.map (· ++ x.records program s) } := by
  cases x with
  | diagnose m =>
    have hrun := silent_diagnose m s trace
    simp only [reply, after, hrun, records, and_self]
  | step x =>
    cases x with
    | perform op =>
      have hrun := op.notes_run program s trace
      simp only [reply, after, SessionStep.after, hrun, records, and_self]
    | status =>
      have hrun := s.isRunning_trace trace
      simp only [reply, after, SessionStep.after, hrun, records, List.append_nil, Option.map_id',
        and_self]
    | unload path =>
      simp only [reply, after, SessionStep.after, records, List.append_nil, Option.map_id', true_and]
      rfl
    | happen g as =>
      simp only [reply, after, SessionStep.after, records, List.append_nil, Option.map_id', and_self]

theorem bracketed_records (x : SessionUse) (s : Session σ) :
    TraceRecord.Bracketed (x.records program s) := by
  unfold records
  split
  · exact Operation.bracketed_records program _ s
  all_goals exact .nil

end SessionUse

namespace Session

variable {σ : Type} (program : Program σ)

/-- The session after a run. -/
def afterUses (xs : List SessionUse) (s : Session σ) : Session σ :=
  xs.foldl (fun s x => x.after program s) s

/-- What the caller is told in a run. -/
def replies : List SessionUse → Session σ → List SessionReply
  | [], _ => []
  | x :: xs, s => x.reply program s :: replies xs (x.after program s)

/-- The records of a run, those of one operation after those of another. -/
def recorded : List SessionUse → Session σ → List TraceRecord
  | [], _ => []
  | x :: xs, s => x.records program s ++ recorded xs (x.after program s)

theorem afterUses_trace (xs : List SessionUse) (s : Session σ) (trace : Option (List TraceRecord)) :
    replies program xs { s with trace } = replies program xs s ∧
      afterUses program xs { s with trace } =
        { afterUses program xs s with trace := trace.map (· ++ recorded program xs s) } := by
  induction xs generalizing s trace with
  | nil => exact ⟨rfl, by simp [afterUses, recorded]⟩
  | cons x xs ih =>
    obtain ⟨hreply, hafter⟩ := x.after_trace program s trace
    obtain ⟨hreplies, huses⟩ := ih (x.after program s) (trace.map (· ++ x.records program s))
    refine ⟨?_, ?_⟩
    · rw [replies, hreply, hafter, hreplies]
      rfl
    · simp only [afterUses, List.foldl_cons] at huses ⊢
      rw [hafter, huses]
      simp [recorded, Function.comp_def]

theorem bracketed_recorded (xs : List SessionUse) (s : Session σ) :
    TraceRecord.Bracketed (recorded program xs s) := by
  induction xs generalizing s with
  | nil => exact .nil
  | cons x xs ih => exact (x.bracketed_records program s).append (ih _)

/-- Whatever a session is used for and whatever its children do, with and without the trace:

* the caller is told the same, and the session is the same but for the trace, so its state, its
  generation, the assemblies that it remembers and all that has been done to its children, what was
  written to them included, are the same;
* the trace consists of the records of the operations, one after another: of each its call, what it
  calls, and its end, which is a failure exactly if it has failed. -/
theorem tracing_observes (settings : EngineSettings) (locator : Option Locator)
    (environment : OrderedMap String String) (w : σ) (xs : List SessionUse) :
    let on := Session.new settings locator environment w true
    let off := Session.new settings locator environment w false
    replies program xs on = replies program xs off ∧
    { afterUses program xs on with trace := none } = afterUses program xs off ∧
    (afterUses program xs on).trace = some (.begun :: recorded program xs off) ∧
    TraceRecord.Bracketed (recorded program xs off) := by
  intro on off
  obtain ⟨hreplies, hon⟩ := afterUses_trace program xs off (some [.begun])
  obtain ⟨-, hoff⟩ := afterUses_trace program xs off none
  have hon : afterUses program xs on = _ := hon
  have hoff : afterUses program xs off = _ := hoff
  refine ⟨hreplies, ?_, ?_, bracketed_recorded program xs off⟩
  · rw [hon]
    exact hoff.symm
  · rw [hon]
    rfl

/-- A failure comes out of both calls when no engine is found. -/
example (program : Program σ) (w : σ) :
    let s := Session.new { plainSettings with command := none } none ∅ w true
    let f := Supervisor.startupError s.supervisor "No decompiler engine executable was found" none
    recorded program [.step (.perform (.load "a.dll")), .step (.perform .stop)] s =
      [.call .load ["'a.dll'"], .call .ensureRunning [], .fail .ensureRunning f, .fail .load f,
        .call .stop [], .ok .stop "None"] := by
  rfl

end Session

end AssemblyBrowser
