import AssemblyBrowser.Proofs.Engine.Mirror
import AssemblyBrowser.Proofs.Engine.Orderly
import Mathlib.Data.List.Induction
/-!
Whose answer a response is. What passes between a session and its children is the history of a run of
its callers. Main statement: whatever the callers and the children do, a value is returned only if a
step of the same operation has written its request and the first line afterwards that decides it is a
success with its id, from the same generation, which came while the caller waited; and no line decides
two requests.
-/
namespace AssemblyBrowser

open History

/-- What happens to a session with several callers: they begin operations and take steps, one that is
alone does all of an operation, and a child does something of its own accord. -/
inductive CallersStep
  | begin (i : Nat) (op : Operation)
  | step (i : Nat) (patient : Bool)
  | alone (op : Operation)
  | status
  | unload (path : String)
  | happen (generation : Nat) (a : Act)
deriving DecidableEq, Repr

/-- Whether a caller may begin an operation. -/
def Callers.isIdle {σ : Type} (c : Callers σ) (i : Nat) : Bool :=
  (c.phase? i).isNone || (c.result? i).isSome

namespace CallersStep

variable {σ : Type}

def after (program : Program σ) (x : CallersStep) (c : Callers σ) : Callers σ :=
  match x with
  | .begin i op => if c.isIdle i then c.begin i op else c
  | .step i patient => (c.step? program patient i).getD c
  | .alone op => if c.isBusy then c else c.withSession ((op.run program).runFrom c.session).2
  | .status => c.withSession c.session.isRunning.2
  | .unload path => c.withSession (c.session.unload path)
  | .happen g a => c.withSession
      { c.session with supervisor := c.session.supervisor.happen Link.listener g [a] }

/-- The same with all that passes laid down. -/
def witnessed (program : Program σ) (x : CallersStep) (c : Callers (σ × List Passage)) :
    Callers (σ × List Passage) :=
  match x with
  | .happen g a => c.withSession (c.session.witness g a)
  | x => x.after program.recorded c

end CallersStep

namespace Callers

variable {σ : Type}

/-- The callers of a session whose engine has not been started. -/
def fresh (settings : EngineSettings) (locator : Option Locator)
    (environment : OrderedMap String String) (w : σ) (traced : Bool) : Callers σ where
  session := Session.new settings locator environment w traced

/-- The callers after a run. -/
def following (program : Program σ) (xs : List CallersStep) (c : Callers σ) : Callers σ :=
  xs.foldl (fun c x => x.after program c) c

/-- The callers after a run of which all is laid down. -/
def witnessing (program : Program σ) (xs : List CallersStep) (c : Callers σ) :
    Callers (σ × List Passage) :=
  xs.foldl (fun c x => x.witnessed program c) (c.mapProgram (·, []))

/-- What passes between the session and its children in a run. -/
def history (program : Program σ) (xs : List CallersStep) (c : Callers σ) : List Passage :=
  (witnessing program xs c).past

end Callers

/-! ## Runs and their histories -/

theorem Program.recorded_mirrors {σ : Type} (program : Program σ) :
    program.recorded.Mirrors Prod.fst program where
  launch _ := rfl
  react _ _ _ := rfl

/-- What happens is the same whether it is laid down or not. -/
theorem CallersStep.witnessed_mapProgram {σ : Type} (program : Program σ) (x : CallersStep)
    (c : Callers (σ × List Passage)) :
    (x.witnessed program c).mapProgram Prod.fst = x.after program (c.mapProgram Prod.fst) := by
  have hmirrors := program.recorded_mirrors
  have hsession : (c.mapProgram Prod.fst).session = c.session.mapProgram Prod.fst := rfl
  cases x with
  | begin i op =>
    have hidle : (c.mapProgram Prod.fst).isIdle i = c.isIdle i := rfl
    simp only [witnessed, after, hidle]
    split <;> rfl
  | step i patient =>
    simp only [witnessed, after, Callers.step_mapProgram c i hmirrors]
    cases c.step? program.recorded patient i <;> rfl
  | alone op =>
    have hbusy : (c.mapProgram Prod.fst).isBusy = c.isBusy := rfl
    simp only [witnessed, after, hbusy]
    split
    · rfl
    · rw [hsession, Session.mirrors_run hmirrors op c.session]
      rfl
  | status =>
    simp only [witnessed, after, hsession, Session.isRunning_mapProgram]
    rfl
  | unload path => rfl
  | happen g a =>
    have hact := Supervisor.acts_mapProgram Prod.fst Link.listener c.session.supervisor g [a]
    have hsupervisor : (c.mapProgram Prod.fst).session.supervisor =
      c.session.supervisor.mapProgram Prod.fst := rfl
    have hframe := (Supervisor.acts_turn Link.listener g [a] c.session.supervisor).frame.program
    simp only [witnessed, after, Supervisor.happen, hsupervisor, hact]
    simp only [Callers.mapProgram, Callers.withSession, Session.mapProgram, Session.witness,
      Supervisor.mapProgram, Supervisor.happen, hframe]

namespace Callers

variable {σ : Type} {program : Program σ} {c c' : Callers (σ × List Passage)} {i g id : Nat}
  {op : Operation} {arguments : Fields}

theorem witnessing_concat (program : Program σ) (xs : List CallersStep) (x : CallersStep)
    (start : Callers σ) :
    witnessing program (xs ++ [x]) start = x.witnessed program (witnessing program xs start) := by
  simp only [witnessing, List.foldl_append, List.foldl_cons, List.foldl_nil]

theorem witnessing_mapProgram (program : Program σ) (xs : List CallersStep) (start : Callers σ) :
    (witnessing program xs start).mapProgram Prod.fst = following program xs start := by
  induction xs using List.reverseRecOn with
  | nil => rfl
  | append_singleton xs x ih =>
    rw [witnessing_concat, CallersStep.witnessed_mapProgram, ih]
    simp only [following, List.foldl_append, List.foldl_cons, List.foldl_nil]

theorem phase_following (program : Program σ) (xs : List CallersStep) (start : Callers σ) (i : Nat) :
    (following program xs start).phase? i = (witnessing program xs start).phase? i := by
  rw [← witnessing_mapProgram]
  rfl

theorem orderly_fresh (settings : EngineSettings) (locator : Option Locator)
    (environment : OrderedMap String String) (w : σ) (traced : Bool) :
    ((fresh settings locator environment w traced).mapProgram (·, [])).Orderly none where
  faithful := Session.accounted_new settings locator environment (w, []) traced
  owned _ _ hp := by cases hp
  sender _ _ _ _ hj := by cases hj
  proper _ _ _ hj := by cases hj

theorem finished_of_isIdle {τ : Type} {c : Callers τ} {p : Phase} (h : c.isIdle i = true)
    (hp : c.phase? i = some p) : ∃ r, p = .finished r := by
  unfold isIdle result? at h
  rw [hp] at h
  cases p with
  | finished r => exact ⟨r, rfl⟩
  | _ => cases h

theorem finished_of_not_isBusy {τ : Type} {c : Callers τ} {p : Phase} (h : c.isBusy = false)
    (hp : c.phase? i = some p) : ∃ r, p = .finished r := by
  have hmem : i ∈ c.callerIds := (Assoc.find?_isSome_iff i c.phases).mp (by
    rw [show Assoc.find? i c.phases = some p from hp]
    rfl)
  have hdone := List.any_eq_false.mp h i hmem
  simp only [Option.isNone_iff_eq_none] at hdone
  exact finished_of_isIdle (by simp [isIdle, Option.isSome_iff_ne_none.mpr hdone]) hp

/-- A caller without an operation that goes on waits for nothing. -/
theorem awaits_of_isIdle (h : c.isIdle i = true) : c.awaits? i = none := by
  unfold awaits?
  cases hp : c.phase? i with
  | none => rfl
  | some p =>
    obtain ⟨r, rfl⟩ := finished_of_isIdle h hp
    rfl

/-- When all operations have come to their ends, nobody waits. -/
theorem awaits_of_not_isBusy (h : c.isBusy = false) (i : Nat) : c.awaits? i = none := by
  unfold awaits?
  cases hp : c.phase? i with
  | none => rfl
  | some p =>
    obtain ⟨r, rfl⟩ := finished_of_not_isBusy h hp
    rfl

/-- Then the session rests. -/
theorem Orderly.rests (h : c.Orderly none) (hbusy : c.isBusy = false) :
    c.session.Rests c.session := by
  refine ⟨h.faithful.refl, fun g => ?_⟩
  apply List.eq_nil_iff_forall_not_mem.mpr
  intro p hp
  obtain ⟨j, -, hj⟩ := h.owned g p hp
  rw [awaits_of_not_isBusy hbusy j] at hj
  cases hj

/-- What happens moves no caller but the one whose step it is, or that begins an operation. -/
structure Evolves (x : CallersStep) (c c' : Callers (σ × List Passage)) : Prop where
  orderly : c'.Orderly none
  past : c.past <+: c'.past
  phase : ∀ i, c'.phase? i = c.phase? i ∨ (∃ op, c'.phase? i = some (.begun op)) ∨
    ∃ patient, x = .step i patient ∧ Steps i c c'

namespace Orderly

theorem evolves_session (h : c.Orderly none) {s : Session (σ × List Passage)}
    (hs : c.session.Continues s) (x : CallersStep) : Evolves x c (c.withSession s) :=
  ⟨h.continues hs, hs.past, fun _ => .inl rfl⟩

theorem evolves_refl (h : c.Orderly none) (x : CallersStep) : Evolves x c c :=
  ⟨h, List.prefix_refl _, fun _ => .inl rfl⟩

theorem evolves (h : c.Orderly none) (program : Program σ) (x : CallersStep) :
    Evolves x c (x.witnessed program c) := by
  cases x with
  | begin i op =>
    simp only [CallersStep.witnessed, CallersStep.after]
    split
    · rename_i hidle
      refine ⟨(h.leave (awaits_of_isIdle hidle)).goto rfl trivial, List.prefix_refl _, fun j => ?_⟩
      by_cases hj : j = i
      · subst hj
        exact .inr (.inl ⟨op, phase_goto c j _⟩)
      · exact .inl (phase_goto_ne hj c _)
    · exact h.evolves_refl _
  | step i patient =>
    simp only [CallersStep.witnessed, CallersStep.after]
    cases hstep : c.step? program.recorded patient i with
    | none => exact h.evolves_refl _
    | some c' =>
      have hsteps := h.step program hstep
      refine ⟨hsteps.orderly, hsteps.past, fun j => ?_⟩
      by_cases hj : j = i
      · subst hj
        exact .inr (.inr ⟨patient, rfl, hsteps⟩)
      · exact .inl (hsteps.others j hj)
  | alone op =>
    simp only [CallersStep.witnessed, CallersStep.after]
    split
    · exact h.evolves_refl _
    · rename_i hbusy
      have hrests := h.rests (by simpa using hbusy)
      have hrun := (Session.rests_kept program c.session).run op c.session hrests
      exact h.evolves_session hrun.continues _
  | status => exact h.evolves_session h.faithful.isRunning _
  | unload path => exact h.evolves_session (h.faithful.mapLoaded (·.erase path)) _
  | happen g a => exact h.evolves_session (h.faithful.witness g a) _

variable {start : Callers σ} (h : (start.mapProgram (·, [])).Orderly none)
include h

theorem witnessing (program : Program σ) (xs : List CallersStep) :
    (witnessing program xs start).Orderly none := by
  induction xs using List.reverseRecOn with
  | nil => exact h
  | append_singleton xs x ih =>
    rw [witnessing_concat]
    exact (ih.evolves program x).orderly

/-- The history only grows. -/
theorem history_prefix (program : Program σ) (xs ys : List CallersStep) :
    history program xs start <+: history program (xs ++ ys) start := by
  induction ys using List.reverseRecOn with
  | nil =>
    have hnil : history program (xs ++ []) start = history program xs start := by
      rw [List.append_nil]
    exact hnil ▸ List.prefix_refl _
  | append_singleton ys y ih =>
    have hgrows := ((h.witnessing program (xs ++ ys)).evolves program y).past
    rw [← witnessing_concat, List.append_assoc] at hgrows
    exact ih.trans hgrows

end Orderly

/-! ## Whose answer -/

/-- After `earlier` a caller has written the request of its operation in one step, and has waited for
the answer since. -/
structure Waits (program : Program σ) (start : Callers σ) (i : Nat) (op : Operation)
    (arguments : Fields) (g id : Nat) (earlier : List CallersStep) (patient : Bool)
    (later : List CallersStep) : Prop where
  queued : (following program earlier start).phase? i = some (.requesting op arguments g .queued)
  asked : Asked (history program (earlier ++ [.step i patient]) start) g
    (history program earlier start).length id op.command arguments
  waits : ∀ part, part <+: later →
    (following program (earlier ++ .step i patient :: part) start).phase? i =
      some (.requesting op arguments g (.waiting id))

namespace Orderly

variable {start : Callers σ} (h : (start.mapProgram (·, [])).Orderly none)
  (hstart : start.phase? i = none) (xs : List CallersStep)
include h hstart

/-- A caller that waits has written what it waits for. -/
theorem waits (hi : (following program xs start).phase? i =
      some (.requesting op arguments g (.waiting id))) :
    ∃ earlier patient later, xs = earlier ++ .step i patient :: later ∧
      Waits program start i op arguments g id earlier patient later := by
  induction xs using List.reverseRecOn with
  | nil =>
    have hi : start.phase? i = _ := hi
    rw [hstart] at hi
    cases hi
  | append_singleton xs x ih =>
    obtain ⟨-, -, hphase⟩ := (h.witnessing program xs).evolves program x
    have hafter := hi
    rw [phase_following, witnessing_concat] at hafter
    rcases hphase i with hsame | ⟨op', hbegun⟩ | ⟨patient, rfl, hsteps⟩
    · have hbefore := (phase_following program xs start i).trans (hsame.symm.trans hafter)
      obtain ⟨earlier, patient, later, rfl, hwaits⟩ := ih hbefore
      refine ⟨earlier, patient, later ++ [x], by simp, hwaits.queued, hwaits.asked, ?_⟩
      intro part hpart
      rcases List.prefix_concat_iff.mp hpart with rfl | hpart
      · rw [← List.cons_append, ← List.append_assoc]
        exact hi
      · exact hwaits.waits part hpart
    · cases hbegun.symm.trans hafter
    · obtain ⟨hqueued, hasked⟩ := hsteps.posted op arguments g id hafter
      refine ⟨xs, patient, [], rfl, (phase_following program xs start i).trans hqueued, ?_,
        fun part hpart => ?_⟩
      · rw [history, witnessing_concat]
        exact hasked
      · rw [List.prefix_nil.mp hpart]
        exact hi

/-- A caller that ends its operation with a value has it from the line that has decided its request. -/
theorem value {patient : Bool} {p : Phase} {v : Value}
    (hp : (following program xs start).phase? i = some p) (hop : p.operation? = some op)
    (hasks : op.Asks) (hv : (following program (xs ++ [.step i patient]) start).phase? i =
      some (.finished (.ok v))) :
    ∃ arguments g id earlier posting later k, xs = earlier ++ .step i posting :: later ∧
      Waits program start i op arguments g id earlier posting later ∧
      op.ReadsFrom (history program xs start) g (history program earlier start).length k id v := by
  have horderly := h.witnessing program xs
  obtain ⟨-, -, hphase⟩ := horderly.evolves program (.step i patient)
  have hbefore := hp
  rw [phase_following] at hbefore
  rw [phase_following, witnessing_concat] at hv
  rcases hphase i with hsame | ⟨op', hbegun⟩ | ⟨patient', -, hsteps⟩
  · -- the caller would have come to its end before
    obtain rfl := Option.some.inj (hbefore.symm.trans (hsame.symm.trans hv))
    cases hop
  · cases hbegun.symm.trans hv
  · obtain ⟨arguments, g, j, k, id, command, arguments', answer, rfl, hd, hresult⟩ :=
      hsteps.answered p op v hbefore hop hasks hv
    obtain ⟨earlier, posting, later, rfl, hwaits⟩ := h.waits hstart xs hp
    refine ⟨arguments, g, id, earlier, posting, later, k, rfl, hwaits, ?_⟩
    have hasked : Asked (history program (earlier ++ .step i posting :: later) start) g
        (history program earlier start).length id op.command arguments := by
      have hgrows := h.history_prefix program (earlier ++ [.step i posting]) later
      rw [List.append_assoc, List.singleton_append] at hgrows
      obtain ⟨more, hmore⟩ := hgrows
      rw [← hmore]
      exact hwaits.asked.append more
    have hproper := horderly.proper i _ (by simp) hbefore
    have hplace : j = (history program earlier start).length := hd.asked.unique hasked
    rw [← hplace] at hasked ⊢
    exact Operation.readsFrom hproper (hd.asked_as hasked) hresult

omit hstart in
/-- A caller that is alone has its value from a line that has come after it has begun. -/
theorem lone_value {v : Value} {s : Session σ}
    (hbusy : (following program xs start).isBusy = false) (hasks : op.Asks)
    (hrun : (op.run program).runFrom (following program xs start).session = (.ok v, s)) :
    ∃ g j k id, (history program xs start).length ≤ j ∧
      op.ReadsFrom (history program (xs ++ [.alone op]) start) g j k id v := by
  have hbusy : (Callers.witnessing program xs start).isBusy = false := by
    rw [← witnessing_mapProgram] at hbusy
    exact hbusy
  have hmirrors := Session.mirrors_run program.recorded_mirrors op
    (Callers.witnessing program xs start).session
  have hsession : (following program xs start).session =
      (Callers.witnessing program xs start).session.mapProgram Prod.fst := by
    rw [← witnessing_mapProgram]
    rfl
  rw [hsession, hmirrors] at hrun
  have hhistory : history program (xs ++ [.alone op]) start =
      ((op.run program.recorded).runFrom (Callers.witnessing program xs start).session).2.past := by
    rw [history, witnessing_concat]
    simp only [CallersStep.witnessed, CallersStep.after, hbusy]
    rfl
  have hvalue : ((op.run program.recorded).runFrom
      (Callers.witnessing program xs start).session).1 = .ok v := congrArg Prod.fst hrun
  rw [hhistory]
  exact ((h.witnessing program xs).rests hbusy).run (Prod.ext hvalue rfl) hasks

end Orderly

/-- No response is given to another request than the one it answers. Whatever several callers do with
a session, and whatever its children print, and when:

* every line that is written is a request with the number of the lines written to that child, a
  number that no other has;
* a request that is settled, if not by the closing of its channel, is settled by a line that the
  child printed after the request and before another was written to it, the first to decide it;
* no line decides two requests, and no two lines decide one;
* a caller that ends its operation with a value has it from the body of such a line, a success with
  the id of the request that it has written for this operation and for which it has waited since;
* so has a caller that is alone. -/
theorem values_from_own_lines (program : Program σ) (settings : EngineSettings)
    (locator : Option Locator) (environment : OrderedMap String String) (w : σ) (traced : Bool)
    (xs : List CallersStep) :
    let start := fresh settings locator environment w traced
    let c := following program xs start
    let past := history program xs start
    Numbered past ∧
    (∀ g j j' id command command' arguments arguments',
      Asked past g j id command arguments → Asked past g j' id command' arguments' → j = j') ∧
    (∀ g channel id r, c.session.link.channel? g = some channel → (id, r) ∈ channel.settled →
      (∃ command reason, r = .error (.unavailable command reason (some g))) ∨
        ∃ j k command arguments, Decides past g j k id command arguments r) ∧
    (∀ g g' j j' k id id' command command' arguments arguments' r r',
      Decides past g j k id command arguments r →
      Decides past g' j' k id' command' arguments' r' → g = g' ∧ j = j' ∧ id = id') ∧
    (∀ g j k k' id command arguments arguments' r r',
      Decides past g j k id command arguments r →
      Decides past g j k' id command arguments' r' → k = k') ∧
    (∀ i patient p (op : Operation) v, c.phase? i = some p → p.operation? = some op → op.Asks →
      (following program (xs ++ [.step i patient]) start).phase? i = some (.finished (.ok v)) →
      ∃ arguments g id earlier posting later k, xs = earlier ++ .step i posting :: later ∧
        Waits program start i op arguments g id earlier posting later ∧
        op.ReadsFrom past g (history program earlier start).length k id v) ∧
    (∀ (op : Operation) v s, c.isBusy = false → op.Asks →
      (op.run program).runFrom c.session = (.ok v, s) →
      ∃ g j k id, past.length ≤ j ∧
        op.ReadsFrom (history program (xs ++ [.alone op]) start) g j k id v) := by
  intro start c past
  have hstart := orderly_fresh settings locator environment w traced
  have h : (witnessing program xs start).Orderly none := hstart.witnessing program xs
  refine ⟨h.faithful.numbered, ?_, ?_, ?_, ?_, ?_, ?_⟩
  · intro g j j' id command command' arguments arguments' ha ha'
    exact ha.unique ha'
  · intro g channel id r hc hr
    have hlink : c.session.link = (witnessing program xs start).session.link := by
      simp only [c, ← witnessing_mapProgram]
      rfl
    rw [hlink] at hc
    obtain rfl := (Link.mem_of_channel hc).2
    exact (h.faithful.link.channel _ channel hc).settled id r hr
  · intro g g' j j' k id id' command command' arguments arguments' r r' hd hd'
    exact hd.same_request hd'
  · intro g j k k' id command arguments arguments' r r' hd hd'
    exact hd.same_line hd'
  · intro i patient p op v hp hop hasks hv
    exact hstart.value rfl xs hp hop hasks hv
  · intro op v s hbusy hasks hrun
    exact hstart.lone_value xs hbusy hasks hrun

/-! ## An engine that answers the first request again and again -/

/-- That an assembly has been loaded, as the answer to a request. -/
def loadAnswer (id key : String) : String :=
  "\x7b\"id\":" ++ id ++ ",\"success\":true,\"body\":\x7b\"assembly\":\x7b\"key\":\"" ++ key ++
    "\",\"name\":\"n\",\"kind\":\"assembly\"\x7d\x7d\x7d"

/-- Whatever is requested, it answers the first request. -/
def parroting : Program Unit where
  launch w := (.started {} [.print "\x7b\"event\": \"ready\"\x7d"], w)
  react w _ _ := (⟨[.print (loadAnswer "1" "k")], none⟩, w)

/-- The second request is answered of its own accord, after the first has been answered again. -/
def staleRun : List CallersStep :=
  [.begin 1 (.load "a.dll"), .step 1 true, .step 1 true, .step 1 true, .step 1 true,
    .begin 2 (.load "b.dll"), .step 2 true, .step 2 true, .happen 1 (.print (loadAnswer "2" "m"))]

def patientCallers : Callers Unit := fresh plainSettings none ∅ () false

theorem phase_of_result {c : Callers σ} {v : Value}
    (h : (c.result? i).bind Except.toOption = some v) :
    c.phase? i = some (.finished (.ok v)) := by
  obtain ⟨r, hr, hv⟩ := Option.bind_eq_some_iff.mp h
  cases r with
  | error f => cases hv
  | ok w =>
    cases hv
    unfold result? at hr
    split at hr
    · rename_i hp
      cases hr
      exact hp
    · cases hr

theorem staleRun_waits :
    ((following parroting staleRun patientCallers).phase? 2).bind Phase.operation? =
      some (.load "b.dll") := by
  decide +kernel

theorem staleRun_value :
    ((following parroting (staleRun ++ [.step 2 true]) patientCallers).result? 2).bind
      Except.toOption = some (.member ⟨"m", "n", .assembly, none⟩) := by
  decide +kernel

theorem patientCallers_value :
    (((Operation.load "a.dll").run parroting).runFrom patientCallers.session).1.toOption =
      some (.member ⟨"k", "n", .assembly, none⟩) := by
  decide +kernel

/-- The second caller is not given the answer to the first request; and a caller that is alone has
its value from the answer to its own. -/
theorem values_from_own_lines_parroting :
    (∃ p, (following parroting staleRun patientCallers).phase? 2 = some p ∧
      p.operation? = some (.load "b.dll")) ∧
    (following parroting (staleRun ++ [.step 2 true]) patientCallers).phase? 2 =
      some (.finished (.ok (.member ⟨"m", "n", .assembly, none⟩))) ∧
    (∃ arguments g id earlier posting later k, staleRun = earlier ++ .step 2 posting :: later ∧
      Waits parroting patientCallers 2 (.load "b.dll") arguments g id earlier posting later ∧
      (Operation.load "b.dll").ReadsFrom (history parroting staleRun patientCallers) g
        (history parroting earlier patientCallers).length k id
        (.member ⟨"m", "n", .assembly, none⟩)) ∧
    patientCallers.isBusy = false ∧ (Operation.load "a.dll").Asks ∧
    ∃ s, ((Operation.load "a.dll").run parroting).runFrom patientCallers.session =
        (.ok (.member ⟨"k", "n", .assembly, none⟩), s) ∧
      ∃ g j k id, (Operation.load "a.dll").ReadsFrom
        (history parroting [.alone (.load "a.dll")] patientCallers) g j k id
        (.member ⟨"k", "n", .assembly, none⟩) := by
  obtain ⟨-, -, -, -, -, hstep, -⟩ :=
    values_from_own_lines parroting plainSettings none ∅ () false staleRun
  obtain ⟨-, -, -, -, -, -, halone⟩ :=
    values_from_own_lines parroting plainSettings none ∅ () false []
  have hstart : fresh plainSettings none ∅ () false = patientCallers := rfl
  have hnil : following parroting [] patientCallers = patientCallers := rfl
  rw [hstart] at hstep halone
  rw [hnil] at halone
  have hasks : ∀ path, (Operation.load path).Asks := fun path h => by cases h
  obtain ⟨p, hp, hop⟩ := Option.bind_eq_some_iff.mp staleRun_waits
  have hvalue := phase_of_result staleRun_value
  have hidle : patientCallers.isBusy = false := rfl
  have hlone := eq_ok_of_toOption patientCallers_value
  refine ⟨⟨p, hp, hop⟩, hvalue, hstep 2 true p _ _ hp hop (hasks _) hvalue, hidle, hasks _, ?_⟩
  cases hrun : ((Operation.load "a.dll").run parroting).runFrom patientCallers.session with
  | mk r s =>
    rw [hrun] at hlone
    dsimp only at hlone
    rw [hlone] at hrun ⊢
    obtain ⟨g, j, k, id, -, hreads⟩ := halone (.load "a.dll") _ s hidle (hasks _) hrun
    exact ⟨s, rfl, g, j, k, id, hreads⟩

end Callers

end AssemblyBrowser
