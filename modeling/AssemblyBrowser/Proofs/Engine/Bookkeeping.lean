import AssemblyBrowser.Engine.Exchange
import AssemblyBrowser.Proofs.Engine.Settlement
/-!
What a channel keeps of the requests that pass through it, whoever sends them, whatever lines come and
whenever it is closed. Main statement: requests are written with ids that rise; nothing waits but the
request in progress; and a closed channel stays closed for the reason that was given first, refuses every
sender with it, and neither writes nor settles anything any more.
-/
namespace AssemblyBrowser

/-- What happens at a channel. -/
inductive Transaction
  /-- A sender is refused, when it comes or when its turn has come. -/
  | refused (command : Command) (e : EngineError)
  /-- The turn of a sender has come, and its request is registered. -/
  | posted (command : Command) (arguments : Fields)
  /-- The request in progress has come to its end. -/
  | ended (r : Except Failure Response)
  | line (text : String)
  | closed (reason : String)
  /-- The engine is of this generation now. -/
  | generation (n : Nat)
  | running (b : Bool)

/-- What a sender gets from it. -/
def Transaction.result? : Transaction → Option (Except Failure Response)
  | .refused _ e => some (.error (.engine e))
  | .ended r => some r
  | _ => none

def Transaction.reason? : Transaction → Option String
  | .closed reason => some reason
  | _ => none

namespace Exchange

def register (x : Exchange) (command : Command) (arguments : Fields) : Exchange :=
  { x with channel := (x.channel.register command arguments).2 }

/-- Registers a request and writes it. -/
def post (x : Exchange) (command : Command) (arguments : Fields) : Exchange :=
  { x.register command arguments with
    written := x.written ++
      [(x.channel.generation, (x.channel.register command arguments).1.encode)] }

def forget (x : Exchange) (id : Nat) : Exchange := { x with channel := x.channel.forget id }

end Exchange

/-- An exchange, and the request in progress, if there is one. -/
structure Desk where
  exchange : Exchange
  current : Option (Nat × Command) := none

namespace Desk

/-- What may happen next, in whatever order senders, the engine and others come. -/
inductive Step : Desk → Transaction → Desk → Prop
  | refused {x : Exchange} {current : Option (Nat × Command)} {command : Command} {e : EngineError}
      (refusal : x.refusal? command = some e) :
      Step ⟨x, current⟩ (.refused command e) ⟨x, current⟩
  | posted {x : Exchange} {command : Command} (arguments : Fields)
      (admitted : x.refusal? command = none) :
      Step ⟨x, none⟩ (.posted command arguments)
        ⟨x.post command arguments, some (x.channel.nextId, command)⟩
  /-- The engine goes after the request has been registered and before it is written. -/
  | unwritten {x : Exchange} {command : Command} (arguments : Fields)
      (admitted : x.refusal? command = none) :
      Step ⟨x, none⟩ (.posted command arguments)
        ⟨x.register command arguments, some (x.channel.nextId, command)⟩
  /-- Writing has failed. -/
  | failed (x : Exchange) (id : Nat) (command : Command) (f : Failure) :
      Step ⟨x, some (id, command)⟩ (.ended (.error f)) ⟨x.forget id, none⟩
  /-- The sender has got its answer, or waits no longer. -/
  | collected (x : Exchange) (id : Nat) (command : Command) (timeout : Number) :
      Step ⟨x, some (id, command)⟩ (.ended (x.channel.await id command timeout)) ⟨x.forget id, none⟩
  | line {x : Exchange} (current : Option (Nat × Command)) {text : String} {c : Channel}
      (handled : x.channel.handleLine text = .ok c) :
      Step ⟨x, current⟩ (.line text) ⟨{ x with channel := c }, current⟩
  | unread {x : Exchange} (current : Option (Nat × Command)) {text : String} {digits : Nat}
      (handled : x.channel.handleLine text = .error digits) :
      Step ⟨x, current⟩ (.line text) ⟨x, current⟩
  | closed (x : Exchange) (current : Option (Nat × Command)) (reason : String) :
      Step ⟨x, current⟩ (.closed reason) ⟨{ x with channel := x.channel.close reason }, current⟩
  | generation (x : Exchange) (current : Option (Nat × Command)) (n : Nat) :
      Step ⟨x, current⟩ (.generation n) ⟨{ x with generation := n }, current⟩
  | running (x : Exchange) (current : Option (Nat × Command)) (b : Bool) :
      Step ⟨x, current⟩ (.running b) ⟨{ x with running := b }, current⟩

/-- What may happen, one thing after another. -/
inductive Run : Desk → List Transaction → Desk → Prop
  | nil (d : Desk) : Run d [] d
  | cons {d d' d'' : Desk} {i : Transaction} {is : List Transaction} (step : Step d i d')
      (rest : Run d' is d'') : Run d (i :: is) d''

variable {d d' d'' : Desk} {i : Transaction} {is js : List Transaction}

theorem Step.run (h : Step d i d') : Run d [i] d' := .cons h (.nil d')

theorem Run.append (h : Run d is d') (h' : Run d' js d'') : Run d (is ++ js) d'' := by
  induction h with
  | nil => exact h'
  | cons hstep _ ih => exact .cons hstep (ih h')

/-! ## What every step keeps -/

/-- Lines are written for requests of one generation whose ids rise and are below a bound. -/
def Rising (g bound : Nat) (written : List (Nat × String)) : Prop :=
  ∃ requests : List Request, written = requests.map (fun r => (g, r.encode)) ∧
    (requests.map Request.id).Pairwise (· < ·) ∧ ∀ r ∈ requests, 0 < r.id ∧ r.id < bound

variable {g : Nat} {written : List (Nat × String)}

theorem Rising.succ {n : Nat} (h : Rising g n written) : Rising g (n + 1) written := by
  obtain ⟨requests, hwritten, hrise, hids⟩ := h
  refine ⟨requests, hwritten, hrise, fun r hr => ⟨(hids r hr).1, ?_⟩⟩
  have := (hids r hr).2
  omega

/-- A request with the bound for its id is written behind the others. -/
theorem Rising.concat {n : Nat} (hn : 0 < n) (h : Rising g n written) (command : Command)
    (arguments : Fields) :
    Rising g (n + 1) (written ++ [(g, Request.encode ⟨n, command, arguments⟩)]) := by
  obtain ⟨requests, hwritten, hrise, hids⟩ := h
  refine ⟨requests ++ [⟨n, command, arguments⟩], by simp [hwritten], ?_, fun r hr => ?_⟩
  · rw [List.map_append, List.pairwise_append]
    refine ⟨hrise, List.pairwise_singleton _ _, fun id hid id' hid' => ?_⟩
    obtain ⟨r, hr, rfl⟩ := List.mem_map.mp hid
    rw [List.mem_singleton.mp hid']
    exact (hids r hr).2
  · rcases List.mem_append.mp hr with hr | hr
    · have := hids r hr
      omega
    · rw [List.mem_singleton.mp hr]
      dsimp only
      omega

/-- What is kept of the requests, at any time. -/
structure Kept (g : Nat) (d : Desk) : Prop where
  generation : d.exchange.channel.generation = g
  next : 0 < d.exchange.channel.nextId
  written : Rising g d.exchange.channel.nextId d.exchange.written
  /-- Nothing waits but the request in progress. -/
  pending : d.exchange.channel.pending.Sublist d.current.toList
  shut : d.exchange.channel.isClosed = true → d.exchange.channel.pending = []

/-- Nothing is left of the request in progress when it ends. -/
theorem pending_forget {c : Channel} {id : Nat} {command : Command}
    (h : c.pending.Sublist [(id, command)]) : (c.forget id).pending = [] := by
  have hleft := h.filter fun p => p.1 ≠ id
  simpa [Channel.forget] using hleft

theorem refusal_of_closed {x : Exchange} {reason : String}
    (h : x.channel.closedReason = some reason) (command : Command) : x.refusal? command =
      some (.unavailable command.name (some reason) (some x.channel.generation)) := by
  simp [Exchange.refusal?, Channel.refusal?, h]

theorem isClosed_of_not_refused {x : Exchange} {command : Command}
    (h : x.refusal? command = none) : x.channel.isClosed = false := by
  cases hc : x.channel.closedReason with
  | none => simp [Channel.isClosed, hc]
  | some reason => simp [refusal_of_closed hc] at h

theorem Kept.register {x : Exchange} (h : Kept g ⟨x, none⟩) {command : Command}
    (arguments : Fields) (hopen : x.refusal? command = none) :
    Kept g ⟨x.register command arguments, some (x.channel.nextId, command)⟩ where
  generation := h.generation
  next := Nat.succ_pos _
  written := h.written.succ
  pending := by
    have hnone : x.channel.pending = [] := List.sublist_nil.mp h.pending
    simp [Exchange.register, Channel.register, hnone]
  shut hclosed := by
    have hsame : (x.register command arguments).channel.isClosed = x.channel.isClosed := rfl
    rw [hsame, isClosed_of_not_refused hopen] at hclosed
    cases hclosed

theorem Kept.post {x : Exchange} (h : Kept g ⟨x, none⟩) {command : Command} (arguments : Fields)
    (hopen : x.refusal? command = none) :
    Kept g ⟨x.post command arguments, some (x.channel.nextId, command)⟩ where
  generation := h.generation
  next := Nat.succ_pos _
  written := by
    have hg : x.channel.generation = g := h.generation
    rw [← hg]
    exact (hg ▸ h.written).concat h.next command arguments
  pending := (h.register arguments hopen).pending
  shut := (h.register arguments hopen).shut

/-- A request ends, however it does. -/
theorem Kept.forget {x : Exchange} {id : Nat} {command : Command}
    (h : Kept g ⟨x, some (id, command)⟩) : Kept g ⟨x.forget id, none⟩ where
  generation := h.generation
  next := h.next
  written := h.written
  pending := List.sublist_nil.mpr (pending_forget h.pending)
  shut _ := pending_forget h.pending

theorem Kept.line {x : Exchange} {current : Option (Nat × Command)} (h : Kept g ⟨x, current⟩)
    {text : String} {c : Channel} (hline : x.channel.handleLine text = .ok c) :
    Kept g ⟨{ x with channel := c }, current⟩ := by
  obtain ⟨reading, -, rfl⟩ := Channel.handleLine_ok hline
  obtain ⟨pending, settled, htake, hsub⟩ := x.channel.take_eq text reading
  rw [htake]
  refine ⟨h.generation, h.next, h.written, hsub.trans h.pending, fun hclosed => ?_⟩
  have hnone : x.channel.pending = [] := h.shut hclosed
  exact List.sublist_nil.mp (hnone ▸ hsub)

theorem Kept.close {x : Exchange} {current : Option (Nat × Command)} (h : Kept g ⟨x, current⟩)
    (reason : String) : Kept g ⟨{ x with channel := x.channel.close reason }, current⟩ := by
  unfold Channel.close
  split
  · exact h
  · exact ⟨h.generation, h.next, h.written, List.nil_sublist _, fun _ => rfl⟩

theorem Kept.step (h : Kept g d) (hstep : Step d i d') : Kept g d' := by
  cases hstep with
  | refused _ => exact h
  | posted arguments hopen => exact h.post arguments hopen
  | unwritten arguments hopen => exact h.register arguments hopen
  | failed x id command f => exact h.forget
  | collected x id command timeout => exact h.forget
  | line current hline => exact h.line hline
  | unread current _ => exact h
  | closed x current reason => exact h.close reason
  | generation x current n => exact ⟨h.generation, h.next, h.written, h.pending, h.shut⟩
  | running x current b => exact ⟨h.generation, h.next, h.written, h.pending, h.shut⟩

theorem Kept.run (h : Kept g d) (hrun : Run d is d') : Kept g d' := by
  induction hrun with
  | nil => exact h
  | cons hstep _ ih => exact ih (h.step hstep)

/-! ## Closing -/

/-- The reason that is given first is kept. -/
theorem Step.closedReason (h : Step d i d') : d'.exchange.channel.closedReason =
    d.exchange.channel.closedReason.or i.reason? := by
  cases h with
  | @line x current text c hline =>
    obtain ⟨reading, -, rfl⟩ := Channel.handleLine_ok hline
    obtain ⟨pending, settled, htake, -⟩ := x.channel.take_eq text reading
    simp [htake, Transaction.reason?]
  | closed x current reason =>
    cases hc : x.channel.closedReason <;>
      simp [Channel.close, Channel.isClosed, Channel.failAll, Transaction.reason?, hc]
  | _ =>
    simp [Transaction.reason?, Exchange.post, Exchange.register, Channel.register, Exchange.forget,
      Channel.forget]

theorem Run.closedReason (h : Run d is d') : d'.exchange.channel.closedReason =
    d.exchange.channel.closedReason.or (is.filterMap Transaction.reason?).head? := by
  induction h with
  | nil => simp
  | @cons d d' d'' i is hstep _ ih =>
    rw [ih, hstep.closedReason, Option.or_assoc]
    cases hi : i.reason? <;> simp [hi]

/-- What follows is of no effect: it is all refused for one reason. -/
structure Barred (g : Nat) (reason : String) (d : Desk) (is : List Transaction) (d' : Desk) :
    Prop where
  closedReason : d'.exchange.channel.closedReason = some reason
  written : d'.exchange.written = d.exchange.written
  settled : d'.exchange.channel.settled = d.exchange.channel.settled
  unposted : ∀ command arguments, .posted command arguments ∉ is
  refused : ∀ command e, .refused command e ∈ is →
    e = .unavailable command.name (some reason) (some g)

variable {reason : String}

theorem Kept.barred_step (h : Kept g d) (hc : d.exchange.channel.closedReason = some reason)
    (hstep : Step d i d') : Barred g reason d [i] d' := by
  have hclosed : d.exchange.channel.isClosed = true := by simp [Channel.isClosed, hc]
  have hreason : d'.exchange.channel.closedReason = some reason := by
    rw [hstep.closedReason, hc, Option.some_or]
  cases hstep with
  | @refused x current command e hrefusal =>
    refine ⟨hreason, rfl, rfl, by simp, fun command' e' he => ?_⟩
    obtain ⟨rfl, rfl⟩ := Transaction.refused.inj (List.mem_singleton.mp he)
    rw [refusal_of_closed hc, Option.some.injEq] at hrefusal
    rw [← hrefusal, h.generation]
  | posted arguments hopen =>
    rw [isClosed_of_not_refused hopen] at hclosed
    cases hclosed
  | unwritten arguments hopen =>
    rw [isClosed_of_not_refused hopen] at hclosed
    cases hclosed
  | @line x current text c hline =>
    obtain ⟨reading, -, rfl⟩ := Channel.handleLine_ok hline
    have hidle := x.channel.take_idle (h.shut hclosed) text reading
    exact ⟨hreason, rfl, congrArg Channel.settled hidle, by simp, by simp⟩
  | closed x current reason' =>
    have hsame := x.channel.close_of_isClosed hclosed reason'
    exact ⟨hreason, rfl, congrArg Channel.settled hsame, by simp, by simp⟩
  | _ => exact ⟨hreason, rfl, rfl, by simp, by simp⟩

theorem Kept.barred (h : Kept g d) (hc : d.exchange.channel.closedReason = some reason)
    (hrun : Run d is d') : Barred g reason d is d' := by
  induction hrun with
  | nil => exact ⟨hc, rfl, rfl, by simp, by simp⟩
  | cons hstep _ ih =>
    have hfirst := h.barred_step hc hstep
    have hrest := ih (h.step hstep) hfirst.closedReason
    refine ⟨hrest.closedReason, hrest.written.trans hfirst.written,
      hrest.settled.trans hfirst.settled, fun command arguments hp => ?_, fun command e he => ?_⟩
    · rcases List.mem_cons.mp hp with rfl | hp
      · exact hfirst.unposted command arguments List.mem_cons_self
      · exact hrest.unposted command arguments hp
    · rcases List.mem_cons.mp he with rfl | he
      · exact hfirst.refused command e List.mem_cons_self
      · exact hrest.refused command e he

end Desk

/-! ## Exchanges are runs -/

namespace Exchange

open Desk

variable {x : Exchange} {command : Command} {arguments : Fields} {timeout : Option Number}
  {during : List Happening}

/-- What those get who are refused when they come. -/
def turnedAway (refusals : List (Option EngineError)) : List (Except Failure Response) :=
  refusals.filterMap fun e => e.map fun e => .error (.engine e)

theorem turnedAway_cons (refusal : Option EngineError) (refusals : List (Option EngineError)) :
    turnedAway (refusal :: refusals) = turnedAway [refusal] ++ turnedAway refusals := by
  cases refusal <;> rfl

theorem sendOne_refused {e : EngineError} (h : x.refusal? command = some e) :
    x.sendOne command arguments timeout during = (.error (.engine e), [], x) := by
  simp only [sendOne, h]

theorem followAll_nil (x : Exchange) (hs : List Happening) : x.followAll [] hs = ([], x) := by
  induction hs with
  | nil => rfl
  | cons h hs ih =>
    unfold followAll
    split
    · rfl
    · exact ih

theorem send_refused {e : EngineError} (h : x.refusal? command = some e) :
    x.send command arguments timeout during = (.error (.engine e), [], x) := by
  simp only [send, sendOne_refused h, followAll_nil]

/-- Whatever happens up to a failure is a run in which the request in progress, if any, goes on. -/
theorem meanwhile_run (hs : List Happening) (x : Exchange) (current : Option (Nat × Command)) :
    ∃ is, Run ⟨x, current⟩ is ⟨(x.meanwhile hs).1, current⟩ ∧
      is.filterMap Transaction.result? = turnedAway (x.meanwhile hs).2.1 := by
  induction hs generalizing x with
  | nil => exact ⟨[], .nil _, rfl⟩
  | cons h hs ih =>
    have hsilent : ∀ {i : Transaction} {y : Exchange}, Step ⟨x, current⟩ i ⟨y, current⟩ →
        i.result? = none → ∃ is, Run ⟨x, current⟩ is ⟨(y.meanwhile hs).1, current⟩ ∧
          is.filterMap Transaction.result? = turnedAway (y.meanwhile hs).2.1 := fun {i y} hstep hi => by
      obtain ⟨is, hrun, hresults⟩ := ih y
      exact ⟨i :: is, .cons hstep hrun, by rw [List.filterMap_cons_none hi, hresults]⟩
    cases h with
    | line text =>
      cases hline : x.channel.handleLine text with
      | ok c =>
        simp only [meanwhile, hline]
        exact hsilent (.line current hline) rfl
      | error digits =>
        simp only [meanwhile, hline]
        exact ⟨[.line text], (Step.unread current hline).run, rfl⟩
    | close reason => exact hsilent (.closed x current reason) rfl
    | generation n => exact hsilent (.generation x current n) rfl
    | running b => exact hsilent (.running x current b) rfl
    | writeFails e => exact ⟨[], .nil _, rfl⟩
    | send command arguments timeout during =>
      obtain ⟨is, hrun, hresults⟩ := ih x
      simp only [meanwhile]
      cases hrefusal : x.refusal? command with
      | none => exact ⟨is, hrun, by simpa [turnedAway] using hresults⟩
      | some e =>
        exact ⟨.refused command e :: is, .cons (.refused hrefusal) hrun,
          by simpa [turnedAway, Transaction.result?] using hresults⟩

/-- No more senders are told whether they are refused than have come. -/
theorem length_refusals_le (hs : List Happening) (x : Exchange) :
    (x.meanwhile hs).2.1.length ≤ (hs.filter Happening.isSend).length := by
  induction hs generalizing x with
  | nil => exact Nat.le_refl _
  | cons h hs ih =>
    cases h with
    | line text =>
      simp only [meanwhile]
      cases x.channel.handleLine text with
      | ok c => exact ih _
      | error digits => exact Nat.zero_le _
    | send command arguments timeout during => exact Nat.succ_le_succ (ih x)
    | close reason => exact ih _
    | generation n => exact ih _
    | running b => exact ih _
    | writeFails e => exact Nat.zero_le _

/-- What a request ends with: the failure that has come in between, or what there is for waiting. -/
def ending (x : Exchange) (id : Nat) (command : Command) (timeout : Option Number) :
    Option Failure → Except Failure Response
  | some f => .error f
  | none => x.channel.await id command (timeout.getD x.channel.timeout)

theorem ended_step (x : Exchange) (id : Nat) (command : Command) (timeout : Option Number)
    (failure : Option Failure) : Step ⟨x, some (id, command)⟩
      (.ended (x.ending id command timeout failure)) ⟨x.forget id, none⟩ := by
  cases failure with
  | some f => exact .failed x id command f
  | none => exact .collected x id command (timeout.getD x.channel.timeout)

theorem sendOne_posted (h : x.refusal? command = none) {y : Exchange}
    {refusals : List (Option EngineError)} {failure : Option Failure}
    (hm : (x.post command arguments).meanwhile during = (y, refusals, failure)) :
    x.sendOne command arguments timeout during =
      (y.ending x.channel.nextId command timeout failure, refusals, y.forget x.channel.nextId) := by
  have hwriting : ({ x with
      channel := (x.channel.register command arguments).2
      written := x.written ++ [((x.channel.register command arguments).2.generation,
        (x.channel.register command arguments).1.encode)] } : Exchange).meanwhile during =
      (y, refusals, failure) := hm
  simp only [sendOne, h, hwriting]
  cases failure <;> rfl

/-- The turn of a sender: what it gets, and what those got who were refused meanwhile. -/
theorem sendOne_run (x : Exchange) (command : Command) (arguments : Fields)
    (timeout : Option Number) (during : List Happening) {r : Except Failure Response}
    {refusals : List (Option EngineError)} {y : Exchange}
    (hsend : x.sendOne command arguments timeout during = (r, refusals, y)) :
    refusals.length ≤ (during.filter Happening.isSend).length ∧
      ∃ is, Run ⟨x, none⟩ is ⟨y, none⟩ ∧
        (r :: turnedAway refusals).Perm (is.filterMap Transaction.result?) := by
  cases hrefusal : x.refusal? command with
  | some e =>
    rw [sendOne_refused hrefusal] at hsend
    cases hsend
    exact ⟨Nat.zero_le _, [.refused command e], (Step.refused hrefusal).run, .refl _⟩
  | none =>
    obtain ⟨is, hrun, hresults⟩ :=
      meanwhile_run during (x.post command arguments) (some (x.channel.nextId, command))
    have hlength := length_refusals_le during (x.post command arguments)
    cases hm : (x.post command arguments).meanwhile during with
    | mk z rest =>
      obtain ⟨refusals', failure⟩ := rest
      rw [hm] at hrun hresults hlength
      rw [sendOne_posted hrefusal hm] at hsend
      cases hsend
      have hended := ended_step z x.channel.nextId command timeout failure
      refine ⟨hlength, _, (Run.cons (.posted arguments hrefusal) hrun).append hended.run, ?_⟩
      have hposted : (Transaction.posted command arguments).result? = none := rfl
      rw [List.filterMap_append, List.filterMap_cons_none hposted, hresults]
      exact (List.perm_append_singleton _ _).symm

/-! Senders that came while another one's request was written bring others along in turn. -/

mutual

theorem follow_run (x : Exchange) (refusal : Option EngineError) : (h : Happening) →
    h.isSend = true → ∃ is, Run ⟨x, none⟩ is ⟨(x.follow refusal h).2, none⟩ ∧
      (x.follow refusal h).1.Perm (turnedAway [refusal] ++ is.filterMap Transaction.result?)
  | .send command arguments timeout during, _ => by
    cases refusal with
    | some e =>
      rw [follow]
      exact ⟨[], .nil _, .refl _⟩
    | none =>
      cases hsend : x.sendOne command arguments timeout during with
      | mk r rest =>
        obtain ⟨refusals, y⟩ := rest
        obtain ⟨hlength, is, hrun, hresults⟩ := sendOne_run x command arguments timeout during hsend
        obtain ⟨js, hrun', hresults'⟩ := followAll_run y refusals during hlength
        rw [follow, hsend]
        refine ⟨is ++ js, hrun.append hrun', ?_⟩
        rw [List.filterMap_append]
        exact (hresults'.cons r).trans (hresults.append_right _)

theorem followAll_run (x : Exchange) (refusals : List (Option EngineError)) :
    (hs : List Happening) → refusals.length ≤ (hs.filter Happening.isSend).length →
    ∃ is, Run ⟨x, none⟩ is ⟨(x.followAll refusals hs).2, none⟩ ∧
      (x.followAll refusals hs).1.Perm (turnedAway refusals ++ is.filterMap Transaction.result?)
  | [], hlength => by
    have hnone : refusals = [] := List.length_eq_zero_iff.mp (Nat.le_zero.mp hlength)
    rw [hnone, followAll_nil]
    exact ⟨[], .nil _, .refl _⟩
  | h :: rest, hlength => by
    cases refusals with
    | nil =>
      rw [followAll_nil]
      exact ⟨[], .nil _, .refl _⟩
    | cons refusal refusals =>
      rw [followAll]
      by_cases hsend : h.isSend = true
      · rw [List.filter_cons_of_pos hsend] at hlength
        obtain ⟨is, hrun, hresults⟩ := follow_run x refusal h hsend
        obtain ⟨js, hrun', hresults'⟩ := followAll_run (x.follow refusal h).2 refusals rest
          (Nat.le_of_succ_le_succ hlength)
        rw [if_pos hsend]
        refine ⟨is ++ js, hrun.append hrun', (hresults.append hresults').trans ?_⟩
        rw [turnedAway_cons refusal refusals, List.filterMap_append, List.append_assoc,
          List.append_assoc]
        exact (List.perm_append_comm_assoc _ _ _).append_left _
      · -- no refusal is meant for it
        rw [List.filter_cons_of_neg hsend] at hlength
        rw [if_neg hsend]
        exact followAll_run x (refusal :: refusals) rest hlength

end

theorem happen_run (x : Exchange) (h : Happening) :
    ∃ is, Run ⟨x, none⟩ is ⟨(x.happen h).2, none⟩ ∧
      (x.happen h).1.Perm (is.filterMap Transaction.result?) := by
  cases hsend : h.isSend with
  | true =>
    have heq : x.happen h = x.follow none h := by
      cases h with
      | send => simp only [happen, send, follow]
      | _ => cases hsend
    rw [heq]
    exact follow_run x none h hsend
  | false =>
    have heq : x.happen h = ([], (x.meanwhile [h]).1) := by
      cases h with
      | send => cases hsend
      | _ => rfl
    obtain ⟨is, hrun, hresults⟩ := meanwhile_run [h] x none
    have hlength := length_refusals_le [h] x
    rw [List.filter_cons_of_neg (by simp [hsend])] at hlength
    rw [List.length_eq_zero_iff.mp (Nat.le_zero.mp hlength)] at hresults
    rw [heq]
    exact ⟨is, hrun, by rw [hresults]; exact .refl _⟩

/-- Whatever happens to an exchange is a run, and what senders get is what they get in the run. -/
theorem happenAll_run (hs : List Happening) (x : Exchange) :
    ∃ is, Run ⟨x, none⟩ is ⟨(x.happenAll hs).2, none⟩ ∧
      (x.happenAll hs).1.Perm (is.filterMap Transaction.result?) := by
  induction hs generalizing x with
  | nil => exact ⟨[], .nil _, .refl _⟩
  | cons h hs ih =>
    obtain ⟨is, hrun, hresults⟩ := x.happen_run h
    obtain ⟨js, hrun', hresults'⟩ := ih (x.happen h).2
    refine ⟨is ++ js, hrun.append hrun', ?_⟩
    rw [List.filterMap_append]
    exact hresults.append hresults'

end Exchange

/-- The books of a channel of a generation, after certain things have happened since it was opened. -/
structure Desk.Balanced (g : Nat) (is : List Transaction) (d : Desk) : Prop where
  /-- What was written are requests, and their ids rise from above zero. -/
  written : ∃ requests : List Request, d.exchange.written = requests.map (fun r => (g, r.encode)) ∧
    (requests.map Request.id).Pairwise (· < ·) ∧ ∀ r ∈ requests, 0 < r.id
  /-- Nothing waits unless a request is in progress, and then nothing else. -/
  pending : d.exchange.channel.pending.Sublist d.current.toList
  /-- To close it again changes nothing. -/
  closing : ∀ reason reason', (d.exchange.channel.close reason).close reason' =
    d.exchange.channel.close reason
  /-- It is closed for the reason that was given first, if it is. -/
  reason : d.exchange.channel.closedReason = (is.filterMap Transaction.reason?).head?
  /-- Once it is closed, nothing that follows is written or settles anything, and all senders are refused
  for that reason, -/
  barred : ∀ reason, d.exchange.channel.closedReason = some reason →
    ∀ js d', d.Run js d' → Barred g reason d js d'
  /-- and a sender does get that refusal, and nothing changes. -/
  refusing : ∀ reason, d.exchange.channel.closedReason = some reason →
    ∀ command arguments timeout during, d.exchange.send command arguments timeout during =
      (.error (.engine (.unavailable command.name (some reason) (some g))), [], d.exchange)

theorem Desk.Kept.balanced {g : Nat} {d d' : Desk} {is : List Transaction} (h : Desk.Kept g d)
    (hopen : d.exchange.channel.closedReason = none) (hrun : d.Run is d') : d'.Balanced g is := by
  have h' := h.run hrun
  refine ⟨?_, h'.pending, fun reason reason' => ?_, ?_, fun reason hc js d'' hlater => ?_,
    fun reason hc command arguments timeout during => ?_⟩
  · obtain ⟨requests, hwritten, hrise, hids⟩ := h'.written
    exact ⟨requests, hwritten, hrise, fun r hr => (hids r hr).1⟩
  · exact Channel.close_of_isClosed (Channel.isClosed_close _ reason) reason'
  · rw [hrun.closedReason, hopen, Option.none_or]
  · exact h'.barred hc hlater
  · rw [← h'.generation]
    exact Exchange.send_refused (Desk.refusal_of_closed hc command)

/-- A channel that has just been opened to a generation, whatever the engine is then. -/
def Exchange.opened (g : Nat) (timeout : Number) (n : Nat) (running : Bool) : Exchange where
  channel := { generation := g, timeout }
  generation := n
  running

/-- Whatever happens to an exchange, with senders that come one by one or while others are being served, is
a run; and after any run, in whatever order things happen in it, the books of the channel balance. -/
theorem Exchange.books_balance (g : Nat) (timeout : Number) (n : Nat) (running : Bool)
    (hs : List Happening) :
    (∃ is, Desk.Run ⟨opened g timeout n running, none⟩ is
        ⟨((opened g timeout n running).happenAll hs).2, none⟩ ∧
      ((opened g timeout n running).happenAll hs).1.Perm (is.filterMap Transaction.result?)) ∧
    ∀ is d, Desk.Run ⟨opened g timeout n running, none⟩ is d → d.Balanced g is := by
  have hfresh : Desk.Kept g ⟨opened g timeout n running, none⟩ :=
    ⟨rfl, Nat.one_pos, ⟨[], rfl, .nil, by simp⟩, List.nil_sublist _, fun _ => rfl⟩
  exact ⟨happenAll_run hs _, fun is d hrun => hfresh.balanced rfl hrun⟩

/-- A request that is answered, one during which another sender comes and the channel is closed, and one
after that; then it is closed again, and a line comes too late. -/
def Exchange.busyDay : List Happening :=
  [.send .load [] none [.line "\x7b\"id\": 1, \"success\": true\x7d"],
    .send .enumerate [] none [.send .decompile [] none [], .close "gone"],
    .send .load [] none [], .close "gone again", .line "\x7b\"id\": 2, \"success\": true\x7d"]

/-- Two requests have been written; all but the first sender got the reason of the first closing. -/
theorem Exchange.books_balance_busyDay :
    ((opened 1 Channel.usualTimeout 1 true).happenAll busyDay).1 = [.ok ⟨1, .success []⟩,
      .error (.engine (.unavailable "enumerate" (some "gone") (some 1))),
      .error (.engine (.unavailable "decompile" (some "gone") (some 1))),
      .error (.engine (.unavailable "load" (some "gone") (some 1)))] ∧
    ((opened 1 Channel.usualTimeout 1 true).happenAll busyDay).2.written.length = 2 ∧
    ∃ is, Desk.Balanced 1 is ⟨((opened 1 Channel.usualTimeout 1 true).happenAll busyDay).2, none⟩ ∧
      ((opened 1 Channel.usualTimeout 1 true).happenAll busyDay).1.Perm
        (is.filterMap Transaction.result?) := by
  obtain ⟨⟨is, hrun, hresults⟩, hbalanced⟩ :=
    books_balance 1 Channel.usualTimeout 1 true busyDay
  exact ⟨by decide +kernel, by decide +kernel, is, hbalanced is _ hrun, hresults⟩

end AssemblyBrowser
