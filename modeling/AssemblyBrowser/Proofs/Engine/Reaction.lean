import AssemblyBrowser.Proofs.Engine.Output
import AssemblyBrowser.Proofs.Engine.Rehydration
import AssemblyBrowser.Proofs.Engine.Service
import AssemblyBrowser.Proofs.Engine.Verdict
/-!
How a running engine reacts to a request, and what the request comes to by that: it is settled if it
cannot be written, else by the first line that decides it, else by the end of the output. Main
statement: the sender gets what settles the request, and where nothing does, what a wait in vain
comes to.
-/
namespace AssemblyBrowser

/-! ## What the lines decide -/

namespace Channel

variable {c : Channel} {id : Nat} {command : Command}

/-- What a line makes of the request with this id, if it decides it. -/
def verdict? (id : Nat) (command : Command) (line : String) : Option Settlement :=
  match readLine line with
  | .ok reading => reading.verdict? id command line
  | .error _ => none

theorem Passes.verdict {line : String} (h : Passes id line) (command : Command) :
    verdict? id command line = none := by
  cases h with
  | event hd he => simp [verdict?, readLine, hd, readMessage, he, Reading.verdict?]
  | foreign hd hr hid =>
    simp [verdict?, readLine, hd, readMessage, isEvent_of_ofMessage hr, hr, Reading.verdict?, hid]

theorem Decides.verdict {line : String} {r : Settlement} (h : Decides id command line r) :
    verdict? id command line = some r := by
  cases h with
  | answer hd hr hid =>
    simp [verdict?, readLine, hd, readMessage, isEvent_of_ofMessage hr, hr, Reading.verdict?, hid]
  | garbled hd => simp [verdict?, readLine, hd, Reading.verdict?]
  | invalid hd he hr => simp [verdict?, readLine, hd, readMessage, he, hr, Reading.verdict?]

/-- Lines pass a request by, or the first of them that does not decides it. -/
theorem findSome?_verdict {lines : List String} (hl : ∀ line ∈ lines, Legible line) (id : Nat)
    (command : Command) :
    (∀ line ∈ lines, Passes id line) ∧ lines.findSome? (verdict? id command) = none ∨
      ∃ before line after r, lines = before ++ line :: after ∧
        (∀ earlier ∈ before, Passes id earlier) ∧ Decides id command line r ∧
        lines.findSome? (verdict? id command) = some r := by
  induction lines with
  | nil => exact .inl ⟨by simp, rfl⟩
  | cons line lines ih =>
    obtain ⟨hfirst, hrest⟩ := List.forall_mem_cons.mp hl
    rw [List.findSome?_cons]
    rcases hfirst.passes_or_decides id command with hpass | ⟨r, hr⟩
    · rw [hpass.verdict command]
      rcases ih hrest with ⟨hall, hnone⟩ | ⟨before, decisive, after, r, rfl, hbefore, hr, hsome⟩
      · exact .inl ⟨List.forall_mem_cons.mpr ⟨hpass, hall⟩, hnone⟩
      · exact .inr ⟨line :: before, decisive, after, r, rfl,
          List.forall_mem_cons.mpr ⟨hpass, hbefore⟩, hr, hsome⟩
    · rw [hr.verdict]
      exact .inr ⟨[], line, lines, r, rfl, by simp, hr, rfl⟩

theorem findSome?_passes {lines : List String} (h : ∀ line ∈ lines, Passes id line)
    (command : Command) : lines.findSome? (verdict? id command) = none :=
  List.findSome?_eq_none_iff.mpr fun line hline => (h line hline).verdict command

theorem handleLine_verdict (hc : c.pending = [(id, command)]) {line : String}
    (hl : Legible line) : c.handleLine line =
      .ok (match verdict? id command line with
        | some r => c.decided id r
        | none => c) := by
  rcases hl.passes_or_decides id command with hpass | ⟨r, hr⟩
  · rw [hpass.verdict command, handleLine_passes hc hpass]
  · rw [hr.verdict, handleLine_decides hc hr]

/-- The channel after lines, the first of which that decides the request settles it. -/
def heard (c : Channel) (id : Nat) (command : Command) (lines : List String) : Channel :=
  match lines.findSome? (verdict? id command) with
  | some r => c.decided id r
  | none => c

/-- The first line that decides the only request that waits settles it, and no line does more. -/
theorem handleLines_heard (hc : c.pending = [(id, command)]) {lines : List String}
    (hl : ∀ line ∈ lines, Legible line) :
    lines.foldlM handleLine c = .ok (c.heard id command lines) := by
  induction lines with
  | nil => rfl
  | cons line lines ih =>
    obtain ⟨hfirst, hrest⟩ := List.forall_mem_cons.mp hl
    rw [List.foldlM_cons, handleLine_verdict hc hfirst, heard, List.findSome?_cons]
    cases verdict? id command line with
    | some r => exact handleLines_idle rfl hrest
    | none => exact ih hrest

end Channel

/-! ## A reaction -/

namespace Act

/-- An output: lines, and whether something follows them that ends it. -/
theorem exists_texts (as : List Act) : ∃ (texts : List String) (rest : List Act),
    as = texts.map .print ++ rest ∧ lines as = (texts.map Text.trim).filter (· ≠ "") ∧
      (rest = [] ∧ ending? as = none ∨
        ∃ a more, rest = a :: more ∧ a.isPrint = false ∧ ending? as = some a.exitCode?) := by
  induction as with
  | nil => exact ⟨[], [], rfl, rfl, .inl ⟨rfl, rfl⟩⟩
  | cons a as ih =>
    cases ha : a.isPrint with
    | false =>
      refine ⟨[], a :: as, rfl, ?_, .inr ⟨a, as, rfl, ha, ?_⟩⟩
      · simp [lines, ha]
      · simp [ending?, ha]
    | true =>
      obtain ⟨text, rfl⟩ : ∃ text, a = .print text := by
        cases a with
        | print text => exact ⟨text, rfl⟩
        | closeOutput => cases ha
        | exit code => cases ha
      obtain ⟨texts, rest, rfl, hlines, hrest⟩ := ih
      refine ⟨text :: texts, rest, rfl, ?_, ?_⟩
      · rw [List.map_cons, List.filter_cons, ← hlines]
        simp only [lines, List.takeWhile_cons, ha, if_true, List.filterMap_cons, text?, List.map_cons,
          List.filter_cons]
      · have hsame : ending? (.print text :: (texts.map .print ++ rest)) =
            ending? (texts.map .print ++ rest) := by
          simp [ending?, ha]
        rw [hsame]
        exact hrest

end Act

namespace Supervisor

variable {σ : Type} {s : Supervisor σ Link} {g : Nat} {c : Channel} {d : Child}

/-- Nobody is told what a child does whose output has ended. -/
theorem acts_owner_unread (hd : s.child? g = some d) (hr : d.reading = false) (as : List Act) :
    (s.acts Link.listener g as).owner = s.owner := by
  induction as generalizing s d with
  | nil => rfl
  | cons a as ih =>
    obtain ⟨e, he, hgrows⟩ := (act_turn Link.listener g s a).grows d hd
    have hclosed : e.reading = false := by
      cases hopen : e.reading with
      | false => rfl
      | true => exact absurd (hgrows.reading hopen) (by simp [hr])
    have hsame : (s.act Link.listener g a).owner = s.owner := by
      cases a <;> simp [act, hd, hr, setChild]
    rw [acts, List.foldl_cons]
    exact (ih he hclosed).trans hsame

/-- With the end of its output the engine of a running session counts as crashed. -/
theorem Attends.ends (h : s.Attends g c) (hs : s.owner.state = .running)
    (hd : s.child? g = some d) (halive : d.exitCode = none) {a : Act} (ha : a.isPrint = false)
    (more : List Act) : (s.acts Link.listener g (a :: more)).owner =
      { s.owner.update g (·.close (Link.crashReason a.exitCode?)) with state := .crashed } := by
  obtain ⟨d', hd', hspeaks⟩ := h.child
  obtain rfl := Option.some.inj (hd.symm.trans hd')
  obtain ⟨e, he, hact⟩ : ∃ e : Child, e.exitCode = a.exitCode? ∧
      s.act Link.listener g a = s.endOutput Link.listener g e := by
    cases a with
    | print line => cases ha
    | closeOutput => exact ⟨d, halive, by simp [act, hd, hspeaks.reading]⟩
    | exit code =>
      exact ⟨{ d with exitCode := some code }, rfl, by simp [act, hd, hspeaks.reading, halive]⟩
  rw [acts, List.foldl_cons, hact]
  have hrest := acts_owner_unread (child?_endOutput Link.listener hd e) rfl more
  refine hrest.trans ?_
  rw [← he]
  exact Link.markCrashed_running h.installed h.channel hs e.exitCode

/-- Output that can be read is handled by the channel; if it ends the engine counts as crashed. -/
theorem Attends.reacts (h : s.Attends g c) {id : Nat} {command : Command}
    (hc : c.pending = [(id, command)]) (hs : s.owner.state = .running) (hd : s.child? g = some d)
    (halive : d.exitCode = none) {as : List Act} (hl : ∀ line ∈ Act.lines as, Channel.Legible line) :
    let c' := c.heard id command (Act.lines as)
    (Act.ending? as = none →
      s.acts Link.listener g as = { s with owner := s.owner.update g fun _ => c' }) ∧
    ∀ e, Act.ending? as = some e → (s.acts Link.listener g as).owner =
      { s.owner.update g fun _ => c'.close (Link.crashReason e) with state := .crashed } := by
  obtain ⟨texts, rest, rfl, hlines, hrest⟩ := Act.exists_texts as
  intro c'
  have hread : ∀ line ∈ texts, ¬Channel.Chokes line := by
    intro line hmem hchokes
    obtain ⟨digits, hdigits⟩ := Channel.chokes_iff.mp hchokes
    by_cases hb : Text.trim line = ""
    · rw [hb, readLine_empty] at hdigits
      cases hdigits
    · have hlegible : Channel.Legible (Text.trim line) := hl _ (by
        rw [hlines, List.mem_filter]
        exact ⟨List.mem_map_of_mem hmem, by simpa using hb⟩)
      obtain ⟨reading, hr⟩ := hlegible.readLine
      rw [hr] at hdigits
      cases hdigits
  obtain ⟨c'', hhandled, -, hacts, hattends⟩ := h.delivers hread
  have hheard : c.handleLines texts = .ok c' := by
    rw [Channel.handleLines, ← hlines]
    exact Channel.handleLines_heard hc hl
  obtain rfl : c'' = c' := Except.ok.inj (hhandled.symm.trans hheard)
  rw [acts, List.foldl_append]
  rcases hrest with ⟨rfl, hend⟩ | ⟨a, more, rfl, ha, hend⟩
  · refine ⟨fun _ => hacts, fun e he => ?_⟩
    rw [hend] at he
    cases he
  · refine ⟨fun hopen => ?_, fun e he => ?_⟩
    · rw [hend] at hopen
      cases hopen
    · rw [hend, Option.some.injEq] at he
      subst he
      have hstate := congrArg (fun t => t.owner.state) hacts
      have hchild : (s.acts Link.listener g (texts.map .print)).child? g = some d := by
        rw [hacts]
        exact hd
      refine (hattends.ends (hstate.trans hs) hchild halive ha more).trans ?_
      rw [hacts, Link.update_update _ (Link.mem_of_channel hattends.channel).2]

end Supervisor

namespace Channel

variable {c : Channel} {id : Nat} {command : Command}

/-- The channel after a child has acted. -/
def reacted (c : Channel) (id : Nat) (command : Command) (as : List Act) : Channel :=
  match Act.ending? as with
  | none => c.heard id command (Act.lines as)
  | some exitCode => (c.heard id command (Act.lines as)).close (Link.crashReason exitCode)

theorem reacted_frame (c : Channel) (id : Nat) (command : Command) (as : List Act) :
    (c.reacted id command as).generation = c.generation ∧
      (c.reacted id command as).timeout = c.timeout := by
  have hheard : (c.heard id command (Act.lines as)).generation = c.generation ∧
      (c.heard id command (Act.lines as)).timeout = c.timeout := by
    unfold heard
    split <;> exact ⟨rfl, rfl⟩
  unfold reacted
  split
  · exact hheard
  · unfold close
    split <;> exact hheard

theorem isClosed_reacted {as : List Act} (hopen : c.isClosed = false) (he : Act.ending? as = none)
    (id : Nat) (command : Command) : (c.reacted id command as).isClosed = false := by
  unfold reacted heard
  rw [he]
  dsimp only
  split <;> exact hopen

/-- The next request has not been settled. -/
theorem Sound.settlement_next (h : c.Sound) : c.settlement? c.nextId = none := by
  cases hs : c.settlement? c.nextId with
  | none => rfl
  | some r => exact absurd (h.settled _ (mem_of_settlement hs)) (Nat.lt_irrefl _)

/-- What the request is settled by: a line, or the end of the output. -/
theorem settlement_reacted (hc : c.pending = [(id, command)]) (hopen : c.isClosed = false)
    (hnew : c.settlement? id = none) (as : List Act) : (c.reacted id command as).settlement? id =
      ((Act.lines as).findSome? (verdict? id command)).or ((Act.ending? as).map fun exitCode =>
        .error (.unavailable command.name (some (Link.crashReason exitCode)) (some c.generation))) := by
  unfold reacted heard
  cases (Act.lines as).findSome? (verdict? id command) with
  | some r =>
    have hstill : (c.decided id r).isClosed = false := hopen
    cases Act.ending? as with
    | none => simp [settlement?, decided]
    | some exitCode =>
      simp only [close, hstill, Bool.false_eq_true, if_false]
      simp [settlement?, decided, failAll]
  | none =>
    cases Act.ending? as with
    | none => exact hnew
    | some exitCode =>
      simp only [close, hopen, Bool.false_eq_true, if_false]
      simp [settlement?, failAll, hc]

end Channel

namespace Reaction

/-- Why a request is not written to the end. -/
def pipeClosed (g : Nat) (text : String) : EngineError :=
  .unavailable "send" (some ("engine pipe closed: " ++ text)) (some g)

/-- What settles a request that a child reacts to, if anything does: that it cannot be written, the
first line that decides it, or the end of the output. -/
inductive Settles (g id : Nat) (command : Command) (r : Reaction) : Option Settlement → Prop
  | unwritten {text : String} (failed : r.error = some text) :
      Settles g id command r (some (.error (pipeClosed g text)))
  | decided {before after : List String} {line : String} {settlement : Settlement}
      (written : r.error = none) (lines : Act.lines r.acts = before ++ line :: after)
      (passed : ∀ earlier ∈ before, Channel.Passes id earlier)
      (decided : Channel.Decides id command line settlement) :
      Settles g id command r (some settlement)
  | ended {exitCode : Option Int} (written : r.error = none)
      (passed : ∀ line ∈ Act.lines r.acts, Channel.Passes id line)
      (ended : Act.ending? r.acts = some exitCode) :
      Settles g id command r
        (some (.error (.unavailable command.name (some (Link.crashReason exitCode)) (some g))))
  | silent (written : r.error = none)
      (passed : ∀ line ∈ Act.lines r.acts, Channel.Passes id line)
      (stays : Act.ending? r.acts = none) : Settles g id command r none

/-- The same, found. -/
def settlement? (r : Reaction) (g id : Nat) (command : Command) : Option Settlement :=
  match r.error with
  | some text => some (.error (pipeClosed g text))
  | none => ((Act.lines r.acts).findSome? (Channel.verdict? id command)).or
      ((Act.ending? r.acts).map fun exitCode =>
        .error (.unavailable command.name (some (Link.crashReason exitCode)) (some g)))

variable {r : Reaction} {g id : Nat} {command : Command} {settled : Option Settlement}

theorem Settles.eq (h : r.Settles g id command settled) :
    r.settlement? g id command = settled := by
  unfold settlement?
  cases h with
  | unwritten hfailed => rw [hfailed]
  | decided hwritten hlines hpassed hdecided =>
    rw [hwritten, hlines, List.findSome?_append, Channel.findSome?_passes hpassed command,
      List.findSome?_cons, hdecided.verdict]
    rfl
  | ended hwritten hpassed hended =>
    rw [hwritten, hended, Channel.findSome?_passes hpassed command]
    rfl
  | silent hwritten hpassed hstays =>
    rw [hwritten, hstays, Channel.findSome?_passes hpassed command]
    rfl

theorem settles (hl : ∀ line ∈ Act.lines r.acts, Channel.Legible line) (g id : Nat)
    (command : Command) : r.Settles g id command (r.settlement? g id command) := by
  unfold settlement?
  cases hwritten : r.error with
  | some text => exact .unwritten hwritten
  | none =>
    rcases Channel.findSome?_verdict hl id command with
      ⟨hpassed, hnone⟩ | ⟨before, line, after, settlement, hlines, hpassed, hdecided, hsome⟩
    · rw [hnone, Option.none_or]
      cases hend : Act.ending? r.acts with
      | none => exact .silent hwritten hpassed hend
      | some exitCode => exact .ended hwritten hpassed hend
    · rw [hsome]
      exact .decided hwritten hlines hpassed hdecided

end Reaction

/-- What a wait in vain comes to. -/
def Command.unanswered (command : Command) (timeout : Number) : Failure :=
  match timeout.wait with
  | .error e => .seconds e
  | .ok () =>
    match EngineError.timedOut command.name timeout with
    | .ok e => .engine e
    | .error e => .seconds e

/-- What the sender of a request gets by what settles it, if anything does. -/
def Command.outcome (command : Command) (timeout : Number) : Option Settlement → Except Failure Answer
  | some r => (r.map Response.answer).mapError .engine
  | none => .error (command.unanswered timeout)

theorem Channel.await_outcome (c : Channel) (id : Nat) (command : Command) (timeout : Number) :
    (c.await id command timeout).map Response.answer =
      command.outcome timeout (c.settlement? id) := by
  unfold await Command.outcome Command.unanswered
  cases c.settlement? id with
  | some r => cases r <;> rfl
  | none =>
    dsimp only
    cases timeout.wait with
    | error e => rfl
    | ok _ =>
      dsimp only
      cases EngineError.timedOut command.name timeout <;> rfl

namespace Session

variable {σ : Type} {s : Session σ} {g : Nat} {c : Channel} (program : Program σ)
  (command : Command) (arguments : Fields)

/-- How the engine reacts to the next request of a channel. -/
def reaction (g : Nat) (c : Channel) (s : Session σ) : Reaction :=
  (program.react s.supervisor.program g (Request.encode ⟨c.nextId, command, arguments⟩)).1

/-- What there is when the next request of a channel has been registered and written, before the
engine does anything. -/
def asked (g : Nat) (c : Channel) (s : Session σ) : Supervisor σ Link :=
  { (s.enlist g c command arguments).supervisor.record
      (.write g (Request.encode ⟨c.nextId, command, arguments⟩)) with
    program :=
      (program.react s.supervisor.program g (Request.encode ⟨c.nextId, command, arguments⟩)).2 }

/-- The session when the engine has reacted. -/
def reacted (g : Nat) (c : Channel) (s : Session σ) : Session σ :=
  { s with
    supervisor := (s.asked program command arguments g c).acts Link.listener g
      (s.reaction program command arguments g c).acts }

/-- The session when besides the request waits no longer. -/
def released (g : Nat) (c : Channel) (s : Session σ) : Session σ :=
  (s.reacted program command arguments g c).mapLink fun l => l.update g (·.forget c.nextId)

theorem Serving.generation (h : s.Serving g c) : c.generation = g :=
  (Link.mem_of_channel h.channel).2

theorem Serving.pending_register (h : s.Serving g c) :
    (c.register command arguments).2.pending = [(c.nextId, command)] := by
  simp [Channel.register, h.idle]

theorem Serving.isClosed_register (h : s.Serving g c) :
    (c.register command arguments).2.isClosed = false := by
  simp [Channel.register, Channel.isClosed, h.isOpen]

theorem Serving.post_run (h : s.Serving g c) :
    (Session.post program g command arguments).runFrom s =
      settlePost g c.nextId
        (match (s.reaction program command arguments g c).error with
          | none => .ok ()
          | some text => .error (.engine (Reaction.pipeClosed g text)))
        (s.reacted program command arguments g c) := by
  have hgeneration : s.generation = g := h.child.current.symm
  have hr : s.refusal? g command = none := by
    simp [refusal?, h.channel, Channel.refusal?, h.isOpen, h.generation, hgeneration,
      h.child.isRunning]
  have hserves : (s.enlist g c command arguments).supervisor.Serves g :=
    h.child.of_children rfl rfl rfl
  rw [Session.post_run program h.channel hr arguments,
    Supervisor.sendLine_run Link.listener program _ hserves.current hserves.isRunning]
  rfl

section

variable (h : s.Serving g c) (hs : s.Sound) (hrunning : s.state = .running)
  (hl : ∀ line ∈ Act.lines (s.reaction program command arguments g c).acts, Channel.Legible line)
include h hs hrunning hl

/-- A reaction changes the link as it changes the channel. -/
theorem Serving.reacted :
    let as := (s.reaction program command arguments g c).acts
    let t := s.reacted program command arguments g c
    t.link = { s.link.update g fun _ =>
        (c.register command arguments).2.reacted c.nextId command as with
      state := if (Act.ending? as).isSome then .crashed else .running } ∧
    (Act.ending? as = none → t.supervisor.isRunning = true) := by
  intro as t
  have hg : (c.register command arguments).2.generation = g := h.generation
  have hattends := (h.attends hs).update ((hs.link.channel h.channel).register command arguments)
    (c.register_ages command arguments)
  have hasked : (s.asked program command arguments g c).Attends g (c.register command arguments).2 :=
    ⟨hattends.child, hattends.sound, hattends.installed, hattends.channel⟩
  obtain ⟨d, hd, -, halive⟩ := h.child.child
  obtain ⟨hopen, hended⟩ := hasked.reacts (h.pending_register command arguments) hrunning hd
    (Option.isNone_iff_eq_none.mp halive) hl
  unfold Channel.reacted
  cases he : Act.ending? as with
  | none =>
    have ht : t.supervisor = _ := hopen he
    have hlink : t.link = _ := (congrArg Supervisor.owner ht).trans (Link.update_update s.link hg _)
    refine ⟨?_, fun _ => ?_⟩
    · rw [hlink]
      simp only [Link.update, Option.isSome_none, Bool.false_eq_true, if_false, ← hrunning]
      rfl
    · rw [ht]
      exact (h.child.of_children rfl rfl rfl).isRunning
  | some exitCode =>
    refine ⟨?_, fun hnone => by cases hnone⟩
    have hlink : t.link = _ := hended exitCode he
    rw [hlink]
    have hupdate := Link.update_update s.link hg fun _ =>
      ((c.register command arguments).2.heard c.nextId command (Act.lines as)).close
        (Link.crashReason exitCode)
    exact congrArg (fun l : Link => { l with state := SessionState.crashed }) hupdate

theorem Serving.reacted_channel :
    (s.reacted program command arguments g c).link.channel? g =
      some ((c.register command arguments).2.reacted c.nextId command
        (s.reaction program command arguments g c).acts) := by
  obtain ⟨hlink, -⟩ := h.reacted program command arguments hs hrunning hl
  obtain ⟨hgeneration, -⟩ := (c.register command arguments).2.reacted_frame c.nextId command
    (s.reaction program command arguments g c).acts
  have hg := hgeneration.trans h.generation
  have hupdate := s.link.channel?_update (g := g) (f := fun _ =>
    (c.register command arguments).2.reacted c.nextId command
      (s.reaction program command arguments g c).acts) (fun _ _ _ => hg) g
  rw [if_pos rfl, h.channel] at hupdate
  rw [hlink]
  exact hupdate

/-- What the sender of a request gets, and what there is then. -/
theorem Serving.send_run :
    (Session.send program g command arguments).runFrom s =
      (match (s.reaction program command arguments g c).error with
        | none => (((c.register command arguments).2.reacted c.nextId command
            (s.reaction program command arguments g c).acts).await c.nextId command
              s.settings.requestTimeout).map Response.answer
        | some text => .error (.engine (Reaction.pipeClosed g text)),
      s.released program command arguments g c) := by
  have hpost := h.post_run program command arguments
  unfold Session.send
  cases he : (s.reaction program command arguments g c).error with
  | some text =>
    rw [he] at hpost
    rw [Attempt.runFrom_bind, hpost]
    rfl
  | none =>
    rw [he] at hpost
    have hchannel := h.reacted_channel program command arguments hs hrunning hl
    have htimeout := ((c.register command arguments).2.reacted_frame c.nextId command
      (s.reaction program command arguments g c).acts).2
    rw [Attempt.runFrom_bind_ok hpost, collect_run hchannel,
      htimeout.trans (hs.channels g c h.channel).2]
    rfl

/-- The sender gets what settles the request, and if nothing does it has waited in vain. -/
theorem Serving.send_result :
    (Session.send program g command arguments).runFrom s =
      (command.outcome s.settings.requestTimeout
        ((s.reaction program command arguments g c).settlement? g c.nextId command),
      s.released program command arguments g c) := by
  rw [h.send_run program command arguments hs hrunning hl]
  refine Prod.ext ?_ rfl
  dsimp only
  unfold Reaction.settlement?
  cases (s.reaction program command arguments g c).error with
  | some text => rfl
  | none =>
    have hnew : (c.register command arguments).2.settlement? c.nextId = none :=
      (hs.link.channel h.channel).settlement_next
    have hg : (c.register command arguments).2.generation = g := h.generation
    have hsettled := Channel.settlement_reacted (h.pending_register command arguments)
      (h.isClosed_register command arguments) hnew (s.reaction program command arguments g c).acts
    rw [hg] at hsettled
    dsimp only
    rw [Channel.await_outcome, hsettled]

end

end Session

end AssemblyBrowser
