import AssemblyBrowser.Proofs.Engine.Throughout
import AssemblyBrowser.Proofs.Json.Integer
/-!
What lines of its engine do to a session in which a request waits. Every line is taken as it is meant:
an event, an answer, or a malformed line, which the request fails with; and the next line is read. Only
a line that cannot be read, for it holds an integer of more than 4300 digits, is the last one: the
engine counts as crashed then. Main statement: at every moment of a run at which a request waits in a
running session, the connection stands after lines of the engine if and only if none is such a line.
-/
namespace AssemblyBrowser

/-! ## Lines -/

/-- The line that is written for a request tells its command. -/
theorem Request.command_of_encode {id : Int} {command command' : Command}
    {arguments arguments' : Fields}
    (h : encode ⟨id, command, arguments⟩ = encode ⟨id, command', arguments'⟩) :
    command = command' := by
  have hlist := congrArg String.toList h
  simp only [encode, toJson, Json.print, Json.Printer.value, Json.Printer.members,
    Json.Printer.opening, Json.Printer.colon, Json.Printer.separator, String.toList_append,
    String.toList_ofList, List.append_assoc, List.cons_append, List.nil_append, List.cons.injEq,
    true_and, List.append_cancel_left_eq] at hlist
  have hload : Json.Printer.string Command.load.name = ['"', 'l', 'o', 'a', 'd', '"'] := by rfl
  have henumerate : Json.Printer.string Command.enumerate.name =
      ['"', 'e', 'n', 'u', 'm', 'e', 'r', 'a', 't', 'e', '"'] := by rfl
  have hdecompile : Json.Printer.string Command.decompile.name =
      ['"', 'd', 'e', 'c', 'o', 'm', 'p', 'i', 'l', 'e', '"'] := by rfl
  cases command <;> cases command' <;>
    first | rfl | simp [hload, henumerate, hdecompile] at hlist

namespace Channel

/-- A line that cannot be read: it holds an integer of more than 4300 digits. -/
def Chokes (line : String) : Prop :=
  ∃ digits, Json.longestInteger < digits ∧
    Json.parse (Text.trim line) = .error (.hugeInteger digits)

/-- Lines of the engine are handled one after another; blank ones are no lines. -/
def handleLines (c : Channel) (lines : List String) : Except Nat Channel :=
  ((lines.map Text.trim).filter (· ≠ "")).foldlM handleLine c

theorem readLine_error_iff {line : String} {digits : Nat} :
    readLine line = .error digits ↔ Json.parse line = .error (.hugeInteger digits) := by
  unfold readLine decodeLine
  cases Json.parse line with
  | error e => cases e <;> simp
  | ok v => cases v <;> simp

theorem chokes_iff {line : String} :
    Chokes line ↔ ∃ digits, readLine (Text.trim line) = .error digits := by
  constructor
  · rintro ⟨digits, -, h⟩
    exact ⟨digits, readLine_error_iff.mpr h⟩
  · rintro ⟨digits, h⟩
    have hparse := readLine_error_iff.mp h
    exact ⟨digits, Json.longestInteger_lt_of_parse hparse, hparse⟩

theorem reading_of_not_chokes {line : String} (h : ¬Chokes line) :
    ∃ reading, readLine (Text.trim line) = .ok reading := by
  cases hr : readLine (Text.trim line) with
  | ok reading => exact ⟨reading, rfl⟩
  | error digits => exact absurd (chokes_iff.mpr ⟨digits, hr⟩) h

/-- Only one request waits. -/
theorem Accounted.only {c : Channel} {past : List Passage} (h : c.Accounted past) {id : Nat}
    {command : Command} (hp : (id, command) ∈ c.pending) : ∀ p ∈ c.pending, p = (id, command) := by
  rintro ⟨id', command'⟩ hp'
  have hlast := h.last hp
  have hlast' := h.last hp'
  obtain rfl : id' = id := by omega
  obtain ⟨j, arguments, hasked, -⟩ := h.pending id' command hp
  obtain ⟨j', arguments', hasked', -⟩ := h.pending id' command' hp'
  obtain rfl := hasked.unique hasked'
  have hwrote := hasked.wrote.symm.trans hasked'.wrote
  simp only [Option.some.injEq, Passage.wrote.injEq, true_and] at hwrote
  rw [Request.command_of_encode hwrote]

/-- What all that wait fail with, the only one that waits fails with. -/
theorem settlement_failAll {c : Channel} {id : Nat} {command : Command}
    (hp : (id, command) ∈ c.pending) (honly : ∀ p ∈ c.pending, p = (id, command))
    (error : Command → EngineError) :
    (c.failAll error).settlement? id = some (.error (error command)) := by
  obtain ⟨n, hn⟩ : ∃ n, c.pending = List.replicate (n + 1) (id, command) := by
    have hlength := List.length_pos_of_mem hp
    refine ⟨c.pending.length - 1, ?_⟩
    rw [Nat.sub_add_cancel hlength]
    exact List.eq_replicate_of_mem honly
  simp [settlement?, failAll, hn, List.replicate_succ']

/-- The only request that waits fails with a malformed line, whatever id the line has. -/
theorem settlement_malformed {c : Channel} {id : Nat} {command : Command}
    (hp : (id, command) ∈ c.pending) (honly : ∀ p ∈ c.pending, p = (id, command)) (line : String)
    (e : ProtocolError) (claimed : Option Int) :
    (c.take line (.malformed e claimed)).settlement? id =
      some (.error (.malformed command.name e.message (some line))) := by
  simp only [take]
  cases hw : claimed.bind c.waiting? with
  | none => exact settlement_failAll hp honly _
  | some p =>
    obtain ⟨i, -, hw⟩ := Option.bind_eq_some_iff.mp hw
    obtain rfl := honly p (waiting_mem hw).1
    simp [settle, settlement?]

theorem isClosed_take (c : Channel) (line : String) (reading : Reading) :
    (c.take line reading).isClosed = c.isClosed := by
  obtain ⟨pending, settled, htake, -⟩ := c.take_eq line reading
  rw [htake]
  rfl

theorem handleLines_blank (c : Channel) {line : String} (hb : Text.trim line = "")
    (lines : List String) : c.handleLines (line :: lines) = c.handleLines lines := by
  simp [handleLines, hb]

theorem handleLines_read (c : Channel) {line : String} (hne : Text.trim line ≠ "")
    {reading : Reading} (hr : readLine (Text.trim line) = .ok reading) (lines : List String) :
    c.handleLines (line :: lines) = (c.take (Text.trim line) reading).handleLines lines := by
  simp only [handleLines, List.map_cons, ne_eq, decide_not, hne, decide_false, Bool.not_false,
    List.filter_cons_of_pos, List.foldlM_cons, handleLine, hr, Except.map]
  rfl

end Channel

/-! ## The child that is read -/

namespace Link

variable {l : Link} {g : Nat} {c : Channel}

/-- The engine of a running session has gone. -/
theorem markCrashed_running (hi : l.installed = some g) (hc : l.channel? g = some c)
    (hs : l.state = .running) (exitCode : Option Int) :
    l.markCrashed g exitCode =
      { l.update g (·.close (crashReason exitCode)) with state := .crashed } := by
  have hinstalled : l.installed? = some c := (installed?_eq hi).trans hc
  have hstate : (l.update g (·.close (crashReason exitCode))).state = .running := hs
  simp [markCrashed, hinstalled, (mem_of_channel hc).2, hstate]

end Link

namespace Supervisor

variable {σ : Type} {s : Supervisor σ Link} {g : Nat} {c : Channel}

/-- Lines that can be read are handled by the channel, all of them, and nothing else happens. -/
theorem Attends.delivers (h : s.Attends g c) {lines : List String}
    (hl : ∀ line ∈ lines, ¬Channel.Chokes line) :
    ∃ c', c.handleLines lines = .ok c' ∧ c'.isClosed = c.isClosed ∧
      s.acts Link.listener g (lines.map .print) =
        { s with owner := s.owner.update g fun _ => c' } ∧
      (s.acts Link.listener g (lines.map .print)).Attends g c' := by
  induction lines generalizing s c with
  | nil => exact ⟨c, rfl, rfl, by rw [h.sound.update_self h.channel]; rfl, h⟩
  | cons line lines ih =>
    obtain ⟨hfirst, hrest⟩ := List.forall_mem_cons.mp hl
    rw [List.map_cons, acts, List.foldl_cons]
    by_cases hb : Text.trim line = ""
    · rw [act_blank _ s g hb, c.handleLines_blank hb]
      exact ih h hrest
    · obtain ⟨reading, hr⟩ := Channel.reading_of_not_chokes hfirst
      obtain ⟨hsound, hages⟩ := (h.sound.channel h.channel).take (Text.trim line) reading
      have hnext := h.update hsound hages
      obtain ⟨c', hhandled, hclosed, hacts, hattends⟩ := ih hnext hrest
      rw [h.read hb hr, c.handleLines_read hb hr]
      refine ⟨c', hhandled, hclosed.trans (c.isClosed_take _ _), hacts.trans ?_, hattends⟩
      rw [Link.update_update _ (Link.mem_of_channel hnext.channel).2]

/-- At a line that cannot be read the reader gives up. -/
theorem Attends.chokes (h : s.Attends g c) {line : String} (hl : Channel.Chokes line) :
    ∃ d, s.child? g = some d ∧ s.act Link.listener g (.print line) = s.endOutput Link.listener g d := by
  obtain ⟨digits, hr⟩ := Channel.chokes_iff.mp hl
  obtain ⟨d, hd, hs⟩ := h.child
  obtain ⟨greeting, hgreeting⟩ := Option.isSome_iff_exists.mp hs.greeted
  have hne : Text.trim line ≠ "" := fun e => by simp [e, readLine_empty] at hr
  have hi : s.owner.installed? = some c := (Link.installed?_eq h.installed).trans h.channel
  have hheard : Link.listener.heard s.owner g (Text.trim line) = none := by
    simp [Link.listener, Link.hear, hi, (Link.mem_of_channel h.channel).2, Channel.handleLine, hr,
      Except.map]
  refine ⟨d, hd, ?_⟩
  simp [act, hd, hs.reading, hear, hne, hgreeting, hheard]

/-- Nothing is read of a child when its reader has given up. -/
theorem acts_unread {d : Child} (hd : s.child? g = some d) (hr : d.reading = false)
    (lines : List String) : s.acts Link.listener g (lines.map .print) = s := by
  induction lines with
  | nil => rfl
  | cons line lines ih =>
    have hact : s.act Link.listener g (.print line) = s := by simp [act, hd, hr]
    rw [List.map_cons, acts, List.foldl_cons, hact]
    exact ih

/-- Lines of another child are no concern of the link. -/
theorem Attends.act_other (h : s.Attends g c) {g' : Nat} (hg : g' ≠ g) (line : String) :
    (s.act Link.listener g' (.print line)).owner = s.owner := by
  have hsuperseded : s.owner.installed ≠ some g' := fun he =>
    hg (Option.some.inj (he.symm.trans h.installed))
  obtain ⟨children, endedGeneration, hact⟩ := act_superseded hsuperseded (.print line)
  rw [hact]

theorem Attends.acts_other (h : s.Attends g c) {g' : Nat} (hg : g' ≠ g) (lines : List String) :
    (s.acts Link.listener g' (lines.map .print)).owner = s.owner := by
  induction lines generalizing s with
  | nil => rfl
  | cons line lines ih =>
    have howner := h.act_other hg line
    have hchild := (act_turn Link.listener g' s (.print line)).others g hg.symm
    have hnext : (s.act Link.listener g' (.print line)).Attends g c := by
      refine ⟨hchild ▸ h.child, ?_, ?_, ?_⟩
      · rw [howner]
        exact h.sound
      · rw [howner]
        exact h.installed
      · rw [howner]
        exact h.channel
    rw [List.map_cons, acts, List.foldl_cons]
    exact (ih hnext).trans howner

/-- With the first line that cannot be read the engine of a running session counts as crashed. -/
theorem Attends.crashed (h : s.Attends g c) (hs : s.owner.state = .running) {line : String}
    (hl : Channel.Chokes line) (more : List String) : ∃ exitCode,
      (s.acts Link.listener g ((line :: more).map .print)).owner =
        { s.owner.update g (·.close (Link.crashReason exitCode)) with state := .crashed } ∧
      s.acts Link.listener g ((line :: more).map .print) =
        s.acts Link.listener g ([line].map .print) := by
  obtain ⟨d, hd, hact⟩ := h.chokes hl
  have hdone := child?_endOutput Link.listener hd d
  have hfirst : s.acts Link.listener g ([line].map .print) = s.endOutput Link.listener g d := hact
  have hall : s.acts Link.listener g ((line :: more).map .print) =
      s.endOutput Link.listener g d := by
    rw [List.map_cons, acts, List.foldl_cons, hact]
    exact acts_unread hdone rfl more
  refine ⟨d.exitCode, ?_, hall.trans hfirst.symm⟩
  rw [hall]
  exact Link.markCrashed_running h.installed h.channel hs d.exitCode

theorem Attends.state_of_chokes (h : s.Attends g c) (hs : s.owner.state = .running)
    {lines : List String} (hl : ∃ line ∈ lines, Channel.Chokes line) :
    (s.acts Link.listener g (lines.map .print)).owner.state = .crashed := by
  induction lines generalizing s c with
  | nil => simp at hl
  | cons line lines ih =>
    by_cases hfirst : Channel.Chokes line
    · obtain ⟨exitCode, howner, -⟩ := h.crashed hs hfirst lines
      rw [howner]
    · have hrest : ∃ line ∈ lines, Channel.Chokes line := by
        obtain ⟨other, hmem, hother⟩ := hl
        rcases List.mem_cons.mp hmem with rfl | hmem
        · exact absurd hother hfirst
        · exact ⟨other, hmem, hother⟩
      have hread : ∀ other ∈ [line], ¬Channel.Chokes other := by simpa using hfirst
      obtain ⟨c', -, -, hacts, hattends⟩ := h.delivers hread
      rw [List.map_cons, acts, List.foldl_cons]
      refine ih (s := s.acts Link.listener g ([line].map .print)) hattends ?_ hrest
      rw [hacts]
      exact hs

end Supervisor

/-! ## Sessions that expect an answer -/

namespace Session

variable {σ : Type} {s t : Session σ} {g id : Nat} {command : Command} {past : List Passage}

/-- Lines of a child are read. -/
def prints (s : Session σ) (g : Nat) (lines : List String) : Session σ :=
  { s with supervisor := s.supervisor.happen Link.listener g (lines.map .print) }

/-- A request waits, and the session is running. -/
structure Expects (s : Session σ) (g id : Nat) (command : Command) : Prop where
  running : s.state = .running
  waits : (id, command) ∈ s.link.waiting g

/-- The session is running, its channel is open, and the lines of the child are read. -/
structure Stands (s : Session σ) (g : Nat) : Prop where
  running : s.state = .running
  installed : s.link.installed = some g
  opened : ∃ c, s.link.channel? g = some c ∧ c.isClosed = false
  read : ∃ d, s.supervisor.child? g = some d ∧ d.Speaks

/-- The channel has handled lines, one after another, and nothing else has happened. -/
def Delivers (s : Session σ) (g : Nat) (lines : List String) (t : Session σ) : Prop :=
  ∃ c c', s.link.channel? g = some c ∧ c.handleLines lines = .ok c' ∧
    t = s.mapLink fun l => l.update g fun _ => c'

/-- Whoever waits for an answer to a request gets an error instead. -/
def Fails (s : Session σ) (g id : Nat) (command : Command) (e : EngineError) : Prop :=
  ((collect g id command).runFrom s).1 = .error (.engine e)

/-- A request that waits does so at an open channel. -/
theorem Accounted.open_of_waits (h : s.Accounted past) (hw : (id, command) ∈ s.link.waiting g) :
    ∃ c, s.link.channel? g = some c ∧ c.isClosed = false ∧ (id, command) ∈ c.pending := by
  cases hc : s.link.channel? g with
  | none =>
    rw [Link.waiting_of_none hc] at hw
    cases hw
  | some c =>
    rw [Link.waiting_of_channel hc] at hw
    refine ⟨c, rfl, ?_, hw⟩
    cases hclosed : c.isClosed with
    | false => rfl
    | true =>
      rw [h.link.closed g c hc hclosed] at hw
      cases hw

theorem Expects.attends (h : s.Expects g id command) (ha : s.Accounted past) :
    ∃ c, s.supervisor.Attends g c ∧ c.isClosed = false ∧ (id, command) ∈ c.pending ∧
      ∀ p ∈ c.pending, p = (id, command) := by
  have hspeaks := ha.speaks g (List.ne_nil_of_mem h.waits)
  obtain ⟨c, hc, hopen, hp⟩ := ha.open_of_waits h.waits
  refine ⟨c, ⟨hspeaks, ha.sound.link, ha.link.opened g c hc hopen, hc⟩, hopen, hp, ?_⟩
  exact (ha.link.channel g c hc).only hp

theorem stands_of_attends {c : Channel} (h : t.supervisor.Attends g c) (hs : t.state = .running)
    (hopen : c.isClosed = false) : t.Stands g :=
  ⟨hs, h.installed, ⟨c, h.channel, hopen⟩, h.child⟩

theorem fails_of_settlement {c : Channel} (hc : s.link.channel? g = some c) {e : EngineError}
    (hs : c.settlement? id = some (.error e)) : s.Fails g id command e := by
  simp [Fails, Attempt.runFrom, ExceptT.run, collect, hc, Channel.await, hs, Except.map]

/-- What a request has failed with it fails with after further lines. -/
theorem fails_prints {c : Channel} (h : s.link.Sound) (hc : s.link.channel? g = some c)
    {e : EngineError} (hs : c.settlement? id = some (.error e)) (more : List String) :
    (s.prints g more).Fails g id command e := by
  have hages := Supervisor.acts_ages Link.listener_respects g (more.map .print) s.supervisor
  obtain ⟨c', hc', hlater⟩ := (hages.owner h).ages g c hc
  exact fails_of_settlement (s := s.prints g more) hc' (hlater.settled id _ hs)

section

variable {c : Channel} (h : s.supervisor.Attends g c) (hs : s.state = .running)
  (hopen : c.isClosed = false) (hp : (id, command) ∈ c.pending)
  (honly : ∀ p ∈ c.pending, p = (id, command))
include h

theorem delivers_prints {lines : List String} (hl : ∀ line ∈ lines, ¬Channel.Chokes line) :
    s.Delivers g lines (s.prints g lines) := by
  obtain ⟨c', hhandled, -, hacts, -⟩ := h.delivers hl
  refine ⟨c, c', h.channel, hhandled, ?_⟩
  rw [prints, Supervisor.happen, hacts]
  rfl

include hs hopen in
/-- The connection stands after lines if and only if each of them can be read. -/
theorem stands_prints_iff (lines : List String) :
    (s.prints g lines).Stands g ↔ ∀ line ∈ lines, ¬Channel.Chokes line := by
  constructor
  · intro hstands line hmem hl
    have hcrashed := h.state_of_chokes hs ⟨line, hmem, hl⟩
    cases hstands.running.symm.trans hcrashed
  · intro hl
    obtain ⟨c', -, hclosed, hacts, hattends⟩ := h.delivers hl
    have hstate := congrArg (fun t => t.owner.state) hacts
    exact stands_of_attends (t := s.prints g lines) hattends (hstate.trans hs) (hclosed.trans hopen)

include hp honly in
theorem fails_malformed {line : String} (hne : Text.trim line ≠ "") {e : ProtocolError}
    {claimed : Option Int} (hr : Channel.readLine (Text.trim line) = .ok (.malformed e claimed))
    (more : List String) : (s.prints g (line :: more)).Fails g id command
      (.malformed command.name e.message (some (Text.trim line))) := by
  obtain ⟨hsound, hages⟩ := (h.sound.channel h.channel).take (Text.trim line) (.malformed e claimed)
  have hnext := h.update hsound hages
  rw [← h.read hne hr] at hnext
  exact fails_prints (s := { s with supervisor := s.supervisor.act Link.listener g (.print line) })
    hnext.sound hnext.channel (Channel.settlement_malformed hp honly _ e claimed) more

include hs hopen hp honly in
/-- After a line that cannot be read nothing is read, and the request fails as if the engine had
exited. -/
theorem crashed_prints {line : String} (hl : Channel.Chokes line) (more : List String) :
    (s.prints g (line :: more)).state = .crashed ∧
      s.prints g (line :: more) = s.prints g [line] ∧
      ∃ exitCode, (s.prints g (line :: more)).Fails g id command
        (.unavailable command.name (some (Link.crashReason exitCode)) (some g)) := by
  obtain ⟨exitCode, howner, hsame⟩ := h.crashed hs hl more
  refine ⟨congrArg Link.state howner, ?_, exitCode, ?_⟩
  · rw [prints, prints, Supervisor.happen, Supervisor.happen, hsame]
  · have hg := (Link.mem_of_channel h.channel).2
    have hclosed : (s.prints g (line :: more)).link.channel? g =
        some (c.close (Link.crashReason exitCode)) := by
      have hupdate := s.link.channel?_update (g := g) (f := (·.close (Link.crashReason exitCode)))
        (fun d _ hd => (d.generation_close _).trans hd) g
      rw [if_pos rfl, show s.link.channel? g = some c from h.channel] at hupdate
      rw [show (s.prints g (line :: more)).link = _ from howner]
      exact hupdate
    apply fails_of_settlement hclosed
    have hsettled := Channel.settlement_failAll
      (c := { c with closedReason := some (Link.crashReason exitCode) }) hp honly fun command =>
        .unavailable command.name (some (Link.crashReason exitCode)) (some c.generation)
    simp only [Channel.close, hopen, Bool.false_eq_true, if_false]
    rw [hsettled, hg]

include hs hopen in
/-- Lines of another child do nothing to the connection. -/
theorem prints_other {g' : Nat} (hg : g' ≠ g) (lines : List String) :
    (s.prints g' lines).link = s.link ∧ (s.prints g' lines).Stands g := by
  have howner : (s.prints g' lines).link = s.link := h.acts_other hg lines
  have hchild := (Supervisor.acts_turn Link.listener g' (lines.map .print) s.supervisor).others g
    hg.symm
  refine ⟨howner, (congrArg Link.state howner).trans hs, ?_, ?_, ?_⟩
  · rw [howner]
    exact h.installed
  · rw [howner]
    exact ⟨c, h.channel, hopen⟩
  · exact hchild ▸ h.child

end

end Session

/-! ## Runs -/

namespace Callers

variable {σ : Type}

/-- An engine that greets and does not say anything more. -/
def reticent : Program Unit where
  launch w := (.started {} [.print "\x7b\"event\": \"ready\"\x7d"], w)
  react w _ _ := (⟨[], none⟩, w)

/-- A caller asks for an assembly and waits. -/
def waitingRun : List CallersStep :=
  [.begin 1 (.load "a.dll"), .step 1 true, .step 1 true, .step 1 true]

/-- An integer with one digit too many. -/
def longLine : String := String.ofList (List.replicate (Json.longestInteger + 1) '1')

theorem waitingRun_expects :
    (following reticent waitingRun patientCallers).session.Expects 1 1 .load :=
  ⟨by decide +kernel, by decide +kernel⟩

theorem longLine_chokes : Channel.Chokes longLine := by
  unfold longLine
  generalize hn : Json.longestInteger = n
  have hdigits : ∀ d ∈ List.replicate (n + 1) '1', d.isDigit = true := fun d hd => by
    rw [List.eq_of_mem_replicate hd]
    rfl
  have hlong : Json.longestInteger < ('1' :: List.replicate n '1').length := by
    rw [List.length_cons, List.length_replicate, hn]
    exact Nat.lt_succ_self n
  refine ⟨_, hlong, ?_⟩
  rw [Text.trim_digits hdigits]
  exact Json.parse_digits rfl (by decide) (fun d hd => hdigits d (List.mem_cons_of_mem _ hd)) hlong

end Callers

end AssemblyBrowser
