import AssemblyBrowser.Proofs.Engine.Reload
import AssemblyBrowser.Proofs.Engine.Steady
/-!
Sessions with a steady engine. While the engine serves, each request gets the answer of the
catalogue; when it does not, it is started anew and loads what the session remembers before the next
request is sent. So it makes no difference to the answers whether an engine has gone in between.
-/
namespace AssemblyBrowser

variable {σ : Type}

namespace Channel

/-- A channel with nothing waiting, after one more request has been answered. -/
def served (c : Channel) (answer : Answer) : Channel :=
  { c with
    nextId := c.nextId + 1
    settled := (c.nextId, .ok ⟨c.nextId, answer⟩) :: c.settled }

theorem nextId_served (c : Channel) (answer : Answer) :
    (c.served answer).nextId = c.nextId + 1 := rfl

variable {c : Channel} (h : c.pending = []) (command : Command) (arguments : Fields)
include h

theorem waiting_register :
    (c.register command arguments).2.waiting? c.nextId = some (c.nextId, command) := by
  simp [register, waiting?, h]

theorem forget_settle_register (answer : Answer) :
    ((c.register command arguments).2.settle c.nextId (.ok ⟨c.nextId, answer⟩)).forget c.nextId =
      c.served answer := by
  simp [register, settle, forget, served, h]

theorem Sound.served (hs : c.Sound) (answer : Answer) :
    (c.served answer).Sound ∧ c.Ages (c.served answer) := by
  have hw := (waiting_mem (waiting_register h .load [])).1
  obtain ⟨hs', ha⟩ := (hs.register .load []).respond hw answer
  rw [← forget_settle_register h .load [] answer]
  exact ⟨hs'.forget _, ((c.register_ages .load []).trans ha).trans (forget_ages _ _)⟩

end Channel

theorem Supervisor.Serves.sendLine {s : Supervisor σ Link} {g : Nat} (h : s.Serves g) {c : Channel}
    (ha : s.Attends g c) {program : Program σ} {line : String} {id : Nat} {command : Command}
    (hw : c.waiting? id = some (id, command)) {answer : Answer}
    (he : (program.react s.program g line).1.error = none)
    (hr : Replies id answer (program.react s.program g line).1.acts) :
    (Supervisor.sendLine program Link.listener g line).runFrom s =
      (.ok (), { s.record (.write g line) with
        program := (program.react s.program g line).2
        owner := s.owner.update g fun _ => c.settle id (.ok ⟨id, answer⟩) }) := by
  have hacts := Attends.replies
    (s := { s.record (.write g line) with program := (program.react s.program g line).2 })
    ⟨ha.child, ha.sound, ha.installed, ha.channel⟩ hw hr
  simp only [Attempt.runFrom, ExceptT.run, Supervisor.sendLine, h.held, h.current, h.isRunning,
    Option.isNone_some, ne_eq, not_true_eq_false, decide_false, Bool.or_false, Bool.not_true,
    Bool.false_eq_true, if_false]
  split
  · rw [← h.current]
    exact congrArg (Prod.mk _) hacts
  · rename_i text hfailed
    rw [← h.current] at hfailed
    cases he.symm.trans hfailed

namespace Link

/-- Reports of an end change nothing, or the installed channel is closed then. -/
theorem markCrashed_cases (l : Link) (g : Nat) (exitCode : Option Int) :
    l.markCrashed g exitCode = l ∨
      ∃ c, (l.markCrashed g exitCode).installed? = some c ∧ c.isClosed = true := by
  unfold markCrashed
  cases hi : l.installed? with
  | none => exact .inl rfl
  | some c =>
    dsimp only
    split
    · exact .inl rfl
    · rename_i hg
      have hg : c.generation = g := Decidable.not_not.mp hg
      have hc : (l.update g (·.close (crashReason exitCode))).installed? =
          some (c.close (crashReason exitCode)) := by
        obtain ⟨g', hg', hc⟩ := Option.bind_eq_some_iff.mp hi
        have hsame : g' = g := (mem_of_channel hc).2.symm.trans hg
        subst hsame
        have := channel?_update l (g := g') (f := (·.close (crashReason exitCode)))
          (fun d _ hd => (d.generation_close _).trans hd) g'
        rw [if_pos rfl, hc] at this
        exact (installed?_eq (l := l.update g' _) hg').trans this
      refine .inr ⟨_, ?_, c.isClosed_close (crashReason exitCode)⟩
      split
      · exact hc
      · exact hc

end Link

namespace Session

/-- The installed channel is open with nothing waiting, and the child behind it serves. -/
structure Serving (s : Session σ) (g : Nat) (c : Channel) : Prop where
  child : s.supervisor.Serves g
  installed : s.link.installed = some g
  channel : s.link.channel? g = some c
  isOpen : c.closedReason = none
  idle : c.pending = []

/-- A session after a line has been written, which has changed the engine and the channel. -/
def exchange (s : Session σ) (g : Nat) (line : String) (w : σ) (c : Channel) : Session σ :=
  { s with supervisor :=
    { s.supervisor.record (.write g line) with program := w, owner := s.link.update g fun _ => c } }

variable {s t : Session σ} {g : Nat} {c : Channel}

theorem Serving.attends (h : s.Serving g c) (hs : s.Sound) : s.supervisor.Attends g c where
  child := h.child.child.imp fun _ hd => ⟨hd.1, hd.2.1⟩
  sound := hs.link
  installed := h.installed
  channel := h.channel

theorem Sound.exchange (hs : s.Sound) (h : s.Serving g c) (line : String) (w : σ) {c' : Channel}
    (hc : c'.Sound) (ha : c.Ages c') : s.Moves (s.exchange g line w c') := by
  obtain ⟨hl, hages, hf⟩ := hs.link.update (g := g) (f := fun _ => c') fun d hd => by
    cases h.channel.symm.trans hd
    exact ⟨hc, ha⟩
  exact (hs.onSupervisor (t := (s.exchange g line w c').supervisor)
    ⟨rfl, List.prefix_append _ _, Nat.le_refl _, id, fun _ => ⟨hl, hages, hf⟩⟩ (.inr rfl)).1

theorem Serving.exchange (h : s.Serving g c) (line : String) (w : σ) (answer : Answer) :
    (s.exchange g line w (c.served answer)).Serving g (c.served answer) where
  child := h.child.of_children rfl rfl rfl
  installed := h.installed
  channel := by
    have hg : c.generation = g := (Link.mem_of_channel h.channel).2
    have := Link.channel?_update s.link (g := g) (f := fun _ => c.served answer)
      (fun _ _ _ => hg) g
    rwa [if_pos rfl, h.channel] at this
  isOpen := h.isOpen
  idle := h.idle

theorem exchange_update (hg : c.generation = g) {line : String} {w : σ} (f : Channel → Channel) :
    ((s.exchange g line w c).mapLink fun l => l.update g f) = s.exchange g line w (f c) := by
  have h := Link.update_update s.link hg f
  simp only [Session.exchange, mapLink, ← h]

variable {program : Program σ} {k : Catalogue} {loaded : σ → Nat → String → Bool} {limit : Nat}

/-- Writing a question while the engine serves. -/
theorem Serving.post (h : s.Serving g c) (hs : s.Sound) (hp : program.IsSteady k loaded limit)
    (hid : c.nextId ≤ limit) (q : Question) :
    let answer := k.answer (loaded s.supervisor.program g q.assembly) q
    (post program g q.command q.arguments).runFrom s =
      (.ok c.nextId, s.exchange g (q.line c.nextId)
        (program.react s.supervisor.program g (q.line c.nextId)).2
        ((c.register q.command q.arguments).2.settle c.nextId (.ok ⟨c.nextId, answer⟩))) := by
  intro answer
  have hg : c.generation = g := (Link.mem_of_channel h.channel).2
  have hr : s.refusal? g q.command = none := by
    have hgen : s.generation = g := h.child.current.symm
    simp [refusal?, h.channel, Channel.refusal?, h.isOpen, hg, hgen, h.child.isRunning]
  obtain ⟨he, hreply⟩ := hp.answers s.supervisor.program g c.nextId q hid
  have hattends :=
    (h.attends hs).update ((hs.link.channel h.channel).register q.command q.arguments)
    (c.register_ages q.command q.arguments)
  have hline := Supervisor.Serves.sendLine (s := (s.enlist g c q.command q.arguments).supervisor)
    (h.child.of_children rfl rfl rfl) hattends
    (Channel.waiting_register h.idle _ _) he hreply
  rw [Question.line] at hline ⊢
  rw [post_run program h.channel hr, hline]
  have hupdate := Link.update_update s.link (c := (c.register q.command q.arguments).2) hg
    fun _ => (c.register q.command q.arguments).2.settle c.nextId (.ok ⟨c.nextId, answer⟩)
  simp only [settlePost, Session.exchange, ← hupdate]
  rfl

/-- A question that is asked while the engine serves gets the answer of the catalogue. -/
theorem Serving.send (h : s.Serving g c) (hs : s.Sound) (hp : program.IsSteady k loaded limit)
    (hid : c.nextId ≤ limit) (q : Question) :
    let answer := k.answer (loaded s.supervisor.program g q.assembly) q
    (send program g q.command q.arguments).runFrom s =
      (.ok answer, s.exchange g (q.line c.nextId)
        (program.react s.supervisor.program g (q.line c.nextId)).2 (c.served answer)) := by
  intro answer
  have hg : c.generation = g := (Link.mem_of_channel h.channel).2
  unfold Session.send
  rw [Attempt.runFrom_bind_ok (h.post hs hp hid q)]
  generalize hc' :
    (c.register q.command q.arguments).2.settle c.nextId (.ok ⟨c.nextId, answer⟩) = c'
  have hg' : c'.generation = g := by rw [← hc']; exact hg
  have hchannel : (s.exchange g (q.line c.nextId)
      (program.react s.supervisor.program g (q.line c.nextId)).2 c').link.channel? g = some c' := by
    have := Link.channel?_update s.link (g := g) (f := fun _ => c') (fun _ _ _ => hg') g
    rwa [if_pos rfl, h.channel] at this
  have hsettled : c'.settlement? c.nextId = some (.ok ⟨c.nextId, answer⟩) := by
    simp [← hc', Channel.settle, Channel.settlement?]
  have hforget : c'.forget c.nextId = c.served answer := by
    rw [← hc', Channel.forget_settle_register h.idle]
  rw [collect_run hchannel, exchange_update hg']
  simp only [Channel.await, hsettled, Except.map, hforget]

/-! ## Starting anew -/

/-- A session whose engine has a command and has accepted what is remembered. -/
structure Equipped (k : Catalogue) (s : Session σ) : Prop where
  sound : s.Sound
  command : ∃ word words, s.supervisor.options.command = some (word :: words)
  accepted : ∀ p ∈ s.loadedAssemblies, k.Accepts p

theorem Equipped.moves (h : s.Equipped k) (hm : s.Moves t) : t.Equipped k where
  sound := hm.sound
  command := hm.ages.options ▸ h.command
  accepted p hp := h.accepted p (hm.loadedAssemblies ▸ hp)

theorem launch_steady (hp : program.IsSteady k loaded limit) (h : s.Equipped k) :
    ∃ c t, (launch program).runFrom s = (.ok c, t) ∧ s.Moves t ∧ t.Serving c.generation c ∧
      c.nextId = 1 := by
  obtain ⟨h₁, hn, hr⟩ := h.sound.teardown "engine restarting"
  obtain ⟨hm, -⟩ := h.sound.launch program
  rw [launch_run] at hm ⊢
  generalize hready : (s.teardown "engine restarting").setState .starting = ready at hm ⊢
  have h₂ : s.Moves ready := hready ▸ h₁.trans (h₁.sound.setState .starting)
  have hn : ready.link.installed = none := hready ▸ hn
  have hr : ready.supervisor.isRunning = false := hready ▸ hr
  have hstop := Supervisor.stop_ages Link.listener_respects ready.supervisor
  obtain ⟨word, words, hcommand⟩ := (h.moves h₂).command
  obtain ⟨temper, printed, hl, hg⟩ := hp.starts (ready.supervisor.stop Link.listener).program
  obtain ⟨g, u, hspawn, hserves⟩ := Supervisor.spawn_steady (hstop.options ▸ hcommand) hl hg
    ((hstop.owner h₂.sound.link).frame.installed.trans hn) (hstop.ended h₂.sound.ended)
  have hstart : (Supervisor.start program Link.listener).runFrom ready.supervisor = (.ok g, u) := by
    simp only [Attempt.runFrom, ExceptT.run, Supervisor.start, hr, Bool.false_eq_true, if_false]
    exact hspawn
  rw [hstart] at hm ⊢
  refine ⟨_, _, rfl, hm, ⟨hserves.of_children rfl rfl rfl, rfl, ?_, rfl, rfl⟩, rfl⟩
  exact hm.sound.link.channel_of_mem (List.mem_append_right _ (List.mem_singleton_self _))

/-- A reload loads all that is to be loaded. -/
theorem reload_steady (hp : program.IsSteady k loaded limit) (paths : List String) :
    ∀ {s : Session σ} {c : Channel}, s.Sound → s.Serving g c → (∀ p ∈ paths, k.Accepts p) →
      c.nextId + paths.length ≤ limit + 1 →
      ∃ t c', (reload program g paths).runFrom s = (.ok (), t) ∧ s.Moves t ∧ t.Serving g c' ∧
        c'.nextId = c.nextId + paths.length ∧
        ∀ p, p ∈ paths ∨ loaded s.supervisor.program g p = true →
          loaded t.supervisor.program g p = true := by
  induction paths with
  | nil =>
    intro s c hs h _ _
    exact ⟨s, c, rfl, hs.refl, h, rfl, fun p hp => hp.resolve_left (by simp)⟩
  | cons path rest ih =>
    intro s c hs h ha hlimit
    rw [List.length_cons] at hlimit
    have hid : c.nextId ≤ limit := by omega
    obtain ⟨body, hbody⟩ := ha path List.mem_cons_self
    have hsend := h.send hs hp hid (.load path)
    dsimp only [Catalogue.answer, Question.command, Question.arguments] at hsend
    rw [hbody] at hsend
    have hserved := (hs.link.channel h.channel).served h.idle (.success body)
    have hm := hs.exchange h ((Question.load path).line c.nextId)
      (program.react s.supervisor.program g ((Question.load path).line c.nextId)).2
      hserved.1 hserved.2
    obtain ⟨t, c', hrun, hm', ht, hnext, hloaded⟩ := ih hm.sound (h.exchange _ _ (.success body))
      (fun p hp => ha p (List.mem_cons_of_mem _ hp))
      (by rw [Channel.nextId_served]; omega)
    refine ⟨t, c', ?_, hm.trans hm', ht, ?_, fun p hmem => hloaded p ?_⟩
    · rw [reload_cons, hsend]
      exact hrun
    · rw [hnext, List.length_cons, Channel.nextId_served]
      omega
    · rw [List.mem_cons] at hmem
      obtain (rfl | hmem) | hold := hmem
      · exact .inr (hp.takes _ g _ p hid ⟨body, hbody⟩)
      · exact .inl hmem
      · exact .inr (hp.keeps _ g _ _ p hid hold)

/-- The engine serves, has been sent so many requests at most, and has loaded certain assemblies. -/
def Attended (loaded : σ → Nat → String → Bool) (n : Nat) (paths : List String) (s : Session σ) :
    Prop :=
  ∃ g c, s.Serving g c ∧ c.nextId ≤ n + 1 ∧ ∀ p ∈ paths, loaded s.supervisor.program g p = true

theorem relaunch_steady (hp : program.IsSteady k loaded limit) (h : s.Equipped k) {n : Nat}
    (hfew : s.loadedAssemblies.length ≤ n) (hn : n ≤ limit) :
    ∃ t, (relaunch program).runFrom s = (.ok (), t) ∧ s.Moves t ∧
      t.Attended loaded n s.loadedAssemblies := by
  obtain ⟨c, t, hlaunch, hm, hserving, hnext⟩ := launch_steady hp h
  obtain ⟨u, c', hreload, hm', hserving', hnext', hloaded⟩ :=
    reload_steady hp t.loadedAssemblies hm.sound hserving (h.moves hm).accepted
      (by rw [hm.loadedAssemblies, hnext]; omega)
  refine ⟨u, ?_, hm.trans hm', c.generation, c', hserving', ?_, fun p hmem => hloaded p (.inl ?_)⟩
  · unfold relaunch
    rw [Attempt.runFrom_bind_ok hlaunch, Attempt.runFrom_bind_ok (Attempt.runFrom_get t)]
    exact hreload
  · rw [hnext', hnext, hm.loadedAssemblies]
    omega
  · rwa [hm.loadedAssemblies]

/-! ## Between requests -/

/-- What holds between requests, of which there have been so many at most: certain assemblies are
remembered, and the engine has gone, or it serves and has loaded them. -/
structure Poised (k : Catalogue) (loaded : σ → Nat → String → Bool) (n : Nat) (paths : List String)
    (s : Session σ) : Prop where
  equipped : s.Equipped k
  remembers : s.loadedAssemblies = paths
  few : paths.length ≤ n
  attended : s.isRunning.1 = true → s.Attended loaded n paths

variable {n : Nat} {paths : List String}

theorem Poised.moves (h : s.Poised k loaded n paths) (hm : s.Moves t)
    (ha : t.isRunning.1 = true → t.Attended loaded n paths) : t.Poised k loaded n paths :=
  ⟨h.equipped.moves hm, hm.loadedAssemblies.trans h.remembers, h.few, ha⟩

theorem isRunning_iff : s.isRunning.1 = true ↔
    (∃ c, s.link.installed? = some c ∧ c.isClosed = false) ∧ s.state = .running ∧
      s.supervisor.isRunning = true := by
  unfold Session.isRunning
  cases s.link.installed? with
  | none => simp
  | some c =>
    by_cases hs : s.state = .running <;> cases hc : c.isClosed <;>
      cases s.supervisor.isRunning <;> simp [hs, hc]

theorem isRunning_of_closed (hi : s.link.installed? = some c) (hc : c.isClosed = true) :
    ¬s.isRunning.1 = true := by
  rw [isRunning_iff]
  rintro ⟨⟨d, hd, hopen⟩, -⟩
  obtain rfl := Option.some.inj (hi.symm.trans hd)
  simp [hc] at hopen

theorem isRunning_of_ended (h : s.supervisor.isRunning = false) : ¬s.isRunning.1 = true := by
  rw [isRunning_iff, h]
  simp

/-- To ask whether the engine is running makes no difference. -/
theorem isRunning_snd (s : Session σ) :
    s.isRunning.1 = true ∧ s.isRunning.2 = s ∨
      s.isRunning.1 = false ∧ ¬s.isRunning.2.isRunning.1 = true := by
  have hsame : s.isRunning.2 = s ∨ s.supervisor.isRunning = false ∧
      s.isRunning.2 = s.mapLink (·.markCrashed s.generation none) := by
    unfold Session.isRunning
    split
    · exact .inl rfl
    · split
      · exact .inl rfl
      · split
        · exact .inl rfl
        · rename_i hr
          exact .inr ⟨by simpa using hr, rfl⟩
  cases hsame with
  | inl hsame =>
    rw [hsame]
    cases s.isRunning.1 with
    | true => exact .inl ⟨rfl, rfl⟩
    | false => exact .inr ⟨rfl, Bool.false_ne_true⟩
  | inr hmarked =>
    obtain ⟨hended, hmarked⟩ := hmarked
    rw [hmarked]
    exact .inr ⟨by simpa using isRunning_of_ended hended, isRunning_of_ended hended⟩

theorem Attended.of_trace (h : s.Attended loaded n paths) (trace : Option (List TraceRecord)) :
    ({ s with trace } : Session σ).Attended loaded n paths := by
  obtain ⟨g, c, hs, hrest⟩ := h
  exact ⟨g, c, ⟨hs.child, hs.installed, hs.channel, hs.isOpen, hs.idle⟩, hrest⟩

theorem Poised.of_trace (h : s.Poised k loaded n paths) (trace : Option (List TraceRecord)) :
    ({ s with trace } : Session σ).Poised k loaded n paths where
  equipped := ⟨h.equipped.sound.of_trace trace, h.equipped.command, h.equipped.accepted⟩
  remembers := h.remembers
  few := h.few
  attended hr := by
    rw [isRunning_iff] at hr
    exact (h.attended (isRunning_iff.mpr hr)).of_trace trace

/-- How an attempt ends: with a certain result and in a session of a certain kind. -/
def Ends {α : Type} (a : Attempt (Session σ) α) (s : Session σ) (r : Except Failure α)
    (P : Session σ → Prop) : Prop :=
  ∃ t, a.runFrom s = (r, t) ∧ P t

theorem Ends.bind {α β : Type} {a : Attempt (Session σ) α} {f : α → Attempt (Session σ) β} {v : α}
    {r : Except Failure β} {P Q : Session σ → Prop} (h : Ends a s (.ok v) P)
    (h' : ∀ t, P t → Ends (f v) t r Q) : Ends (a >>= f) s r Q := by
  obtain ⟨t, ha, ht⟩ := h
  obtain ⟨u, hf, hu⟩ := h' t ht
  exact ⟨u, (Attempt.runFrom_bind_ok ha f).trans hf, hu⟩

/-- What does not depend on the trace is the same for a traced attempt. -/
theorem Ends.traced {α : Type} {a : Attempt (Session σ) α} {r : Except Failure α}
    {P : Session σ → Prop} (h : ∀ trace, Ends a { s with trace } r P)
    (hP : ∀ t trace, P t → P { t with trace }) (op : TracedOperation) (arguments : List String)
    (shown : α → String) : Ends (traced op arguments shown a) s r P := by
  obtain ⟨trace, trace', hr⟩ := traced_run op arguments shown a s
  obtain ⟨t, ha, ht⟩ := h trace
  rw [ha] at hr
  exact ⟨_, hr, hP t trace' ht⟩

/-- Between requests, with the engine there. -/
structure Ready (k : Catalogue) (loaded : σ → Nat → String → Bool) (n : Nat) (paths : List String)
    (s : Session σ) : Prop where
  poised : s.Poised k loaded n paths
  attended : s.Attended loaded n paths

theorem Ready.of_trace (s : Session σ) (trace : Option (List TraceRecord))
    (h : s.Ready k loaded n paths) : ({ s with trace } : Session σ).Ready k loaded n paths :=
  ⟨h.poised.of_trace trace, h.attended.of_trace trace⟩

theorem Poised.status (h : s.Poised k loaded n paths) : s.isRunning.2.Poised k loaded n paths := by
  refine h.moves h.equipped.sound.isRunning.1 fun hr => ?_
  obtain ⟨hs, hsame⟩ | ⟨-, hs⟩ := s.isRunning_snd
  · rw [hsame]
    exact h.attended hs
  · exact absurd hr hs

section

variable (hp : program.IsSteady k loaded limit) (hn : n ≤ limit)
include hp hn

theorem Poised.relaunch (h : s.Poised k loaded n paths) :
    Ends (relaunch program) s (.ok ()) (Ready k loaded n paths) := by
  obtain ⟨t, hrun, hm, ha⟩ := relaunch_steady hp h.equipped (h.remembers ▸ h.few) hn
  rw [h.remembers] at ha
  exact ⟨t, hrun, h.moves hm fun _ => ha, ha⟩

theorem Poised.restart (h : s.Poised k loaded n paths) :
    Ends (restart program) s (.ok ()) (Ready k loaded n paths) :=
  .traced (fun trace => (h.of_trace trace).relaunch hp hn) Ready.of_trace _ _ _

theorem Poised.ensureRunning (h : s.Poised k loaded n paths) :
    Ends (ensureRunning program) s (.ok ()) (Ready k loaded n paths) := by
  refine .traced (fun trace => ?_) Ready.of_trace _ _ _
  have h := h.of_trace trace
  generalize ({ s with trace } : Session σ) = s at h ⊢
  refine Ends.bind (v := s.isRunning.1) (P := (· = s.isRunning.2)) ⟨_, rfl, rfl⟩ ?_
  rintro t rfl
  have hs := h.status
  obtain ⟨hr, hsame⟩ | ⟨hr, -⟩ := s.isRunning_snd
  · rw [hr, hsame]
    exact ⟨s, rfl, h, h.attended hr⟩
  · rw [hr]
    exact hs.relaunch hp hn

end

theorem Poised.stop (h : s.Poised k loaded n paths) :
    Ends stop s (.ok ()) (Poised k loaded n paths) := by
  refine .traced (fun trace => ?_) (fun _ trace h => h.of_trace trace) _ _ _
  have h := h.of_trace trace
  obtain ⟨hm, -, hr⟩ := h.equipped.sound.teardown "engine stopped"
  exact ⟨_, rfl, h.moves hm fun hr' => absurd hr' (isRunning_of_ended hr)⟩

/-- A child that goes, whichever it is, leaves the session poised. -/
theorem Poised.depart (h : s.Poised k loaded n paths) (g : Nat) {a : Act} (ha : a.IsDeparture) :
    ({ s with supervisor := s.supervisor.act Link.listener g a } : Session σ).Poised k loaded n
      paths := by
  have hturn := Supervisor.act_turn Link.listener g s.supervisor a
  have hs := h.equipped.sound
  refine h.moves (hs.onSupervisor (Supervisor.act_ages Link.listener_respects g _ a)
    (.inr hturn.frame.generation)).1 fun hr => ?_
  generalize ht : ({ s with supervisor := s.supervisor.act Link.listener g a } : Session σ) = t
    at hr ⊢
  have hlink : t.link = s.link ∨ ∃ c, t.link.installed? = some c ∧ c.isClosed = true := by
    obtain ho | ⟨code, ho⟩ := Supervisor.act_departure_owner Link.listener (s := s.supervisor)
      (g := g) ha
    · exact .inl (ht ▸ ho)
    · have ho : t.link = s.link.markCrashed g code := ht ▸ ho
      rw [ho]
      exact s.link.markCrashed_cases g code
  obtain hlink | ⟨c, hi, hc⟩ := hlink
  · have hu : t.supervisor = s.supervisor.act Link.listener g a := by rw [← ht]
    obtain ⟨hopen, hstate, hrunning⟩ := isRunning_iff.mp hr
    have hbefore : s.isRunning.1 = true := by
      rw [state, hlink] at hstate
      rw [hlink] at hopen
      exact isRunning_iff.mpr ⟨hopen, hstate, hturn.isRunning (hu ▸ hrunning)⟩
    obtain ⟨g', c, hserving, hnext, hloaded⟩ := h.attended hbefore
    refine ⟨g', c, ⟨?_, hlink ▸ hserving.installed, hlink ▸ hserving.channel, hserving.isOpen,
      hserving.idle⟩, hnext, ?_⟩
    · rw [hu] at hrunning ⊢
      exact hserving.child.depart Link.listener hs.ended ha hrunning
    · rw [hu, hturn.frame.program]
      exact hloaded
  · exact absurd hr (isRunning_of_closed hi hc)

/-! ## Requests -/

/-- What holds when a question has been answered; an assembly that could be loaded is loaded. -/
structure Informed (k : Catalogue) (loaded : σ → Nat → String → Bool) (n : Nat)
    (paths : List String) (q : Question) (s : Session σ) : Prop where
  equipped : s.Equipped k
  remembers : s.loadedAssemblies = paths
  attended : s.Attended loaded n paths
  taken : q = .load q.assembly → k.Accepts q.assembly → s.Attended loaded n (paths ++ [q.assembly])

theorem Informed.poised {q : Question} (h : s.Informed k loaded (n + 1) paths q)
    (hfew : paths.length ≤ n) : s.Poised k loaded (n + 1) paths :=
  ⟨h.equipped, h.remembers, Nat.le_succ_of_le hfew, fun _ => h.attended⟩

theorem accepts_of_loadResult {path : String} {m : Member}
    (h : loadResult path (k.load path) = .ok m) : k.Accepts path := by
  unfold Catalogue.Accepts
  cases hk : k.load path with
  | success body => exact ⟨body, rfl⟩
  | failure code message =>
    rw [hk] at h
    cases h

theorem Informed.remember {path : String} (h : s.Informed k loaded (n + 1) paths (.load path))
    (hfew : paths.length ≤ n) (hnew : path ∉ paths) (ha : k.Accepts path) (m : Member) :
    (s.remember path m).Poised k loaded (n + 1) (paths ++ [path]) where
  equipped := by
    refine ⟨(h.equipped.sound.mapLoaded (·.put path m)).1, h.equipped.command, fun p hmem => ?_⟩
    cases mem_remember.mp hmem with
    | inl hmem => exact h.equipped.accepted p hmem
    | inr he => exact he ▸ ha
  remembers := by
    have hkeys : (s.remember path m).loadedAssemblies =
        if path ∈ s.loadedAssemblies then s.loadedAssemblies else s.loadedAssemblies ++ [path] :=
      OrderedMap.keys_put s.link.loaded path m
    rw [hkeys, h.remembers, if_neg hnew]
  few := by
    rw [List.length_append, List.length_singleton]
    omega
  attended _ := by
    obtain ⟨g, c, hs, hrest⟩ := h.taken rfl ha
    exact ⟨g, c, ⟨hs.child.of_children rfl rfl rfl, hs.installed, hs.channel, hs.isOpen, hs.idle⟩,
      hrest⟩

section

variable (hp : program.IsSteady k loaded limit) (hn : n < limit)
include hp hn

theorem Ready.send (h : s.Ready k loaded n paths) (q : Question) :
    ∃ g held, s.link.installed = some g ∧ (q.assembly ∈ paths → held = true) ∧
      Ends (send program g q.command q.arguments) s (.ok (k.answer held q))
        (Informed k loaded (n + 1) paths q) := by
  obtain ⟨g, c, hserving, hnext, hloaded⟩ := h.attended
  have hs := h.poised.equipped.sound
  have hid : c.nextId ≤ limit := by omega
  obtain ⟨hc, ha⟩ := (hs.link.channel hserving.channel).served hserving.idle
    (k.answer (loaded s.supervisor.program g q.assembly) q)
  have hm := hs.exchange hserving (q.line c.nextId)
    (program.react s.supervisor.program g (q.line c.nextId)).2 hc ha
  have hkept : ∀ p ∈ paths,
      loaded (program.react s.supervisor.program g (q.line c.nextId)).2 g p = true :=
    fun p hmem => hp.keeps _ g _ q p hid (hloaded p hmem)
  refine ⟨g, _, hserving.installed, hloaded q.assembly, _, hserving.send hs hp hid q,
    h.poised.equipped.moves hm, hm.loadedAssemblies.trans h.poised.remembers, ?_, ?_⟩
  · exact ⟨g, _, hserving.exchange _ _ _, Nat.add_le_add_right hnext 1, hkept⟩
  · intro hq haccepts
    refine ⟨g, _, hserving.exchange _ _ _, Nat.add_le_add_right hnext 1, fun p hmem => ?_⟩
    rw [List.mem_append, List.mem_singleton] at hmem
    obtain hmem | rfl := hmem
    · exact hkept p hmem
    · rw [hq]
      exact hp.takes _ g _ _ hid haccepts

/-- A question is answered by an engine that has loaded what is remembered. -/
theorem Poised.request (h : s.Poised k loaded n paths) (q : Question) :
    ∃ held, (q.assembly ∈ paths → held = true) ∧
      Ends (request program q.command q.arguments) s (.ok (k.answer held q))
        (Informed k loaded (n + 1) paths q) := by
  obtain ⟨t, hensure, ht⟩ := h.ensureRunning hp (Nat.le_of_lt hn)
  obtain ⟨g, held, hi, hheld, u, hsend, hu⟩ := ht.send hp hn q
  refine ⟨held, hheld, u, ?_, hu⟩
  unfold Session.request
  rw [Attempt.runFrom_bind_ok hensure, Attempt.runFrom_bind_ok (Attempt.runFrom_get t), hi]
  dsimp only
  rw [Attempt.runFrom_bind_ok (Attempt.runFrom_outcome _ t), hsend]
  rfl

/-- A question about a remembered assembly is answered as by an engine that has loaded it. -/
theorem Poised.ask (h : s.Poised k loaded n paths) {q : Question} (hq : q.assembly ∈ paths)
    {α : Type} (read : Answer → Except Failure α) :
    Ends (do
        let answer ← Session.request program q.command q.arguments
        Attempt.ofExcept (read answer)) s (read (k.answer true q))
      (Poised k loaded (n + 1) paths) := by
  obtain ⟨held, hheld, hrequest⟩ := h.request hp hn q
  rw [hheld hq] at hrequest
  exact hrequest.bind fun t ht => ⟨t, rfl, ht.poised h.few⟩

theorem Poised.children (h : s.Poised k loaded n paths) {assembly : String}
    (ha : assembly ∈ paths) (key : String) :
    Ends (Session.children program key (some assembly)) s
      (childrenResult key (k.enumerate key assembly true)) (Poised k loaded (n + 1) paths) :=
  .traced (fun trace => (h.of_trace trace).ask hp hn (q := .enumerate key assembly) ha _)
    (fun _ trace h => h.of_trace trace) _ _ _

theorem Poised.decompile (h : s.Poised k loaded n paths) {assembly : String}
    (ha : assembly ∈ paths) (key : String) (l : Language) :
    Ends (Session.decompile program key (some (.text l.name)) (some assembly)) s
      (codeResult key (k.decompile key l assembly true)) (Poised k loaded (n + 1) paths) := by
  refine .traced (fun trace => ?_) (fun _ trace h => h.of_trace trace) _ _ _
  refine Ends.bind (P := Poised k loaded n paths) ⟨_, ?_, h.of_trace trace⟩ fun t ht =>
    ht.ask hp hn (q := .decompile key l assembly) ha _
  rw [Attempt.runFrom_ofExcept, languageOf_name]

/-- An assembly that is loaded is remembered. -/
theorem Poised.load (h : s.Poised k loaded n paths) {path : String} (hnew : path ∉ paths) :
    Ends (Session.load program path) s (loadResult path (k.load path)) (Poised k loaded (n + 1)
      (if (loadResult path (k.load path)).isOk then paths ++ [path] else paths)) := by
  refine .traced (fun trace => ?_) (fun _ trace h => h.of_trace trace) _ _ _
  obtain ⟨held, -, hrequest⟩ := (h.of_trace trace).request hp hn (.load path)
  refine hrequest.bind fun t ht => ?_
  have hanswer : k.answer held (.load path) = k.load path := rfl
  rw [hanswer]
  cases hres : loadResult path (k.load path) with
  | error f => exact ⟨t, rfl, ht.poised h.few⟩
  | ok m => exact ⟨t.remember path m, rfl, ht.remember h.few hnew (accepts_of_loadResult hres) m⟩

end

end Session

end AssemblyBrowser
