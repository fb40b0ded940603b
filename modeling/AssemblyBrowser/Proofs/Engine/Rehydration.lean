import AssemblyBrowser.Proofs.Engine.Resting
/-!
What a new engine is asked to load. Main statement: after a start the assemblies that a session
remembers are loaded again in their order, each once and nothing else in between, as the requests 1,
2 and so on, until one of them fails; those that the new engine has answered by then are remembered
if it has accepted them, and those that are left are remembered as they were.
-/
namespace AssemblyBrowser

/-! ## What is written -/

namespace Supervisor

variable {σ ρ : Type} {s t u : Supervisor σ ρ}

/-- From one state to a later one, these lines are written to these generations and no others. -/
def Writes (s t : Supervisor σ ρ) (ws : List (Nat × String)) : Prop :=
  ∃ events, t.log = s.log ++ events ∧ events.filterMap ProcessEvent.write? = ws

theorem Writes.of_log (h : t.log = s.log) : s.Writes t [] := ⟨[], by rw [h, List.append_nil], rfl⟩

theorem Writes.trans {ws ws' : List (Nat × String)} (h : s.Writes t ws) (h' : t.Writes u ws') :
    s.Writes u (ws ++ ws') := by
  obtain ⟨es, hs, rfl⟩ := h
  obtain ⟨es', ht, rfl⟩ := h'
  exact ⟨es ++ es', by rw [ht, hs, List.append_assoc], List.filterMap_append⟩

theorem Writes.then_none {ws : List (Nat × String)} (h : s.Writes t ws) (h' : t.Writes u []) :
    s.Writes u ws := by
  have := h.trans h'
  rwa [List.append_nil] at this

theorem record_writes (s : Supervisor σ ρ) {e : ProcessEvent} (he : e.write? = none) :
    s.Writes (s.record e) [] := ⟨[e], rfl, by simp [he]⟩

section

variable (listener : Listener ρ)

/-- Nothing is written by stopping, nor by what children do. -/
theorem writes_keptByStop (s : Supervisor σ ρ) : KeptByStop listener (s.Writes · []) where
  act h g a := h.then_none (.of_log (act_turn listener g _ a).frame.log)
  record h _ he := h.then_none (record_writes _ he)
  letGo h := h.then_none (.of_log rfl)

variable (program : Program σ)

/-- Nothing is written by starting. -/
theorem writes_keptByStart (s : Supervisor σ ρ) : KeptByStart program listener (s.Writes · []) where
  toKeptByStop := writes_keptByStop listener s
  launch h := h.then_none (.of_log rfl)
  bear h _ _ _ := h.then_none (.of_log rfl)
  hold h _ _ _ := h.then_none (.of_log rfl)

/-- A line is written to the child that runs. -/
theorem sendLine_writes {g : Nat} (line : String) (hg : g = s.generation)
    (hr : s.isRunning = true) :
    s.Writes ((sendLine program listener g line).runFrom s).2 [(g, line)] := by
  have hrecord : s.Writes (s.record (.write g line)) [(g, line)] := ⟨[.write g line], rfl, rfl⟩
  rw [sendLine_run listener program line hg hr]
  exact hrecord.then_none ((writes_keptByStop listener _).acts (.of_log rfl) g _)

end

end Supervisor

namespace Session

variable {σ : Type} {s t u : Session σ}

theorem isRunning_writes (s : Session σ) : s.supervisor.Writes s.isRunning.2.supervisor [] := by
  refine .of_log ?_
  unfold Session.isRunning
  split
  · rfl
  · split
    · rfl
    · split <;> rfl

theorem teardown_writes (s : Session σ) (reason : String) :
    s.supervisor.Writes (s.teardown reason).supervisor [] := by
  have hclose : s.supervisor.Writes (s.closeChannel reason).supervisor [] := by
    refine .of_log ?_
    unfold closeChannel
    split <;> rfl
  have hteardown : s.teardown reason = (s.closeChannel reason).haltEngine := rfl
  rw [hteardown]
  refine hclose.trans ?_
  unfold haltEngine
  split
  · exact .of_log rfl
  · let t := ((s.closeChannel reason).setState .stopping).supervisor
    exact (Supervisor.writes_keptByStop Link.listener t).stop (.of_log rfl)

/-! ## Sending -/

section

variable (program : Program σ)

theorem started_writes (s : Session σ) :
    s.supervisor.Writes (started program s).2.supervisor [] :=
  (s.teardown_writes "engine restarting").trans
    ((Supervisor.writes_keptByStart Link.listener program (Watched.readied s).supervisor).start
      (.of_log rfl))

/-- The next request of a channel is registered and written, and no other. -/
structure Posts (g : Nat) (c : Channel) (command : Command) (arguments : Fields)
    (s t : Session σ) : Prop where
  stays : s.Stays t
  writes : s.supervisor.Writes t.supervisor [(g, Request.encode ⟨c.nextId, command, arguments⟩)]
  next : ∃ c', t.link.channel? g = some c' ∧ c'.nextId = c.nextId + 1

theorem Posts.forget {g : Nat} {c : Channel} {command : Command} {arguments : Fields}
    (h : s.Posts g c command arguments t) (id : Nat) :
    s.Posts g c command arguments (t.mapLink fun l => l.update g (·.forget id)) := by
  have hsound := h.stays.moves.sound
  refine ⟨h.stays.trans ⟨hsound.forget g id, rfl, rfl⟩, h.writes, ?_⟩
  obtain ⟨c', hc', hn⟩ := h.next
  have hcount := hsound.link.keepsCount_update (g := g) (f := (·.forget id)) fun _ _ => ⟨rfl, rfl⟩
  obtain ⟨c'', hc'', hn'⟩ := hcount g c' hc'
  exact ⟨c'', hc'', hn'.trans hn⟩

theorem Sound.posts (h : s.Sound) {g : Nat} {c : Channel} (hc : s.link.channel? g = some c)
    {command : Command} (hr : s.refusal? g command = none) (arguments : Fields) :
    s.Posts g c command arguments ((Session.post program g command arguments).runFrom s).2 ∧
      ∀ id, ((Session.post program g command arguments).runFrom s).1 = .ok id →
        id = c.nextId := by
  obtain ⟨hg, hrunning⟩ := refusal_none hc hr
  have hstays := (h.post program g command arguments).1
  have hregistered : (s.enlist g c command arguments).link.channel? g =
      some (c.register command arguments).2 := by
    have hgen : ∀ d ∈ s.link.channels, d.generation = g →
        (c.register command arguments).2.generation = g := fun _ _ _ => (Link.mem_of_channel hc).2
    have hupdate := s.link.channel?_update hgen g
    rw [if_pos rfl, hc] at hupdate
    exact hupdate
  have hsound := (h.enlist hc command arguments).sound
  rw [post_run program hc hr] at hstays ⊢
  have hwrites := Supervisor.sendLine_writes Link.listener program
    (s := (s.enlist g c command arguments).supervisor)
    (Request.encode ⟨c.nextId, command, arguments⟩) hg hrunning
  have hcount := ((Supervisor.sendLine_ages Link.keepsCount_respects program
    (s.enlist g c command arguments).supervisor g
    (Request.encode ⟨c.nextId, command, arguments⟩)).owner hsound.link)
  generalize hsend : (Supervisor.sendLine program Link.listener g
    (Request.encode ⟨c.nextId, command, arguments⟩)).runFrom
      (s.enlist g c command arguments).supervisor = r at hstays hwrites hcount ⊢
  obtain ⟨c', hc', hn⟩ := hcount.2 g _ hregistered
  obtain ⟨res, u⟩ := r
  cases res with
  | ok _ =>
    refine ⟨⟨hstays, hwrites, c', hc', hn⟩, fun id hid => ?_⟩
    cases hid
    rfl
  | error f =>
    have hforget := hcount.1.sound.keepsCount_update (g := g) (f := (·.forget c.nextId))
      fun _ _ => ⟨rfl, rfl⟩
    obtain ⟨c'', hc'', hn'⟩ := hforget g c' hc'
    exact ⟨⟨hstays, hwrites, c'', hc'', hn'.trans hn⟩, fun id hid => by cases hid⟩

theorem send_refused {g : Nat} {command : Command} {e : EngineError}
    (hr : s.refusal? g command = some e) (arguments : Fields) :
    (Session.send program g command arguments).runFrom s = (.error (.engine e), s) := by
  have hpost : (Session.post program g command arguments).runFrom s = (.error (.engine e), s) := by
    simp only [Attempt.runFrom, ExceptT.run, Session.post, hr]
  rw [Session.send, Attempt.runFrom_bind, hpost]

/-- A request that is not refused is written, whatever becomes of it. -/
theorem Sound.sends (h : s.Sound) {g : Nat} {c : Channel} (hc : s.link.channel? g = some c)
    {command : Command} (hr : s.refusal? g command = none) (arguments : Fields) :
    s.Posts g c command arguments ((Session.send program g command arguments).runFrom s).2 ∧
      ∀ answer, ((Session.send program g command arguments).runFrom s).1 = .ok answer →
        ((Session.send program g command arguments).runFrom s).2.Answered g c.nextId answer := by
  obtain ⟨hposts, hid⟩ := h.posts program hc hr arguments
  unfold Session.send
  rw [Attempt.runFrom_bind]
  cases hpost : (Session.post program g command arguments).runFrom s with
  | mk r t =>
    rw [hpost] at hposts hid
    cases r with
    | error f => exact ⟨hposts, fun _ ha => by cases ha⟩
    | ok id =>
      obtain rfl := hid id rfl
      dsimp only
      obtain ⟨c', hc', -⟩ := hposts.next
      refine ⟨?_, fun answer ha => hposts.stays.moves.sound.collect_answered ha⟩
      rw [collect_run hc']
      exact hposts.forget c.nextId

/-! ## Loading again -/

def Answer.isSuccess : Answer → Bool
  | .success _ => true
  | .failure .. => false

/-- The assemblies of those that were answered which the engine has accepted. -/
def accepted (answered : List (String × Answer)) : List String :=
  (answered.filter fun e => Answer.isSuccess e.2).map Prod.fst

/-- The requests for assemblies, numbered from some number on. -/
def loads (g : Nat) : Nat → List String → List (Nat × String)
  | _, [] => []
  | k, path :: paths => (g, Request.encode ⟨k, .load, loadArguments path⟩) :: loads g (k + 1) paths

/-- Assemblies are loaded again into the engine of a generation, in order: first those that are
answered, then one of those that are left, if any, whose loading fails. -/
structure Rehydrates (g k : Nat) (kept : List String) (answered : List (String × Answer))
    (left : List String) (s : Session σ) (r : Except Failure Unit × Session σ) : Prop where
  ages : s.Ages r.2
  answers : ∀ i e, answered[i]? = some e → r.2.Answered g (k + i) e.2
  finished : left = [] → r.1 = .ok () ∧
    s.supervisor.Writes r.2.supervisor (loads g k (answered.map Prod.fst)) ∧
    r.2.loadedAssemblies = kept ++ accepted answered ∧ r.2.link.installed = some g
  failed : ∀ path rest, left = path :: rest → ∃ before f, r.1 = .error f ∧
    ((send program g .load (loadArguments path)).runFrom before).1 = .error f ∧
    s.supervisor.Writes before.supervisor (loads g k (answered.map Prod.fst)) ∧
    before.loadedAssemblies = kept ++ accepted answered ++ left ∧
    (before.refusal? g .load = none → s.supervisor.Writes r.2.supervisor
      (loads g k (answered.map Prod.fst ++ [path]))) ∧
    (before.refusal? g .load ≠ none → s.supervisor.Writes r.2.supervisor
      (loads g k (answered.map Prod.fst))) ∧
    (f.IsEngine → r.2.state = .stopped ∧ r.2.link.installed = none ∧
      r.2.loadedAssemblies = kept ++ accepted answered ++ left)

theorem accepted_cons (e : String × Answer) (answered : List (String × Answer)) :
    accepted (e :: answered) = accepted [e] ++ accepted answered := by
  simp only [accepted, List.filter_cons, List.filter_nil]
  split <;> simp

theorem Ages.answered (h : s.Ages t) {g id : Nat} {answer : Answer} (ha : s.Answered g id answer) :
    t.Answered g id answer := by
  obtain ⟨c, hc, hs⟩ := ha
  obtain ⟨c', hc', hage⟩ := h.link g c hc
  exact ⟨c', hc', hage.settled id _ hs⟩

variable {program} in
/-- One more assembly is answered before the others. -/
theorem Rehydrates.cons {g k : Nat} {kept : List String} {e : String × Answer}
    {answered : List (String × Answer)} {left : List String}
    {r : Except Failure Unit × Session σ} (hages : s.Ages t) (ha : t.Answered g k e.2)
    (hw : s.supervisor.Writes t.supervisor
      [(g, Request.encode ⟨k, .load, loadArguments e.1⟩)])
    (h : Rehydrates program g (k + 1) (kept ++ accepted [e]) answered left t r) :
    Rehydrates program g k kept (e :: answered) left s r := by
  have hsplit : kept ++ accepted [e] ++ accepted answered = kept ++ accepted (e :: answered) := by
    rw [accepted_cons e answered, List.append_assoc]
  refine ⟨hages.trans h.ages, fun i e' he' => ?_, fun hl => ?_, fun path rest hl => ?_⟩
  · cases i with
    | zero =>
      obtain rfl := Option.some.inj he'
      exact h.ages.answered ha
    | succ i =>
      have hlater := h.answers i e' he'
      rwa [Nat.add_assoc, Nat.add_comm 1 i] at hlater
  · obtain ⟨hok, hwrites, hloaded, hi⟩ := h.finished hl
    exact ⟨hok, hw.trans hwrites, hsplit ▸ hloaded, hi⟩
  · obtain ⟨before, f, herr, hsend, hbefore, hloaded, hwritten, hrefused, hend⟩ := h.failed path rest hl
    rw [hsplit] at hloaded hend
    exact ⟨before, f, herr, hsend, hw.trans hbefore, hloaded, fun hr => hw.trans (hwritten hr),
      fun hr => hw.trans (hrefused hr), hend⟩

/-- No assembly is answered: the loading of the first one fails. -/
theorem Rehydrates.first {g k : Nat} {kept rest : List String} {path : String} {f : Failure}
    {r : Except Failure Unit × Session σ} (hages : s.Ages r.2) (herr : r.1 = .error f)
    (hsend : ((Session.send program g .load (loadArguments path)).runFrom s).1 = .error f)
    (hloaded : s.loadedAssemblies = kept ++ path :: rest)
    (hwritten : s.refusal? g .load = none →
      s.supervisor.Writes r.2.supervisor (loads g k [path]))
    (hrefused : s.refusal? g .load ≠ none → s.supervisor.Writes r.2.supervisor [])
    (hend : f.IsEngine → r.2.state = .stopped ∧ r.2.link.installed = none ∧
      r.2.loadedAssemblies = s.loadedAssemblies) :
    Rehydrates program g k kept [] (path :: rest) s r := by
  have hsame : s.loadedAssemblies = kept ++ accepted [] ++ path :: rest := by
    rw [hloaded]
    simp [accepted]
  refine ⟨hages, fun i e he => (by cases he), fun hl => (by cases hl), fun path' rest' hl => ?_⟩
  cases hl
  exact ⟨s, f, herr, hsend, .of_log rfl, hsame, hwritten, hrefused, hsame ▸ hend⟩

theorem teardown_state (s : Session σ) (reason : String) : (s.teardown reason).state = .stopped := by
  have hteardown : s.teardown reason = (s.closeChannel reason).haltEngine := rfl
  rw [hteardown]
  unfold haltEngine
  split
  · rename_i hc
    simp only [Bool.and_eq_true, decide_eq_true_eq] at hc
    exact hc.1
  · rfl

theorem erase_middle {kept rest : List String} {path : String} (h : (kept ++ path :: rest).Nodup) :
    (kept ++ path :: rest).filter (fun p => p ≠ path) = kept ++ rest := by
  obtain ⟨-, hr, hd⟩ := List.nodup_append.mp h
  have hk : ∀ p ∈ kept, p ≠ path := fun p hp => hd p hp path List.mem_cons_self
  have hrest : ∀ p ∈ rest, p ≠ path := fun p hp he => (List.nodup_cons.mp hr).1 (he ▸ hp)
  rw [List.filter_append, List.filter_cons_of_neg (by simp),
    List.filter_eq_self.mpr (by simpa using hk), List.filter_eq_self.mpr (by simpa using hrest)]

theorem unload_loadedAssemblies {kept rest : List String} {path : String}
    (hloaded : s.loadedAssemblies = kept ++ path :: rest) :
    (s.unload path).loadedAssemblies = kept ++ rest := by
  have hnodup : s.link.loaded.keys.Nodup := s.link.loaded.nodup
  have herase := OrderedMap.keys_erase s.link.loaded path
  have hkeys : s.link.loaded.keys = kept ++ path :: rest := hloaded
  rw [hkeys] at hnodup herase
  exact herase.trans (erase_middle hnodup)

/-- Nothing is loaded again after a request that has failed. -/
theorem reload_cons_error {g : Nat} {path : String} {f : Failure} (rest : List String)
    (hsend : (Session.send program g .load (loadArguments path)).runFrom s = (.error f, t)) :
    (Session.reload program g (path :: rest)).runFrom s = Session.settleReload path (.error f) t := by
  rw [reload_cons, hsend]
  cases f <;> rfl

/-- A request for the first assembly is refused. -/
theorem Sound.rehydrates_refused (h : s.Sound) {g k : Nat} {kept rest : List String} {path : String}
    {e : EngineError} (hr : s.refusal? g .load = some e)
    (hloaded : s.loadedAssemblies = kept ++ path :: rest) :
    Rehydrates program g k kept [] (path :: rest) s
      (.error (.engine e), s.teardown reloadFailed) := by
  obtain ⟨hdown, hgone, -⟩ := h.teardown reloadFailed
  refine .first program hdown.ages rfl ?_ hloaded (fun hn => ?_)
    (fun _ => s.teardown_writes reloadFailed)
    fun _ => ⟨s.teardown_state reloadFailed, hgone, hdown.loadedAssemblies⟩
  · rw [send_refused program hr]
  · rw [hr] at hn
    cases hn

/-- A request for the first assembly is written, and there is no answer to it. -/
theorem Posts.rehydrates_error {g : Nat} {c : Channel} {kept rest : List String} {path : String}
    {f : Failure} (hposts : s.Posts g c .load (loadArguments path) t) (hr : s.refusal? g .load = none)
    (hsend : (Session.send program g .load (loadArguments path)).runFrom s = (.error f, t))
    (hloaded : s.loadedAssemblies = kept ++ path :: rest) :
    Rehydrates program g c.nextId kept [] (path :: rest) s
      (Session.settleReload path (.error f) t) := by
  have hmoves := hposts.stays.moves
  have hfails : ((Session.send program g .load (loadArguments path)).runFrom s).1 = .error f := by
    rw [hsend]
  cases f with
  | engine e =>
    obtain ⟨hdown, hgone, -⟩ := hmoves.sound.teardown reloadFailed
    refine .first program (f := .engine e) (hmoves.ages.trans hdown.ages) rfl hfails hloaded
      (fun _ => hposts.writes.then_none (t.teardown_writes reloadFailed)) (fun hn => absurd hr hn)
      fun _ => ?_
    exact ⟨t.teardown_state reloadFailed, hgone, hdown.loadedAssemblies.trans hmoves.loadedAssemblies⟩
  | _ =>
    refine .first program hmoves.ages rfl hfails hloaded (fun _ => hposts.writes)
      (fun hn => absurd hr hn) fun he => ?_
    obtain ⟨e, he⟩ := he
    cases he

/-- Induction on the assemblies that are to be loaded again; those before them are settled. -/
theorem Sound.rehydrates (g : Nat) (paths : List String) : ∀ {s : Session σ} {c : Channel}
    {kept : List String}, s.Sound → s.link.installed = some g → s.link.channel? g = some c →
    s.loadedAssemblies = kept ++ paths →
    ∃ answered left, paths = answered.map Prod.fst ++ left ∧
      Rehydrates program g c.nextId kept answered left s
        ((Session.reload program g paths).runFrom s) := by
  induction paths with
  | nil =>
    intro s c kept h hi _ hloaded
    refine ⟨[], [], rfl, .refl s, fun i e he => (by cases he), fun _ => ?_, fun _ _ hl => (by cases hl)⟩
    exact ⟨rfl, .of_log rfl, hloaded, hi⟩
  | cons path rest ih =>
    intro s c kept h hi hc hloaded
    cases hr : s.refusal? g .load with
    | some e =>
      rw [reload_cons_error program rest (send_refused program hr (loadArguments path))]
      exact ⟨[], path :: rest, rfl, h.rehydrates_refused program hr hloaded⟩
    | none =>
      obtain ⟨hposts, hanswered⟩ := h.sends program hc hr (loadArguments path)
      obtain ⟨c', hc', hn⟩ := hposts.next
      have hstays := hposts.stays
      cases hsend : (Session.send program g .load (loadArguments path)).runFrom s with
      | mk r t =>
        rw [hsend] at hposts hanswered hc' hstays
        cases r with
        | error f =>
          rw [reload_cons_error program rest hsend]
          exact ⟨[], path :: rest, rfl, hposts.rehydrates_error program hr hsend hloaded⟩
        | ok answer =>
          rw [reload_cons, hsend]
          have ha := hanswered answer rfl
          have hsame : t.loadedAssemblies = kept ++ path :: rest :=
            hstays.moves.loadedAssemblies.trans hloaded
          have hinstalled := hstays.installed.trans hi
          cases answer with
          | success body =>
            obtain ⟨answered, left, hpaths, hrest⟩ := ih hstays.moves.sound hinstalled hc'
              (hsame.trans (List.append_cons kept path rest))
            rw [hn] at hrest
            refine ⟨(path, .success body) :: answered, left, by rw [hpaths]; rfl, ?_⟩
            exact .cons hstays.moves.ages ha hposts.writes hrest
          | failure code message =>
            have hforget := hstays.moves.sound.mapLoaded (·.erase path)
            have hgone : (t.unload path).Sound := hforget.1
            obtain ⟨answered, left, hpaths, hrest⟩ :=
              ih hgone hinstalled hc' (unload_loadedAssemblies hsame)
            rw [hn] at hrest
            refine ⟨(path, .failure code message) :: answered, left, by rw [hpaths]; rfl, ?_⟩
            have hnone : kept ++ accepted [(path, Answer.failure code message)] = kept := by
              simp [accepted, Answer.isSuccess]
            refine .cons (t := t.unload path) (hstays.moves.ages.trans hforget.2)
              (hforget.2.answered ha) hposts.writes ?_
            rw [hnone]
            exact hrest

/-! ## From the start of an engine -/

variable {program} in
theorem Rehydrates.from_earlier {g k : Nat} {kept : List String}
    {answered : List (String × Answer)} {left : List String}
    {r : Except Failure Unit × Session σ} (hages : s.Ages t)
    (hw : s.supervisor.Writes t.supervisor [])
    (h : Rehydrates program g k kept answered left t r) :
    Rehydrates program g k kept answered left s r := by
  refine ⟨hages.trans h.ages, h.answers, fun hl => ?_, fun path rest hl => ?_⟩
  · obtain ⟨hok, hwrites, hrest⟩ := h.finished hl
    exact ⟨hok, hw.trans hwrites, hrest⟩
  · obtain ⟨before, f, herr, hsend, hbefore, hloaded, hwritten, hrefused, hend⟩ :=
      h.failed path rest hl
    exact ⟨before, f, herr, hsend, hw.trans hbefore, hloaded, fun hr => hw.trans (hwritten hr),
      fun hr => hw.trans (hrefused hr), hend⟩

variable {program} in
theorem Rehydrates.of_trace {g k : Nat} {kept : List String} {answered : List (String × Answer)}
    {left : List String} {r : Except Failure Unit × Session σ}
    (h : Rehydrates program g k kept answered left s r) (trace : Option (List TraceRecord)) :
    Rehydrates program g k kept answered left s (r.1, { r.2 with trace }) :=
  ⟨⟨h.ages.settings, h.ages.options, h.ages.log, h.ages.generation, h.ages.link⟩, h.answers,
    h.finished, h.failed⟩

theorem teardown_generation (s : Session σ) (reason : String) :
    (s.teardown reason).generation = s.generation := by
  have hclose : (s.closeChannel reason).generation = s.generation := by
    unfold closeChannel
    split <;> rfl
  have hteardown : s.teardown reason = (s.closeChannel reason).haltEngine := rfl
  rw [hteardown, ← hclose]
  unfold haltEngine
  split
  · rfl
  · exact (Supervisor.stop_wanes Link.listener
      ((s.closeChannel reason).setState .stopping).supervisor).generation

/-- The channel of a new engine numbers its requests from 1 on. -/
theorem Sound.started_channel (h : s.Sound) {g : Nat} (hg : (Session.started program s).1 = .ok g) :
    g = s.generation + 1 ∧ ∃ c t, (Session.launch program).runFrom s = (.ok c, t) ∧ c.generation = g ∧
      s.Moves t ∧ s.supervisor.Writes t.supervisor [] ∧ t.link.installed = some g ∧
      ∃ c', t.link.channel? g = some c' ∧ c'.nextId = 1 := by
  obtain ⟨hdown, -, hidle⟩ := h.teardown "engine restarting"
  have hlaunch := h.launch program
  have hwrites := s.started_writes program
  rw [launch_started, hg] at hlaunch
  rw [launch_started, hg]
  obtain ⟨hmoves, hi, -⟩ := hlaunch
  obtain ⟨hnew, hlater, -⟩ := Supervisor.start_ok Link.listener program
    (s := (Watched.readied s).supervisor) hidle (Prod.ext hg rfl)
  have hgen : (Watched.readied s).supervisor.generation = s.generation :=
    s.teardown_generation "engine restarting"
  rw [hgen] at hlater
  refine ⟨hnew.trans hlater, _, _, rfl, rfl, hmoves, hwrites, hi, ?_⟩
  have hsilent : (Session.started program s).2.link = (Watched.readied s).link := by
    obtain ⟨-, hnone, -⟩ := h.teardown "engine restarting"
    exact (Supervisor.start_ages Link.silent_respects program (Watched.readied s).supervisor).owner hnone
  have hfresh : (Session.started program s).2.link.channel? g = none := by
    cases hc : (Session.started program s).2.link.channel? g with
    | none => rfl
    | some d =>
      rw [hsilent] at hc
      have hle := (hdown.sound.channels g d hc).1
      rw [s.teardown_generation] at hle
      omega
  refine ⟨{ generation := g, timeout := (Session.started program s).2.settings.requestTimeout }, ?_, rfl⟩
  have hinstall := (Session.started program s).2.link.channel?_install
    { generation := g, timeout := (Session.started program s).2.settings.requestTimeout } g
  rw [hfresh, if_pos rfl] at hinstall
  exact hinstall

theorem Sound.relaunch_rehydrates (h : s.Sound) {g : Nat}
    (hg : (Session.started program s).1 = .ok g) :
    g = s.generation + 1 ∧ ∃ answered left, s.loadedAssemblies = answered.map Prod.fst ++ left ∧
      Rehydrates program g 1 [] answered left s ((relaunch program).runFrom s) := by
  obtain ⟨hnew, c, t, hlaunch, hc, hmoves, hwrites, hi, c', hc', hone⟩ := h.started_channel program hg
  refine ⟨hnew, ?_⟩
  have hloaded : t.loadedAssemblies = s.loadedAssemblies := hmoves.loadedAssemblies
  have hall : t.loadedAssemblies = [] ++ t.loadedAssemblies := rfl
  obtain ⟨answered, left, hpaths, hrest⟩ :=
    hmoves.sound.rehydrates program g t.loadedAssemblies hi hc' hall
  rw [hloaded, hone] at hrest
  refine ⟨answered, left, hloaded ▸ hpaths, ?_⟩
  rw [relaunch, Attempt.runFrom_bind_ok hlaunch, Attempt.runFrom_bind_ok (Attempt.runFrom_get t), hc,
    hloaded]
  exact hrest.from_earlier hmoves.ages hwrites

theorem started_trace (s : Session σ) (trace : Option (List TraceRecord)) :
    (started program { s with trace }).1 = (started program s).1 := by
  have hready : (Watched.readied { s with trace }).supervisor = (Watched.readied s).supervisor := by
    unfold Watched.readied
    rw [teardown_trace]
    rfl
  unfold started
  dsimp only
  rw [hready]

theorem Sound.restart_rehydrates (h : s.Sound) {g : Nat}
    (hg : (Session.started program s).1 = .ok g) :
    g = s.generation + 1 ∧ ∃ answered left, s.loadedAssemblies = answered.map Prod.fst ++ left ∧
      Rehydrates program g 1 [] answered left s ((restart program).runFrom s) := by
  obtain ⟨trace, trace', hr⟩ := traced_run .restart [] noValue (relaunch program) s
  obtain ⟨hnew, answered, left, hpaths, hrest⟩ :=
    (h.of_trace trace).relaunch_rehydrates program ((started_trace program s trace).trans hg)
  have hages : s.Ages { s with trace } :=
    ⟨rfl, rfl, List.prefix_refl _, Nat.le_refl _, .refl _⟩
  have hearlier := hrest.from_earlier hages (.of_log rfl)
  refine ⟨hnew, answered, left, hpaths, ?_⟩
  rw [restart, hr]
  exact hearlier.of_trace trace'

theorem isRunning_generation (s : Session σ) : s.isRunning.2.generation = s.generation := by
  unfold Session.isRunning
  split
  · rfl
  · split
    · rfl
    · split <;> rfl

theorem Sound.ensureRunning_rehydrates (h : s.Sound) (hstopped : s.isRunning.1 = false) {g : Nat}
    (hg : (Session.started program s.isRunning.2).1 = .ok g) :
    g = s.generation + 1 ∧ ∃ answered left, s.loadedAssemblies = answered.map Prod.fst ++ left ∧
      Rehydrates program g 1 [] answered left s ((ensureRunning program).runFrom s) := by
  obtain ⟨trace, trace', hr⟩ := traced_run .ensureRunning [] noValue (do
    if ← runningNow then return () else Session.relaunch program) s
  obtain ⟨hm, -⟩ := h.isRunning
  obtain ⟨hnew, answered, left, hpaths, hrest⟩ := (hm.sound.of_trace trace).relaunch_rehydrates program
    ((started_trace program s.isRunning.2 trace).trans hg)
  have hages : s.Ages { s.isRunning.2 with trace } :=
    ⟨hm.ages.settings, hm.ages.options, hm.ages.log, hm.ages.generation, hm.ages.link⟩
  have hearlier := hrest.from_earlier hages s.isRunning_writes
  refine ⟨hnew.trans (congrArg (· + 1) s.isRunning_generation), answered, left,
    hm.loadedAssemblies.symm.trans hpaths, ?_⟩
  have hnow : (runningNow : Attempt (Session σ) Bool).runFrom { s with trace } =
      (.ok false, { s.isRunning.2 with trace }) := by
    have htrace := isRunning_trace s trace
    rw [hstopped] at htrace
    simp only [Attempt.runFrom, ExceptT.run, runningNow, htrace]
  rw [ensureRunning, hr, Attempt.runFrom_bind_ok hnow]
  exact hearlier.of_trace trace'

/-- Whatever was done before: a restart, or the start of an engine where none is running, loads the
assemblies that are remembered into the new engine, provided that this engine has started. -/
theorem loaded_again_in_order (program : Program σ) (settings : EngineSettings)
    (locator : Option Locator) (environment : OrderedMap String String) (w : σ) (traced : Bool)
    (xs : List SessionStep) :
    let s := following program xs (.new settings locator environment w traced)
    (∀ g, (started program s).1 = .ok g →
      g = s.generation + 1 ∧ ∃ answered left, s.loadedAssemblies = answered.map Prod.fst ++ left ∧
        Rehydrates program g 1 [] answered left s ((restart program).runFrom s)) ∧
    (s.isRunning.1 = false → ∀ g, (started program s.isRunning.2).1 = .ok g →
      g = s.generation + 1 ∧ ∃ answered left, s.loadedAssemblies = answered.map Prod.fst ++ left ∧
        Rehydrates program g 1 [] answered left s ((ensureRunning program).runFrom s)) := by
  intro s
  have h : s.Sound := (sound_new settings locator environment w traced).following program xs
  constructor
  · intro g hg
    exact h.restart_rehydrates program hg
  · intro hstopped g hg
    exact h.ensureRunning_rehydrates program hstopped hg

end

/-! ## An engine that goes too soon -/

/-- Every process loads any assembly; every process but the first greets and ends. -/
def fleeting : Program Nat where
  launch n :=
    (.started {} (.print "\x7b\"event\": \"ready\"\x7d" :: if n = 0 then [] else [.exit 3]), n + 1)
  react n _ _ :=
    (⟨[.print ("\x7b\"id\":1,\"success\":true,\"body\":" ++
      "\x7b\"assembly\":\x7b\"key\":\"k\",\"name\":\"n\",\"kind\":\"assembly\"\x7d\x7d\x7d")], none⟩, n)

/-- What there is after one assembly has been loaded. -/
def rememberingSession : Session Nat :=
  following fleeting [.perform (.load "a.dll")] (.new plainSettings none ∅ 0 false)

/-- The same session, written out. -/
def writtenSession : Session Nat where
  settings := plainSettings
  locator := none
  supervisor :=
    { options := ⟨some ["engine"], 30, ∅⟩
      program := 1
      owner :=
        { state := .running
          channels := [{
            generation := 1, timeout := 60, nextId := 2
            settled := [(1, .ok ⟨1, .success [("assembly", .object
              [("key", .text "k"), ("name", .text "n"), ("kind", .text "assembly")])]⟩)] }]
          installed := some 1
          loaded := (∅ : OrderedMap String Member).put "a.dll" ⟨"k", "n", .assembly, none⟩ }
      children := [{ number := 1, temper := {}, greeting := some "\x7b\"event\": \"ready\"\x7d" }]
      held := some 1
      attempts := 1
      log := [.spawn ["engine"] ∅,
        .write 1 (Request.encode ⟨1, .load, loadArguments "a.dll"⟩)] }

theorem rememberingSession_eq : rememberingSession = writtenSession := by
  obtain ⟨h₁, h₂, h₃, h₄, h₅, h₆, h₇, h₈, h₉, h₁₀, h₁₁, h₁₂, h₁₃, h₁₄⟩ :
      rememberingSession.settings = writtenSession.settings ∧
      rememberingSession.locator = writtenSession.locator ∧
      rememberingSession.trace = writtenSession.trace ∧
      rememberingSession.supervisor.options = writtenSession.supervisor.options ∧
      rememberingSession.supervisor.program = writtenSession.supervisor.program ∧
      rememberingSession.link.state = writtenSession.link.state ∧
      rememberingSession.link.channels = writtenSession.link.channels ∧
      rememberingSession.link.installed = writtenSession.link.installed ∧
      rememberingSession.link.loaded = writtenSession.link.loaded ∧
      rememberingSession.supervisor.children = writtenSession.supervisor.children ∧
      rememberingSession.supervisor.held = writtenSession.supervisor.held ∧
      rememberingSession.supervisor.endedGeneration =
        writtenSession.supervisor.endedGeneration ∧
      rememberingSession.supervisor.attempts = writtenSession.supervisor.attempts ∧
      rememberingSession.supervisor.log = writtenSession.supervisor.log := by
    decide +kernel
  exact eq_of_parts h₁ h₂ h₃ h₄ h₅ h₆ h₇ h₈ h₉ h₁₀ h₁₁ h₁₂ h₁₃ h₁₄

theorem writtenSession_started : (started fleeting writtenSession).1 = .ok 2 := by
  have h : (started fleeting writtenSession).1.toOption = some 2 := by decide +kernel
  exact eq_ok_of_toOption h

theorem writtenSession_restarted :
    ((restart fleeting).runFrom writtenSession).2.supervisor.log =
      writtenSession.supervisor.log ++
        [.closeInput 1, .terminate 1, .spawn ["engine"] ∅] := by
  decide +kernel

/-- Nothing is written to an engine that has greeted and gone, though the first assembly is to be
loaded into it. -/
theorem first_load_not_always_written :
    ¬∀ xs : List SessionStep,
      let s := following fleeting xs (.new plainSettings none ∅ 0 false)
      let r := (restart fleeting).runFrom s
      ∀ g, (started fleeting s).1 = .ok g → ∃ k ≤ s.loadedAssemblies.length,
        s.supervisor.Writes r.2.supervisor (loads g 1 (s.loadedAssemblies.take k)) ∧
        (r.1 = .ok () → k = s.loadedAssemblies.length) ∧ ∀ f, r.1 = .error f → 0 < k := by
  intro h
  have hwritten := h [.perform (.load "a.dll")]
  dsimp only at hwritten
  rw [← rememberingSession, rememberingSession_eq] at hwritten
  have hone : writtenSession.loadedAssemblies = ["a.dll"] := rfl
  obtain ⟨k, hk, ⟨events, hlog, hevents⟩, hok, herr⟩ := hwritten 2 writtenSession_started
  rw [hone] at hk hok hevents
  have hlast : k = 1 := by
    cases hr : ((restart fleeting).runFrom writtenSession).1 with
    | ok v => exact hok hr
    | error f => exact Nat.le_antisymm hk (herr f hr)
  rw [writtenSession_restarted] at hlog
  rw [hlast, ← List.append_cancel_left hlog] at hevents
  cases hevents

theorem following_append {σ : Type} (program : Program σ) (xs ys : List SessionStep)
    (s : Session σ) : following program (xs ++ ys) s = following program ys (following program xs s) :=
  List.foldl_append

/-- What there is after the engine of `writtenSession` has ended of its own accord. -/
def leftSession : Session Nat := following fleeting [.happen 1 [.exit 0]] writtenSession

theorem leftSession_stopped :
    leftSession.isRunning.1 = false ∧
      (started fleeting leftSession.isRunning.2).1.toOption = some 2 := by
  decide +kernel

theorem leftSession_started : (started fleeting leftSession.isRunning.2).1 = .ok 2 :=
  eq_ok_of_toOption leftSession_stopped.2

/-- A restart, and the start of an engine after the one before has ended. -/
theorem loaded_again_in_order_fleeting :
    let s := following fleeting [.perform (.load "a.dll")] (.new plainSettings none ∅ 0 false)
    let t := following fleeting [.perform (.load "a.dll"), .happen 1 [.exit 0]]
      (.new plainSettings none ∅ 0 false)
    ((started fleeting s).1 = .ok 2 ∧ s.loadedAssemblies = ["a.dll"] ∧
      ∃ answered left, s.loadedAssemblies = answered.map Prod.fst ++ left ∧
        Rehydrates fleeting 2 1 [] answered left s ((restart fleeting).runFrom s)) ∧
    (t.isRunning.1 = false ∧ (started fleeting t.isRunning.2).1 = .ok 2 ∧
      t.loadedAssemblies = ["a.dll"] ∧
      ∃ answered left, t.loadedAssemblies = answered.map Prod.fst ++ left ∧
        Rehydrates fleeting 2 1 [] answered left t ((ensureRunning fleeting).runFrom t)) := by
  intro s t
  have hs : s = writtenSession := rememberingSession_eq
  have ht : t = leftSession := by
    have happ : t = following fleeting [.happen 1 [.exit 0]] s := following_append fleeting
      [.perform (.load "a.dll")] [.happen 1 [.exit 0]] (.new plainSettings none ∅ 0 false)
    rw [happ, hs]
    rfl
  have hg : (started fleeting s).1 = .ok 2 := hs ▸ writtenSession_started
  have hstopped : t.isRunning.1 = false := ht ▸ leftSession_stopped.1
  have hg' : (started fleeting t.isRunning.2).1 = .ok 2 := ht ▸ leftSession_started
  obtain ⟨-, hrestart⟩ := (loaded_again_in_order fleeting plainSettings none ∅ 0 false
    [.perform (.load "a.dll")]).1 2 hg
  obtain ⟨-, hensure⟩ := (loaded_again_in_order fleeting plainSettings none ∅ 0 false
    [.perform (.load "a.dll"), .happen 1 [.exit 0]]).2 hstopped 2 hg'
  exact ⟨⟨hg, hs ▸ rfl, hrestart⟩, hstopped, hg', ht ▸ rfl, hensure⟩

end Session

end AssemblyBrowser
