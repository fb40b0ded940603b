import AssemblyBrowser.Proofs.Engine.Settlement
import AssemblyBrowser.Engine.Session
/-!
Engines that can be relied on. A steady engine always starts and answers the requests of a tree, a
load as the path alone decides and any other request also as its process has loaded the assembly or
not. Between the answers it may print blank lines and events.

No line can carry an integer of thousands of digits, so no engine answers every id that there is; a
steady one answers the ids up to a limit.
-/
namespace AssemblyBrowser

/-- What a tree asks of an engine. -/
inductive Question
  | load (path : String)
  | enumerate (key assembly : String)
  | decompile (key : String) (language : Language) (assembly : String)
deriving DecidableEq, Repr

namespace Question

def command : Question → Command
  | .load _ => .load
  | .enumerate .. => .enumerate
  | .decompile .. => .decompile

def arguments : Question → Fields
  | .load path => Session.loadArguments path
  | .enumerate key assembly => Session.memberArguments key (some assembly)
  | .decompile key l assembly =>
    Session.memberArguments key (some assembly) ++ [("language", .text l.name)]

def assembly : Question → String
  | .load path => path
  | .enumerate _ assembly | .decompile _ _ assembly => assembly

/-- The line that is written for a question. -/
def line (q : Question) (id : Nat) : String := Request.encode ⟨id, q.command, q.arguments⟩

end Question

/-- The answers of an engine. -/
structure Catalogue where
  load : String → Answer
  enumerate : (key assembly : String) → (loaded : Bool) → Answer
  decompile : (key : String) → Language → (assembly : String) → (loaded : Bool) → Answer

namespace Catalogue

def answer (k : Catalogue) (loaded : Bool) : Question → Answer
  | .load path => k.load path
  | .enumerate key assembly => k.enumerate key assembly loaded
  | .decompile key l assembly => k.decompile key l assembly loaded

/-- Whether an assembly can be loaded. -/
def Accepts (k : Catalogue) (path : String) : Prop := ∃ body, k.load path = .success body

end Catalogue

/-- An act that decides nothing: a line that is blank or an event. -/
def Act.IsQuiet : Act → Prop
  | .print line => Text.trim line = "" ∨ Channel.readLine (Text.trim line) = .ok .event
  | .closeOutput | .exit _ => False

/-- Output that begins with a proper greeting. -/
inductive Greets : List Act → Prop
  | blank {line : String} {as : List Act} (h : Text.trim line = "") (hg : Greets as) :
    Greets (.print line :: as)
  | ready {line : String} {as : List Act}
    (h : Supervisor.greetingFault? (Text.trim line) = none) (hq : ∀ a ∈ as, a.IsQuiet) :
    Greets (.print line :: as)

/-- Output that answers one request. -/
inductive Replies (id : Nat) (answer : Answer) : List Act → Prop
  | quiet {a : Act} {as : List Act} (h : a.IsQuiet) (hr : Replies id answer as) :
    Replies id answer (a :: as)
  | reply {line : String} {as : List Act}
    (h : Channel.readLine (Text.trim line) = .ok (.response ⟨id, answer⟩))
    (hq : ∀ a ∈ as, a.IsQuiet) : Replies id answer (.print line :: as)

/-- An engine with the answers of a catalogue. `loaded` says of its state which assemblies the
process of a generation has loaded. -/
structure Program.IsSteady {σ : Type} (program : Program σ) (k : Catalogue)
    (loaded : σ → Nat → String → Bool) (limit : Nat) : Prop where
  starts : ∀ w, ∃ temper printed, (program.launch w).1 = .started temper printed ∧ Greets printed
  answers : ∀ w g id (q : Question), id ≤ limit →
    let r := (program.react w g (q.line id)).1
    r.error = none ∧ Replies id (k.answer (loaded w g q.assembly) q) r.acts
  keeps : ∀ w g id (q : Question) path, id ≤ limit → loaded w g path = true →
    loaded (program.react w g (q.line id)).2 g path = true
  takes : ∀ w g id path, id ≤ limit → k.Accepts path →
    loaded (program.react w g ((Question.load path).line id)).2 g path = true

/-! ## A child that has greeted -/

namespace Link

variable {l : Link} {g : Nat} {c : Channel}

theorem Sound.update_self (h : l.Sound) (hc : l.channel? g = some c) :
    l.update g (fun _ => c) = l := by
  have hsame : ∀ d ∈ l.channels, (if d.generation = g then c else d) = d := by
    intro d hd
    split
    · rename_i hg
      exact Option.some.inj (hc.symm.trans (hg ▸ h.channel_of_mem hd))
    · rfl
  have : l.channels.map (fun d => if d.generation = g then c else d) = l.channels := by
    rw [List.map_congr_left hsame, List.map_id']
  simp only [Link.update, this]

theorem update_update (l : Link) (hc : c.generation = g) (f : Channel → Channel) :
    (l.update g fun _ => c).update g f = l.update g fun _ => f c := by
  simp only [update, List.map_map]
  congr 1
  refine List.map_congr_left fun d _ => ?_
  by_cases hg : d.generation = g <;> simp [hg, hc]

end Link

/-- A child whose lines are reported. -/
structure Child.Speaks (c : Child) : Prop where
  reading : c.reading = true
  greeted : c.greeting.isSome = true

namespace Supervisor

variable {σ : Type} {s : Supervisor σ Link} {g : Nat}

/-- The channel of a child that speaks is installed. -/
structure Attends (s : Supervisor σ Link) (g : Nat) (c : Channel) : Prop where
  child : ∃ d, s.child? g = some d ∧ d.Speaks
  sound : s.owner.Sound
  installed : s.owner.installed = some g
  channel : s.owner.channel? g = some c

theorem act_blank {ρ : Type} (listener : Listener ρ) (s : Supervisor σ ρ) (g : Nat) {line : String}
    (h : Text.trim line = "") : s.act listener g (.print line) = s := by
  unfold act
  split
  · rfl
  · simp [hear, h]

/-- A line is reported as it is, without the blanks around it. -/
theorem act_print {ρ : Type} {listener : Listener ρ} {s : Supervisor σ ρ} {d : Child}
    (hd : s.child? g = some d) (hs : d.Speaks) {line : String} (h : Text.trim line ≠ "") {o : ρ}
    (ho : listener.heard s.owner g (Text.trim line) = some o) :
    s.act listener g (.print line) = { s with owner := o } := by
  obtain ⟨greeting, hg⟩ := Option.isSome_iff_exists.mp hs.greeted
  simp [act, hd, hs.reading, hear, h, hg, ho]

theorem readLine_empty :
    Channel.readLine "" = .ok (.malformed (.notJson "Expecting value") none) := by
  rfl

/-- A line that can be read does to the channel what its reading says. -/
theorem Attends.read {c : Channel} (h : s.Attends g c) {line : String} (hne : Text.trim line ≠ "")
    {reading : Channel.Reading} (hr : Channel.readLine (Text.trim line) = .ok reading) :
    s.act Link.listener g (.print line) =
      { s with owner := s.owner.update g fun _ => c.take (Text.trim line) reading } := by
  obtain ⟨d, hd, hs⟩ := h.child
  refine act_print hd hs hne ?_
  have hi : s.owner.installed? = some c := (Link.installed?_eq h.installed).trans h.channel
  simp [Link.listener, Link.hear, hi, (Link.mem_of_channel h.channel).2, Channel.handleLine, hr,
    Except.map]

theorem Attends.quiet {c : Channel} (h : s.Attends g c) {a : Act} (ha : a.IsQuiet) :
    s.act Link.listener g a = s := by
  cases a with
  | print line =>
    cases ha with
    | inl hb => exact act_blank _ s g hb
    | inr hr =>
      have hne : Text.trim line ≠ "" := fun e => by simp [e, readLine_empty] at hr
      rw [h.read hne hr, Channel.take, h.sound.update_self h.channel]
  | closeOutput => cases ha
  | exit code => cases ha

theorem Attends.all_quiet {c : Channel} (h : s.Attends g c) :
    ∀ as : List Act, (∀ a ∈ as, a.IsQuiet) → s.acts Link.listener g as = s
  | [], _ => rfl
  | a :: as, ha => by
    have hs := h.quiet (ha a List.mem_cons_self)
    have ih := h.all_quiet as fun b hb => ha b (List.mem_cons_of_mem _ hb)
    simp only [acts, List.foldl_cons, hs] at ih ⊢
    exact ih

/-- The channel of a child that speaks may be replaced by a later one. -/
theorem Attends.update {c c' : Channel} (h : s.Attends g c) (hc : c'.Sound) (ha : c.Ages c') :
    ({ s with owner := s.owner.update g fun _ => c' } : Supervisor σ Link).Attends g c' := by
  obtain ⟨hs, -, hf⟩ := h.sound.update (f := fun _ => c') fun d hd => by
    cases h.channel.symm.trans hd
    exact ⟨hc, ha⟩
  refine ⟨h.child, hs, hf.installed.trans h.installed, ?_⟩
  have hg : c'.generation = g := ha.generation.trans (Link.mem_of_channel h.channel).2
  rw [Link.channel?_update _ (fun _ _ _ => hg), if_pos rfl, h.channel, Option.map_some]

/-- Output that answers a request settles it, and does nothing else. -/
theorem Attends.replies {c : Channel} (h : s.Attends g c) {id : Nat} {command : Command}
    (hw : c.waiting? id = some (id, command)) {answer : Answer} {as : List Act}
    (hr : Replies id answer as) : s.acts Link.listener g as =
      { s with owner := s.owner.update g fun _ => c.settle id (.ok ⟨id, answer⟩) } := by
  induction hr with
  | quiet ha _ ih =>
    rw [acts, List.foldl_cons, h.quiet ha]
    exact ih
  | reply hline hq =>
    rename_i line as
    have hne : Text.trim line ≠ "" := fun e => by simp [e, readLine_empty] at hline
    obtain ⟨hs, ha⟩ := (h.sound.channel h.channel).respond (Channel.waiting_mem hw).1 answer
    rw [acts, List.foldl_cons, h.read hne hline]
    simp only [Channel.take, hw]
    exact (h.update hs ha).all_quiet as hq

/-! ## A new child -/

/-- Nobody listens while no channel is installed. -/
theorem all_quiet_of_none (hi : s.owner.installed = none) {d : Child} (hd : s.child? g = some d)
    (hs : d.Speaks) : ∀ as : List Act, (∀ a ∈ as, a.IsQuiet) → s.acts Link.listener g as = s
  | [], _ => rfl
  | a :: as, ha => by
    have hact : s.act Link.listener g a = s := by
      cases a with
      | print line =>
        by_cases hb : Text.trim line = ""
        · exact act_blank _ s g hb
        · have ho : Link.listener.heard s.owner g (Text.trim line) = some s.owner := by
            simp [Link.listener, Link.hear, Link.installed?, hi]
          exact act_print hd hs hb ho
      | closeOutput => cases ha _ List.mem_cons_self
      | exit code => cases ha _ List.mem_cons_self
    have ih := all_quiet_of_none hi hd hs as fun b hb => ha b (List.mem_cons_of_mem _ hb)
    simp only [acts, List.foldl_cons, hact] at ih ⊢
    exact ih

theorem greetingFault_empty : greetingFault? "" = some (.invalid (.notJson "Expecting value")) := by
  rfl

/-- Of the output of a new child only the greeting is kept. -/
theorem acts_greets (hi : s.owner.installed = none) {d : Child} (hd : s.child? g = some d)
    (hr : d.reading = true) (hn : d.greeting = none) {as : List Act} (h : Greets as) :
    ∃ line, greetingFault? line = none ∧
      s.acts Link.listener g as = s.setChild g { d with greeting := some line } := by
  induction h with
  | blank hb _ ih =>
    obtain ⟨line, hf, ih⟩ := ih
    refine ⟨line, hf, ?_⟩
    rw [acts, List.foldl_cons, act_blank _ s g hb]
    exact ih
  | ready hf hq =>
    rename_i line as
    refine ⟨Text.trim line, hf, ?_⟩
    have hne : Text.trim line ≠ "" := fun e => by simp [e, greetingFault_empty] at hf
    have hact : s.act Link.listener g (.print line) =
        s.setChild g { d with greeting := some (Text.trim line) } := by
      simp [act, hd, hr, hear, hne, hn]
    rw [acts, List.foldl_cons, hact]
    have hspeaks : ({ d with greeting := some (Text.trim line) } : Child).Speaks := ⟨hr, rfl⟩
    exact all_quiet_of_none (s := s.setChild g _) hi (child?_setChild hd _) hspeaks as hq

/-- A child that is held, lives, speaks, and whose output has not ended. -/
structure Serves {ρ : Type} (s : Supervisor σ ρ) (g : Nat) : Prop where
  held : s.held = some g
  current : g = s.generation
  child : ∃ d, s.child? g = some d ∧ d.Speaks ∧ d.isAlive = true
  ended : s.endedGeneration ≠ g

theorem Serves.of_children {ρ : Type} {s t : Supervisor σ ρ} (h : s.Serves g)
    (hh : t.held = s.held) (hc : t.children = s.children)
    (he : t.endedGeneration = s.endedGeneration) : t.Serves g where
  held := hh.trans h.held
  current := by rw [h.current, generation, generation, hc]
  child := by rw [child?_congr hc]; exact h.child
  ended := he ▸ h.ended

theorem Serves.isRunning (h : s.Serves g) : s.isRunning = true := by
  obtain ⟨d, hd, -, ha⟩ := h.child
  simp [Supervisor.isRunning, heldChild?, h.held, hd, ha, ← h.current, h.ended]

theorem hatch_of_started {ρ : Type} {program : Program σ} {s : Supervisor σ ρ} {word : String}
    {words : List String} (hc : s.options.command = some (word :: words)) {temper : Temper}
    {printed : List Act} (hl : (program.launch s.program).1 = .started temper printed) :
    ∃ t, hatch? program s = some (t, printed) := by
  cases hlaunch : program.launch s.program with
  | mk launch w =>
    rw [hlaunch] at hl
    obtain rfl : launch = .started temper printed := hl
    simp only [hatch?, hc, record, hlaunch, Option.some.injEq, Prod.mk.injEq, and_true,
      exists_eq']

theorem spawn_steady {program : Program σ} {word : String} {words : List String}
    (hc : s.options.command = some (word :: words)) {temper : Temper} {printed : List Act}
    (hl : (program.launch s.program).1 = .started temper printed) (hg : Greets printed)
    (hi : s.owner.installed = none) (he : s.endedGeneration ≤ s.generation) :
    ∃ g t, s.spawn program Link.listener = (.ok g, t) ∧ t.Serves g := by
  obtain ⟨u, hh⟩ := hatch_of_started hc hl
  have hu := hatched_of_hatch program hh
  obtain ⟨c, hchild, hnew, -⟩ := hu.child
  obtain ⟨line, hf, hacts⟩ :=
    acts_greets (s := u) (hu.owner ▸ hi) hchild hnew.reading hnew.greeting hg
  obtain ⟨d, hd, hspawn⟩ := spawn_of_hatch program Link.listener hh
  rw [hacts] at hd hspawn
  have hgreeted := child?_setChild hchild { c with greeting := some line }
  obtain rfl := Option.some.inj (hgreeted.symm.trans hd)
  refine ⟨u.generation, { u.setChild u.generation { c with greeting := some line } with
    held := some u.generation }, hspawn.trans ?_, rfl, ?_, ?_, ?_⟩
  · simp only [greet, hf]
  · exact (setChild_frame u u.generation _).generation.symm
  · exact ⟨_, hgreeted, ⟨hnew.reading, rfl⟩, hnew.alive⟩
  · have hlt : u.endedGeneration < u.generation := by
      rw [hu.ended, hu.generation]
      omega
    exact Nat.ne_of_lt hlt

/-! ## A child that goes -/

/-- A supervisor that has a running child now had it running before the child of a generation
acted. -/
theorem Turn.isRunning {ρ : Type} {s t : Supervisor σ ρ} (h : Turn g s t)
    (hr : t.isRunning = true) : s.isRunning = true := by
  unfold Supervisor.isRunning heldChild? at hr ⊢
  rw [h.frame.held] at hr
  cases hheld : s.held with
  | none => simp [hheld] at hr
  | some g' =>
    cases hd : t.child? g' with
    | none => simp [hheld, hd] at hr
    | some d =>
      obtain ⟨c, hc, hcd⟩ := h.wanes.back hd
      simp only [hheld, Option.bind_some, hd, Bool.and_eq_true, decide_eq_true_eq] at hr
      simp only [Option.bind_some, hc, Bool.and_eq_true, decide_eq_true_eq]
      have hended := h.ended
      have hgen := h.frame.generation
      exact ⟨by omega, hcd.alive hr.2⟩

end Supervisor

/-- An act by which a child is done with its output. -/
def Act.IsDeparture : Act → Prop
  | .closeOutput | .exit _ => True
  | .print _ => False

namespace Supervisor

variable {σ ρ : Type} (listener : Listener ρ) {s : Supervisor σ ρ} {g : Nat} {a : Act}

theorem act_departure_owner (ha : a.IsDeparture) :
    (s.act listener g a).owner = s.owner ∨
      ∃ code, (s.act listener g a).owner = listener.ended s.owner g code := by
  unfold act
  split
  · exact .inl rfl
  · cases a with
    | print line => cases ha
    | closeOutput =>
      dsimp only
      split
      · exact .inr ⟨_, rfl⟩
      · exact .inl rfl
    | exit code =>
      dsimp only
      split
      · exact .inr ⟨_, rfl⟩
      · exact .inl rfl

theorem act_departure_ended (ha : a.IsDeparture) {d : Child} (hd : s.child? g = some d)
    (hr : d.reading = true) :
    (s.act listener g a).endedGeneration = max s.endedGeneration g := by
  cases a with
  | print line => cases ha
  | closeOutput => simp [act, hd, hr, endOutput, setChild]
  | exit code => simp [act, hd, hr, endOutput, setChild]

/-- A child serves as before when another one goes. -/
theorem Serves.depart (h : s.Serves g) (he : s.endedGeneration ≤ s.generation) {g' : Nat}
    (ha : a.IsDeparture) (hr : (s.act listener g' a).isRunning = true) :
    (s.act listener g' a).Serves g := by
  have hturn := act_turn listener g' s a
  obtain ⟨d, hd, hs, halive⟩ := h.child
  have hne : g ≠ g' := by
    rintro rfl
    have hended := act_departure_ended listener ha hd hs.reading
    rw [← h.current] at he
    rw [Nat.max_eq_right he] at hended
    have hgen := hturn.frame.generation
    unfold Supervisor.isRunning at hr
    split at hr
    · cases hr
    · simp [hended, hgen, ← h.current] at hr
  refine ⟨hturn.frame.held.trans h.held, h.current.trans hturn.frame.generation.symm,
    ⟨d, (hturn.others g hne).trans hd, hs, halive⟩, ?_⟩
  have hcurrent := h.current
  have hold := h.ended
  have hended := hturn.ended
  omega

end Supervisor

end AssemblyBrowser
