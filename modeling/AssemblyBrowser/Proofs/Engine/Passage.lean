import AssemblyBrowser.Proofs.Engine.Settlement
/-!
The history of what passes between a session and its children, and what it says of requests. Which
request a line is stands on the line, and it is the number of the lines written to that child so far;
the first line printed after it that is an answer with this number, or no message at all, decides it.
Main statement: no line decides two requests, and no request is decided by two lines.

A channel is accounted for if its requests are lines of the history and what has settled them is what
the history says; whatever a channel does with a line leaves it accounted for.
-/
namespace AssemblyBrowser

/-- What passes between a session and a child: a line is written to it, and it does something. -/
inductive Passage
  | wrote (generation : Nat) (line : String)
  | did (generation : Nat) (a : Act)
deriving DecidableEq, Repr

/-- The same program, which lays down besides what is written and how it reacts to it. -/
def Program.recorded {σ : Type} (program : Program σ) : Program (σ × List Passage) where
  launch w :=
    let (launch, state) := program.launch w.1
    (launch, (state, w.2))
  react w g line :=
    let (reaction, state) := program.react w.1 g line
    (reaction, (state, w.2 ++ .wrote g line :: reaction.acts.map (.did g)))

/-- What a reading of a line makes of a request with this id, if it decides it. -/
def Channel.Reading.verdict? (id : Nat) (command : Command) (line : String) :
    Channel.Reading → Option Settlement
  | .event => none
  | .response r => if r.id = id then some (.ok r) else none
  | .malformed e _ => some (.error (.malformed command.name e.message (some line)))

namespace Passage

/-- Whether a line is written to the child of this generation. -/
def isWrite (g : Nat) : Passage → Bool
  | .wrote g' _ => g' = g
  | .did .. => false

/-- How a passage settles a request of this generation, if it decides it. -/
def verdict? (g id : Nat) (command : Command) : Passage → Option Settlement
  | .did g' (.print line) =>
    if g' = g ∧ Text.trim line ≠ "" then
      match Channel.readLine (Text.trim line) with
      | .ok reading => reading.verdict? id command (Text.trim line)
      | .error _ => none
    else none
  | _ => none

theorem eq_print_of_verdict {g id : Nat} {command : Command} {p : Passage} {r : Settlement}
    (h : p.verdict? g id command = some r) :
    ∃ line reading, p = .did g (.print line) ∧ Text.trim line ≠ "" ∧
      Channel.readLine (Text.trim line) = .ok reading ∧
      reading.verdict? id command (Text.trim line) = some r := by
  unfold verdict? at h
  split at h
  · rename_i g' line
    split at h
    · rename_i hg
      obtain ⟨rfl, hne⟩ := hg
      cases hr : Channel.readLine (Text.trim line) with
      | error digits => simp [hr] at h
      | ok reading =>
        simp only [hr] at h
        exact ⟨line, reading, rfl, hne, hr, h⟩
    · cases h
  · cases h

theorem verdict_print {g id : Nat} {command : Command} {line : String} (hne : Text.trim line ≠ "")
    {reading : Channel.Reading} (hr : Channel.readLine (Text.trim line) = .ok reading) :
    (Passage.did g (.print line)).verdict? g id command =
      reading.verdict? id command (Text.trim line) := by
  simp [verdict?, hne, hr]

theorem verdict_other {g g' id : Nat} {command : Command} (h : g' ≠ g) (a : Act) :
    (Passage.did g' a).verdict? g id command = none := by
  cases a <;> simp [verdict?, h]

/-- What a line settles as an answer does not depend on what was asked. -/
theorem verdict_answer {g id : Nat} {command : Command} {p : Passage} {r : Response}
    (h : p.verdict? g id command = some (.ok r)) :
    ∃ line, p = .did g (.print line) ∧ Text.trim line ≠ "" ∧
      Channel.readLine (Text.trim line) = .ok (.response r) ∧ r.id = id := by
  obtain ⟨line, reading, rfl, hne, hr, hv⟩ := eq_print_of_verdict h
  cases reading with
  | event => cases hv
  | malformed e claimed => cases hv
  | response r' =>
    simp only [Channel.Reading.verdict?, Option.ite_none_right_eq_some, Option.some.injEq,
      Except.ok.injEq] at hv
    obtain ⟨hid, rfl⟩ := hv
    exact ⟨line, rfl, hne, hr, hid⟩

theorem verdict_none {g id : Nat} {command : Command} {p : Passage}
    (h : p.verdict? g id command = none) (command' : Command) :
    p.verdict? g id command' = none := by
  cases hv : p.verdict? g id command' with
  | none => rfl
  | some r =>
    obtain ⟨line, reading, rfl, hne, hr, hv⟩ := eq_print_of_verdict hv
    rw [verdict_print hne hr] at h
    cases reading with
    | event => cases hv
    | malformed e claimed => cases h
    | response r' =>
      simp only [Channel.Reading.verdict?] at h hv
      rw [h] at hv
      cases hv

end Passage

/-! ## Requests in a history -/

namespace History

variable {past more : List Passage} {g j k id : Nat} {command : Command} {arguments : Fields}
  {r : Settlement}

/-- How many lines have been written to a child. -/
def writes (past : List Passage) (g : Nat) : Nat := past.countP (Passage.isWrite g)

/-- At this place a request is written, with the number of the lines written so far as its id. -/
structure Asked (past : List Passage) (g j id : Nat) (command : Command) (arguments : Fields) :
    Prop where
  wrote : past[j]? = some (.wrote g (Request.encode ⟨id, command, arguments⟩))
  number : writes (past.take (j + 1)) g = id

/-- Between two places nothing is written to a child, and nothing it prints decides the request. -/
def Undecided (past : List Passage) (g id : Nat) (command : Command) (j k : Nat) : Prop :=
  ∀ m p, j < m → m < k → past[m]? = some p →
    p.isWrite g = false ∧ p.verdict? g id command = none

/-- The request that is written at one place is decided at another, and not before. -/
structure Decides (past : List Passage) (g j k id : Nat) (command : Command) (arguments : Fields)
    (r : Settlement) : Prop where
  asked : Asked past g j id command arguments
  later : j < k
  undecided : Undecided past g id command j k
  verdict : ∃ p, past[k]? = some p ∧ p.verdict? g id command = some r

theorem lt_length {p : Passage} (h : past[j]? = some p) : j < past.length :=
  (List.getElem?_eq_some_iff.mp h).1

theorem writes_append (past more : List Passage) (g : Nat) :
    writes (past ++ more) g = writes past g + writes more g := List.countP_append

theorem writes_eq_zero (h : ∀ p ∈ past, p.isWrite g = false) : writes past g = 0 := by
  rw [writes, List.countP_eq_zero]
  intro p hp
  simp [h p hp]

theorem writes_concat {p : Passage} (hw : p.isWrite g = false) :
    writes (past ++ [p]) g = writes past g := by
  have hnone : writes [p] g = 0 := writes_eq_zero fun q hq => by rw [List.mem_singleton.mp hq, hw]
  rw [writes_append, hnone, Nat.add_zero]

theorem writes_concat_wrote (past : List Passage) (g : Nat) (line : String) :
    writes (past ++ [.wrote g line]) g = writes past g + 1 := by
  simp [writes, Passage.isWrite]

namespace Asked

theorem append (h : Asked past g j id command arguments) (more : List Passage) :
    Asked (past ++ more) g j id command arguments := by
  have hj := lt_length h.wrote
  constructor
  · rw [List.getElem?_append_left hj]
    exact h.wrote
  · rw [List.take_append_of_le_length hj]
    exact h.number

/-- The last request has the number of all lines written. -/
theorem last (h : Asked past g j id command arguments)
    (hu : Undecided past g id command j past.length) : writes past g = id := by
  have hrest : writes (past.drop (j + 1)) g = 0 := by
    apply writes_eq_zero
    intro p hp
    obtain ⟨i, hi⟩ := List.getElem?_of_mem hp
    rw [List.getElem?_drop] at hi
    exact (hu (j + 1 + i) p (by omega) (lt_length hi) hi).1
  rw [← List.take_append_drop (j + 1) past, writes_append, h.number, hrest]
  rfl

/-- A later request has a greater number. -/
theorem number_lt {j' id' : Nat} {command' : Command} {arguments' : Fields}
    (h : Asked past g j id command arguments) (h' : Asked past g j' id' command' arguments')
    (hlt : j < j') : id < id' := by
  have hsplit : past.take (j' + 1) =
      past.take j' ++ [.wrote g (Request.encode ⟨id', command', arguments'⟩)] := by
    rw [List.take_add_one, h'.wrote]
    rfl
  have hsub : (past.take (j + 1)).Sublist (past.take j') := by
    apply List.IsPrefix.sublist
    exact List.take_prefix_take_left (by omega)
  have hle : writes (past.take (j + 1)) g ≤ writes (past.take j') g := hsub.countP_le
  have hid' := h'.number
  rw [hsplit, writes_concat_wrote] at hid'
  have hid := h.number
  omega

/-- A number is given to one request only. -/
theorem unique {j' : Nat} {command' : Command} {arguments' : Fields}
    (h : Asked past g j id command arguments) (h' : Asked past g j' id command' arguments') :
    j = j' := by
  rcases Nat.lt_trichotomy j j' with hlt | heq | hgt
  · have := h.number_lt h' hlt
    omega
  · exact heq
  · have := h'.number_lt h hgt
    omega

end Asked

/-- Every line that is written is a numbered request. -/
def Numbered (past : List Passage) : Prop :=
  ∀ j g line, past[j]? = some (.wrote g line) →
    ∃ id command arguments, Asked past g j id command arguments

theorem Numbered.concat (h : Numbered past) {p : Passage}
    (hp : ∀ g line, p = .wrote g line →
      ∃ id command arguments, Asked (past ++ [p]) g past.length id command arguments) :
    Numbered (past ++ [p]) := by
  intro j g line hj
  by_cases hlast : j < past.length
  · rw [List.getElem?_append_left hlast] at hj
    obtain ⟨id, command, arguments, ha⟩ := h j g line hj
    exact ⟨id, command, arguments, ha.append [p]⟩
  · have hlen := lt_length hj
    rw [List.length_append, List.length_singleton] at hlen
    have hend : j = past.length := by omega
    subst hend
    rw [List.getElem?_concat_length, Option.some.injEq] at hj
    exact hp g line hj

theorem Numbered.did (h : Numbered past) (g : Nat) (a : Act) : Numbered (past ++ [.did g a]) :=
  h.concat fun _ _ he => by cases he

/-- The next request is written. -/
theorem asked_concat (past : List Passage) (g : Nat) (command : Command) (arguments : Fields) :
    Asked (past ++ [.wrote g (Request.encode ⟨(writes past g + 1 : Nat), command, arguments⟩)]) g
      past.length (writes past g + 1) command arguments := by
  constructor
  · exact List.getElem?_concat_length
  · rw [List.take_of_length_le (by simp), writes_concat_wrote]

namespace Undecided

theorem append (h : Undecided past g id command j k) (hk : k ≤ past.length) (more : List Passage) :
    Undecided (past ++ more) g id command j k := by
  intro m p hj hm hp
  rw [List.getElem?_append_left (by omega)] at hp
  exact h m p hj hm hp

/-- One more passage that decides nothing. -/
theorem snoc (h : Undecided past g id command j past.length) {p : Passage}
    (hw : p.isWrite g = false) (hv : p.verdict? g id command = none) :
    Undecided (past ++ [p]) g id command j (past ++ [p]).length := by
  intro m q hj hm hq
  by_cases hlast : m < past.length
  · rw [List.getElem?_append_left hlast] at hq
    exact h m q hj hlast hq
  · rw [List.length_append, List.length_singleton] at hm
    have hmp : m = past.length := by omega
    subst hmp
    rw [List.getElem?_concat_length, Option.some.injEq] at hq
    subst hq
    exact ⟨hw, hv⟩

/-- Right after it has been written a request is undecided. -/
theorem start : Undecided (past ++ [p]) g id command past.length (past ++ [p]).length := by
  intro m q hj hm
  rw [List.length_append, List.length_singleton] at hm
  omega

end Undecided

namespace Decides

theorem append (h : Decides past g j k id command arguments r) (more : List Passage) :
    Decides (past ++ more) g j k id command arguments r := by
  obtain ⟨p, hp, hv⟩ := h.verdict
  have hk := lt_length hp
  refine ⟨h.asked.append more, h.later, h.undecided.append (Nat.le_of_lt hk) more, p, ?_, hv⟩
  rw [List.getElem?_append_left hk]
  exact hp

/-- The passage after a request that is still undecided may decide it. -/
theorem of_last (ha : Asked past g j id command arguments)
    (hu : Undecided past g id command j past.length) {p : Passage}
    (hv : p.verdict? g id command = some r) :
    Decides (past ++ [p]) g j past.length id command arguments r := by
  refine ⟨ha.append [p], lt_length ha.wrote, hu.append (Nat.le_refl _) [p], p, ?_, hv⟩
  exact List.getElem?_concat_length

theorem same_generation {g' j' id' : Nat} {command' : Command} {arguments' : Fields}
    {r' : Settlement} (h : Decides past g j k id command arguments r)
    (h' : Decides past g' j' k id' command' arguments' r') : g = g' := by
  obtain ⟨p, hp, hv⟩ := h.verdict
  obtain ⟨p', hp', hv'⟩ := h'.verdict
  obtain ⟨line, -, he, -⟩ := Passage.eq_print_of_verdict hv
  obtain ⟨line', -, he', -⟩ := Passage.eq_print_of_verdict hv'
  rw [hp, he, he'] at hp'
  simp only [Option.some.injEq, Passage.did.injEq] at hp'
  exact hp'.1

/-- The request that is answered is the one that has the id of the answer. -/
theorem asked_as {j' : Nat} {command' : Command} {arguments' : Fields} {answer : Response}
    (h : Decides past g j k id command arguments (.ok answer))
    (ha : Asked past g j' id command' arguments') :
    Decides past g j' k id command' arguments' (.ok answer) := by
  obtain rfl := h.asked.unique ha
  obtain ⟨p, hp, hv⟩ := h.verdict
  obtain ⟨line, rfl, hne, hr, hid⟩ := Passage.verdict_answer hv
  refine ⟨ha, h.later, fun m q hj hk hq => ?_, _, hp, ?_⟩
  · obtain ⟨hw, hn⟩ := h.undecided m q hj hk hq
    exact ⟨hw, Passage.verdict_none hn command'⟩
  · rw [Passage.verdict_print hne hr]
    simp [Channel.Reading.verdict?, hid]

/-- A request that is written between another request and its line would end the wait for it. -/
theorem not_between {j' id' : Nat} {command' : Command} {arguments' : Fields}
    (h : Decides past g j k id command arguments r)
    (h' : Asked past g j' id' command' arguments') (hj : j < j') (hk : j' < k) : False := by
  have hw := (h.undecided j' _ hj hk h'.wrote).1
  simp [Passage.isWrite] at hw

/-- No line decides two requests. -/
theorem same_request {g' j' id' : Nat} {command' : Command} {arguments' : Fields}
    {r' : Settlement} (h : Decides past g j k id command arguments r)
    (h' : Decides past g' j' k id' command' arguments' r') : g = g' ∧ j = j' ∧ id = id' := by
  obtain rfl := h.same_generation h'
  have hj : j = j' := by
    rcases Nat.lt_trichotomy j j' with hlt | heq | hgt
    · exact (h.not_between h'.asked hlt h'.later).elim
    · exact heq
    · exact (h'.not_between h.asked hgt h.later).elim
  subst hj
  exact ⟨rfl, rfl, h.asked.number.symm.trans h'.asked.number⟩

/-- No request is decided by two lines. -/
theorem same_line {k' : Nat} {arguments' : Fields} {r' : Settlement}
    (h : Decides past g j k id command arguments r)
    (h' : Decides past g j k' id command arguments' r') : k = k' := by
  obtain ⟨p, hp, hv⟩ := h.verdict
  obtain ⟨p', hp', hv'⟩ := h'.verdict
  rcases Nat.lt_trichotomy k k' with hlt | heq | hgt
  · have hnone := (h'.undecided k p h.later hlt hp).2
    rw [hnone] at hv
    cases hv
  · exact heq
  · have hnone := (h.undecided k' p' h'.later hgt hp').2
    rw [hnone] at hv'
    cases hv'

end Decides

end History

/-! ## Channels -/

namespace Channel

open History

variable {c : Channel} {past : List Passage}

/-- The history says of each request that waits that it is written and undecided, and of each that is
settled by what it was decided; only the closing of the channel settles requests otherwise. -/
structure Accounted (past : List Passage) (c : Channel) : Prop where
  nextId : c.nextId = writes past c.generation + 1
  pending : ∀ id command, (id, command) ∈ c.pending → ∃ j arguments,
    Asked past c.generation j id command arguments ∧
      Undecided past c.generation id command j past.length
  settled : ∀ id r, (id, r) ∈ c.settled →
    (∃ command reason, r = .error (.unavailable command reason (some c.generation))) ∨
      ∃ j k command arguments, Decides past c.generation j k id command arguments r

namespace Accounted

/-- Only the last request can wait. -/
theorem last (h : c.Accounted past) {id : Nat} {command : Command}
    (hp : (id, command) ∈ c.pending) : id + 1 = c.nextId := by
  obtain ⟨j, arguments, ha, hu⟩ := h.pending id command hp
  rw [h.nextId, ha.last hu]

theorem fresh {g : Nat} {timeout : Number} (hg : writes past g = 0) :
    ({ generation := g, timeout } : Channel).Accounted past where
  nextId := by rw [hg]
  pending _ _ hp := by cases hp
  settled _ _ hs := by cases hs

/-- A passage that is no request to the channel's child and decides nothing that waits. -/
theorem pass (h : c.Accounted past) {p : Passage} (hw : p.isWrite c.generation = false)
    (hv : ∀ id command, (id, command) ∈ c.pending → p.verdict? c.generation id command = none) :
    c.Accounted (past ++ [p]) := by
  refine ⟨?_, fun id command hp => ?_, fun id r hs => ?_⟩
  · rw [writes_concat hw]
    exact h.nextId
  · obtain ⟨j, arguments, ha, hu⟩ := h.pending id command hp
    exact ⟨j, arguments, ha.append [p], hu.snoc hw (hv id command hp)⟩
  · rcases h.settled id r hs with hclosed | ⟨j, k, command, arguments, hd⟩
    · exact .inl hclosed
    · exact .inr ⟨j, k, command, arguments, hd.append [p]⟩

/-- Fewer requests wait, and nothing else has changed. -/
theorem of_pending (h : c.Accounted past) {pending : List (Nat × Command)}
    (hsub : ∀ p ∈ pending, p ∈ c.pending) : ({ c with pending } : Channel).Accounted past :=
  ⟨h.nextId, fun id command hp => h.pending id command (hsub _ hp), h.settled⟩

theorem forget (h : c.Accounted past) (id : Nat) : (c.forget id).Accounted past :=
  h.of_pending fun _ hp => (List.mem_filter.mp hp).1

theorem mem_failAll {error : Command → EngineError} {id : Nat} {r : Settlement}
    (hs : (id, r) ∈ (c.failAll error).settled) :
    (∃ command, (id, command) ∈ c.pending ∧ r = .error (error command)) ∨ (id, r) ∈ c.settled := by
  rcases List.mem_append.mp hs with hs | hs
  · obtain ⟨p, hp, he⟩ := List.mem_map.mp (List.mem_reverse.mp hs)
    cases he
    exact .inl ⟨p.2, hp, rfl⟩
  · exact .inr hs

theorem close (h : c.Accounted past) (reason : String) : (c.close reason).Accounted past := by
  unfold Channel.close
  split
  · exact h
  · refine ⟨h.nextId, fun _ _ hp => (by cases hp), fun id r hs => ?_⟩
    rcases mem_failAll hs with ⟨command, -, rfl⟩ | hs
    · exact .inl ⟨command.name, some reason, rfl⟩
    · exact h.settled id r hs

/-- A request is registered when none waits, and then written. -/
theorem register (h : c.Accounted past) (hnone : c.pending = []) (command : Command)
    (arguments : Fields) :
    (c.register command arguments).2.Accounted
      (past ++ [.wrote c.generation (Request.encode ⟨c.nextId, command, arguments⟩)]) := by
  refine ⟨?_, fun id command' hp => ?_, fun id r hs => ?_⟩
  · have hnext := congrArg (· + 1) h.nextId
    exact hnext.trans (congrArg (· + 1) (writes_concat_wrote past c.generation _).symm)
  · simp only [Channel.register, hnone, List.nil_append, List.mem_singleton, Prod.mk.injEq] at hp
    obtain ⟨rfl, rfl⟩ := hp
    rw [h.nextId]
    exact ⟨past.length, arguments, asked_concat past c.generation command' arguments, .start⟩
  · rcases h.settled id r hs with hclosed | ⟨j, k, command', arguments', hd⟩
    · exact .inl hclosed
    · exact .inr ⟨j, k, command', arguments', hd.append _⟩

/-- What settles the request that waits is laid down last. -/
theorem settle (h : c.Accounted past) {id : Nat} {command : Command} {r : Settlement}
    (hp : (id, command) ∈ c.pending) {p : Passage} (hw : p.isWrite c.generation = false)
    (hv : p.verdict? c.generation id command = some r) :
    (c.settle id r).Accounted (past ++ [p]) := by
  refine ⟨?_, fun id' command' hp' => ?_, fun id' r' hs => ?_⟩
  · exact h.nextId.trans (congrArg (· + 1) (writes_concat hw).symm)
  · -- no other request waits
    obtain ⟨hmem, hne⟩ := List.mem_filter.mp hp'
    have hid := h.last hp
    have hid' := h.last hmem
    simp only [ne_eq, decide_not, Bool.not_eq_eq_eq_not, Bool.not_true, decide_eq_false_iff_not] at hne
    omega
  · rcases List.mem_cons.mp hs with he | hs
    · cases he
      obtain ⟨j, arguments, ha, hu⟩ := h.pending id command hp
      exact .inr ⟨j, past.length, command, arguments, .of_last ha hu hv⟩
    · rcases h.settled id' r' hs with hclosed | ⟨j, k, command', arguments', hd⟩
      · exact .inl hclosed
      · exact .inr ⟨j, k, command', arguments', hd.append [p]⟩

/-- What fails all requests that wait is laid down last. -/
theorem failAll (h : c.Accounted past) {error : Command → EngineError} {p : Passage}
    (hw : p.isWrite c.generation = false)
    (hv : ∀ id command, (id, command) ∈ c.pending →
      p.verdict? c.generation id command = some (.error (error command))) :
    (c.failAll error).Accounted (past ++ [p]) := by
  refine ⟨?_, fun _ _ hp => (by cases hp), fun id r hs => ?_⟩
  · exact h.nextId.trans (congrArg (· + 1) (writes_concat hw).symm)
  · rcases mem_failAll hs with ⟨command, hp, rfl⟩ | hs
    · obtain ⟨j, arguments, ha, hu⟩ := h.pending id command hp
      exact .inr ⟨j, past.length, command, arguments, .of_last ha hu (hv id command hp)⟩
    · rcases h.settled id r hs with hclosed | ⟨j, k, command, arguments, hd⟩
      · exact .inl hclosed
      · exact .inr ⟨j, k, command, arguments, hd.append [p]⟩

/-- A line that is read does to the channel what the history says of it. -/
theorem take (h : c.Accounted past) {line : String} (hne : Text.trim line ≠ "")
    {reading : Reading} (hr : readLine (Text.trim line) = .ok reading) :
    (c.take (Text.trim line) reading).Accounted (past ++ [.did c.generation (.print line)]) := by
  have hverdict : ∀ id command,
      (Passage.did c.generation (.print line)).verdict? c.generation id command =
        reading.verdict? id command (Text.trim line) := fun _ _ => Passage.verdict_print hne hr
  cases reading with
  | event =>
    exact h.pass rfl fun id command _ => hverdict id command
  | response r =>
    simp only [Channel.take]
    cases hwait : c.waiting? r.id with
    | none =>
      refine h.pass rfl fun id command hp => (hverdict id command).trans ?_
      have hother : r.id ≠ id := by
        intro he
        have hnone := List.find?_eq_none.mp hwait (id, command) hp
        simp [he] at hnone
      simp [Reading.verdict?, hother]
    | some p =>
      obtain ⟨hp, hid⟩ := waiting_mem hwait
      refine h.settle hp rfl ((hverdict p.1 p.2).trans ?_)
      simp [Reading.verdict?, hid]
  | malformed e id =>
    simp only [Channel.take]
    cases hwait : id.bind c.waiting? with
    | none =>
      exact h.failAll rfl fun id command _ => hverdict id command
    | some p =>
      obtain ⟨i, -, hwait⟩ := Option.bind_eq_some_iff.mp hwait
      exact h.settle (waiting_mem hwait).1 rfl (hverdict p.1 p.2)

end Accounted

end Channel

end AssemblyBrowser
