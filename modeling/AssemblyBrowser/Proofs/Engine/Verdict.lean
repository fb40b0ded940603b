import AssemblyBrowser.Proofs.Engine.Endurance
/-!
What a series of lines does to the only request that waits. Events and answers to other requests pass
it by; the first other line decides it, be it its own answer or nothing that can be understood; and
what comes after that line is too late. Main statement: the channel after any lines that can be read
is the one before, or differs from it by the settlement that the first such line decides.
-/
namespace AssemblyBrowser.Channel

/-- A line that can be read, be it one of the protocol or not. -/
def Legible (line : String) : Prop := ∀ digits, decodeLine line ≠ .error (.hugeInteger digits)

/-- A line that does not concern the request with an id: an event, or the answer to another one. -/
inductive Passes (id : Nat) (line : String) : Prop
  | event {message : Fields} (decoded : decodeLine line = .ok message)
      (event : isEvent message = true)
  | foreign {message : Fields} {r : Response} (decoded : decodeLine line = .ok message)
      (read : Response.ofMessage message = .ok r) (other : r.id ≠ id)

/-- A line that decides the only request that waits: its answer, a line that is no object, or an
object that is neither an event nor an answer, whatever id it claims. -/
inductive Decides (id : Nat) (command : Command) (line : String) : Settlement → Prop
  | answer {message : Fields} {r : Response} (decoded : decodeLine line = .ok message)
      (read : Response.ofMessage message = .ok r) (own : r.id = id) :
      Decides id command line (.ok r)
  | garbled {e : ProtocolError} (decoded : decodeLine line = .error (.protocol e)) :
      Decides id command line (.error (.malformed command.name e.message (some line)))
  | invalid {message : Fields} {e : ProtocolError} (decoded : decodeLine line = .ok message)
      (event : isEvent message = false) (read : Response.ofMessage message = .error e) :
      Decides id command line (.error (.malformed command.name e.message (some line)))

variable {c : Channel} {id : Nat} {command : Command} {line : String}

/-- An event has no id, so it is no answer. -/
theorem isEvent_of_ofMessage {message : Fields} {r : Response}
    (h : Response.ofMessage message = .ok r) : isEvent message = false := by
  cases hid : Assoc.find? "id" message with
  | none => simp [Response.ofMessage, Response.id?, hid] at h
  | some v => simp [isEvent, hid]

theorem Legible.readLine (h : Legible line) : ∃ reading, readLine line = .ok reading := by
  cases hd : decodeLine line with
  | ok message => exact ⟨readMessage message, by simp [Channel.readLine, hd]⟩
  | error e =>
    cases e with
    | protocol e => exact ⟨.malformed e none, by simp [Channel.readLine, hd]⟩
    | hugeInteger digits => exact absurd hd (h digits)

theorem Legible.passes_or_decides (h : Legible line) (id : Nat) (command : Command) :
    Passes id line ∨ ∃ r, Decides id command line r := by
  cases hd : decodeLine line with
  | error e =>
    cases e with
    | protocol e => exact .inr ⟨_, .garbled hd⟩
    | hugeInteger digits => exact absurd hd (h digits)
  | ok message =>
    cases hr : Response.ofMessage message with
    | ok r =>
      by_cases hid : r.id = id
      · exact .inr ⟨_, .answer hd hr hid⟩
      · exact .inl (.foreign hd hr hid)
    | error e =>
      cases he : isEvent message with
      | true => exact .inl (.event hd he)
      | false => exact .inr ⟨_, .invalid hd he hr⟩

/-- What passes a request by does not decide it. -/
theorem Decides.not_passes {r : Settlement} (h : Decides id command line r) : ¬Passes id line := by
  intro hp
  cases h with
  | garbled hd => cases hp <;> simp_all
  | answer hd hr hid =>
    cases hp with
    | event hd' he =>
      rw [hd, Except.ok.injEq] at hd'
      rw [← hd', isEvent_of_ofMessage hr] at he
      cases he
    | foreign hd' hr' hid' =>
      rw [hd, Except.ok.injEq] at hd'
      rw [← hd', hr, Except.ok.injEq] at hr'
      exact hid' (hr' ▸ hid)
  | invalid hd he hr =>
    cases hp with
    | event hd' he' =>
      rw [hd, Except.ok.injEq] at hd'
      rw [← hd', he] at he'
      cases he'
    | foreign hd' hr' =>
      rw [hd, Except.ok.injEq] at hd'
      rw [← hd', hr] at hr'
      cases hr'

theorem Decides.unique {r r' : Settlement} (h : Decides id command line r)
    (h' : Decides id command line r') : r = r' := by
  cases h <;> cases h' <;> simp_all

/-! ## One line -/

/-- The channel whose only request has been settled. -/
def decided (c : Channel) (id : Nat) (r : Settlement) : Channel :=
  { c with pending := [], settled := (id, r) :: c.settled }

/-- A line is too late for a channel in which nothing waits. -/
theorem handleLine_idle (hc : c.pending = []) (hl : Legible line) : c.handleLine line = .ok c := by
  obtain ⟨reading, hr⟩ := hl.readLine
  simp [handleLine, hr, Except.map, take_idle hc]

theorem handleLine_passes (hc : c.pending = [(id, command)]) (h : Passes id line) :
    c.handleLine line = .ok c := by
  cases h with
  | event hd he => simp [handleLine, readLine, hd, readMessage, he, Except.map, take]
  | @foreign message r hd hr hid =>
    have hwaiting : c.waiting? r.id = none := by simpa [waiting?, hc] using Ne.symm hid
    simp [handleLine, readLine, hd, readMessage, isEvent_of_ofMessage hr, hr, Except.map, take,
      hwaiting]

/-- A malformed line settles the only request that waits, whether it names it or not. -/
theorem take_malformed (hc : c.pending = [(id, command)]) (line : String) (e : ProtocolError)
    (claimed : Option Int) : c.take line (.malformed e claimed) =
      c.decided id (.error (.malformed command.name e.message (some line))) := by
  cases hw : claimed.bind c.waiting? with
  | none => simp [take, hw, failAll, hc, decided]
  | some p =>
    obtain ⟨i, -, hp⟩ := Option.bind_eq_some_iff.mp hw
    have hmem := (waiting_mem hp).1
    rw [hc, List.mem_singleton] at hmem
    subst hmem
    simp [take, hw, settle, forget, hc, decided]

theorem handleLine_decides (hc : c.pending = [(id, command)]) {r : Settlement}
    (h : Decides id command line r) : c.handleLine line = .ok (c.decided id r) := by
  cases h with
  | @answer message r hd hr hid =>
    have hwaiting : c.waiting? r.id = some (id, command) := by simp [waiting?, hc, hid]
    simp [handleLine, readLine, hd, readMessage, isEvent_of_ofMessage hr, hr, Except.map, take,
      hwaiting, settle, forget, hc, decided]
  | garbled hd =>
    simp only [handleLine, readLine, hd, Except.map]
    rw [take_malformed hc]
  | invalid hd he hr =>
    simp only [handleLine, readLine, hd, readMessage, he, hr, Except.map, Bool.false_eq_true, ↓reduceIte]
    rw [take_malformed hc]

/-- The sender of the request gets what it was settled with, however long it is willing to wait. -/
theorem await_decided (c : Channel) (id : Nat) (command : Command) (r : Settlement)
    (timeout : Number) : (c.decided id r).await id command timeout = r.mapError .engine := by
  cases r <;> simp [await, settlement?, decided, Except.mapError]

/-! ## Many lines -/

theorem handleLines_idle (hc : c.pending = []) {lines : List String}
    (hl : ∀ line ∈ lines, Legible line) : lines.foldlM handleLine c = .ok c := by
  induction lines with
  | nil => rfl
  | cons line lines ih =>
    obtain ⟨hfirst, hrest⟩ := List.forall_mem_cons.mp hl
    rw [List.foldlM_cons, handleLine_idle hc hfirst]
    exact ih hrest

/-- Let one request wait, and let lines come that can be read. Then either all of them pass it by, and
the channel is the same; or the first that does not decides it, in one way only, and then the channel
differs by that settlement alone, which is what the sender gets: the lines before and after have done
nothing. When the sender has left, nothing waits any more. -/
theorem first_decisive_line_settles (hc : c.pending = [(id, command)]) {lines : List String}
    (hl : ∀ line ∈ lines, Legible line) :
    ∃ c', lines.foldlM handleLine c = .ok c' ∧ (c'.forget id).pending = [] ∧
      ((∀ line ∈ lines, Passes id line) ∧ c' = c ∨
        ∃ before line after r, lines = before ++ line :: after ∧
          (∀ earlier ∈ before, Passes id earlier) ∧ ¬Passes id line ∧
          Decides id command line r ∧ (∀ r', Decides id command line r' → r' = r) ∧
          c' = { c with pending := [], settled := (id, r) :: c.settled } ∧
          ∀ timeout, c'.await id command timeout = r.mapError .engine) := by
  induction lines with
  | nil => exact ⟨c, rfl, by simp [forget, hc], .inl ⟨by simp, rfl⟩⟩
  | cons line lines ih =>
    obtain ⟨hfirst, hrest⟩ := List.forall_mem_cons.mp hl
    rw [List.foldlM_cons]
    rcases hfirst.passes_or_decides id command with hpass | ⟨r, hr⟩
    · obtain ⟨c', hrun, hleft, hcases⟩ := ih hrest
      rw [handleLine_passes hc hpass]
      refine ⟨c', hrun, hleft, ?_⟩
      rcases hcases with ⟨hall, hsame⟩ | ⟨before, decisive, after, r, hlines, hbefore, hcase⟩
      · exact .inl ⟨List.forall_mem_cons.mpr ⟨hpass, hall⟩, hsame⟩
      · exact .inr ⟨line :: before, decisive, after, r, by rw [hlines, List.cons_append],
          List.forall_mem_cons.mpr ⟨hpass, hbefore⟩, hcase⟩
    · rw [handleLine_decides hc hr]
      have hlate := handleLines_idle (c := c.decided id r) rfl hrest
      exact ⟨c.decided id r, hlate, rfl, .inr ⟨[], line, lines, r, rfl, by simp, hr.not_passes, hr,
        fun r' hr' => hr'.unique hr, rfl, c.await_decided id command r⟩⟩

/-- A channel in which an assembly is being loaded. -/
def loading : Channel :=
  { generation := 1, timeout := usualTimeout, nextId := 2, pending := [(1, .load)] }

/-- Lines of an engine: an event, an answer to somebody else, an answer with a truth value for an id,
and one with the right id. -/
def wordyLines : List String :=
  ["\x7b\"event\": \"progress\"\x7d", "\x7b\"id\": 7, \"success\": true\x7d",
    "\x7b\"id\": true, \"success\": true\x7d", "\x7b\"id\": 1, \"success\": true\x7d"]

theorem decodeLine_wordyLines : wordyLines.map decodeLine =
    [.ok [("event", .text "progress")], .ok [("id", .integer 7), ("success", .bool true)],
      .ok [("id", .bool true), ("success", .bool true)],
      .ok [("id", .integer 1), ("success", .bool true)]] := by
  decide +kernel

/-- The request fails with the third line, and the fourth is too late. -/
theorem first_decisive_line_settles_wordyLines :
    loading.pending = [(1, .load)] ∧ (∀ line ∈ wordyLines, Legible line) ∧
    ∃ c', wordyLines.foldlM handleLine loading = .ok c' ∧ (c'.forget 1).pending = [] ∧
      ∀ timeout, c'.await 1 .load timeout = .error (.engine (.malformed "load"
        "response has no integer 'id'" (some "\x7b\"id\": true, \"success\": true\x7d"))) := by
  have hdecoded := decodeLine_wordyLines
  simp only [wordyLines, List.map_cons, List.map_nil, List.cons.injEq, and_true] at hdecoded
  obtain ⟨hevent, hforeign, hbool, hown⟩ := hdecoded
  have hlegible : ∀ line ∈ wordyLines, Legible line := by
    simp [wordyLines, Legible, hevent, hforeign, hbool, hown]
  have hfirst : Passes 1 "\x7b\"event\": \"progress\"\x7d" := .event hevent rfl
  have hsecond : Passes 1 "\x7b\"id\": 7, \"success\": true\x7d" :=
    .foreign (r := ⟨7, .success []⟩) hforeign rfl (by decide)
  have hthird : Decides 1 .load "\x7b\"id\": true, \"success\": true\x7d" _ :=
    .invalid hbool rfl rfl
  have hpending : loading.pending = [(1, .load)] := rfl
  obtain ⟨c', hrun, hleft, hcases⟩ := first_decisive_line_settles hpending hlegible
  refine ⟨rfl, hlegible, c', hrun, hleft, ?_⟩
  rcases hcases with ⟨hall, -⟩ | ⟨before, line, after, r, hlines, hbefore, hnot, -, honly, -, hawait⟩
  · exact absurd (hall _ (by simp [wordyLines])) hthird.not_passes
  · obtain _ | ⟨_, _ | ⟨_, _ | ⟨_, before⟩⟩⟩ := before <;>
      simp only [wordyLines, List.nil_append, List.cons_append, List.cons.injEq] at hlines
    · exact absurd (hlines.1 ▸ hfirst) hnot
    · exact absurd (hlines.2.1 ▸ hsecond) hnot
    · obtain ⟨-, -, rfl, -⟩ := hlines
      rw [← honly _ hthird] at hawait
      exact hawait
    · obtain ⟨-, -, rfl, -⟩ := hlines
      exact absurd (hbefore _ (by simp)) hthird.not_passes

end AssemblyBrowser.Channel
