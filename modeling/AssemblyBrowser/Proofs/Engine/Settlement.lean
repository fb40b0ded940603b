import AssemblyBrowser.Engine.Link
import AssemblyBrowser.Proofs.Engine.Report
/-!
How the requests of a channel are settled: each at most once, by a response with its own id, and
for good. The channels behind a link keep to this whatever lines come and whenever the engine goes.
-/
namespace AssemblyBrowser

namespace Channel

/-- Requests that wait and requests that are settled are told apart by ids given out before. -/
structure Sound (c : Channel) : Prop where
  pending : ∀ p ∈ c.pending, p.1 < c.nextId
  settled : ∀ e ∈ c.settled, e.1 < c.nextId
  apart : ∀ p ∈ c.pending, ∀ e ∈ c.settled, p.1 ≠ e.1
  answered : ∀ (id : Nat) (r : Response), (id, .ok r) ∈ c.settled → r.id = id

/-- A channel later: it belongs to the same generation, and what was settled stays so. -/
structure Ages (c c' : Channel) : Prop where
  generation : c'.generation = c.generation
  timeout : c'.timeout = c.timeout
  nextId : c.nextId ≤ c'.nextId
  settled : ∀ id r, c.settlement? id = some r → c'.settlement? id = some r

variable {c c' : Channel}

theorem Ages.refl (c : Channel) : c.Ages c := ⟨rfl, rfl, Nat.le_refl _, fun _ _ h => h⟩

theorem Ages.trans {c'' : Channel} (h : c.Ages c') (h' : c'.Ages c'') : c.Ages c'' where
  generation := h'.generation.trans h.generation
  timeout := h'.timeout.trans h.timeout
  nextId := Nat.le_trans h.nextId h'.nextId
  settled id r e := h'.settled id r (h.settled id r e)

theorem mem_of_settlement {id : Nat} {r : Settlement} (h : c.settlement? id = some r) :
    (id, r) ∈ c.settled := by
  unfold settlement? at h
  revert h
  induction c.settled with
  | nil => simp
  | cons e es ih =>
    obtain ⟨k, v⟩ := e
    rw [List.lookup_cons]
    by_cases hk : id = k
    · subst hk
      simp only [BEq.rfl, Option.some.injEq]
      rintro rfl
      exact List.mem_cons_self
    · intro h
      have hk' : (id == k) = false := by simpa using hk
      rw [hk'] at h
      exact List.mem_cons_of_mem _ (ih h)

/-- More settlements of other requests hide none that was there. -/
theorem settlement_append {c' : Channel} {l : List (Nat × Settlement)}
    (hs : c'.settled = l ++ c.settled) (hn : ∀ e ∈ l, ∀ e' ∈ c.settled, e.1 ≠ e'.1) {id : Nat}
    {r : Settlement} (h : c.settlement? id = some r) : c'.settlement? id = some r := by
  have hm := mem_of_settlement h
  have hnone : l.lookup id = none := by
    rw [List.lookup_eq_none_iff]
    intro e he
    have := hn e he _ hm
    simpa using Ne.symm this
  rw [settlement?, hs, List.lookup_append, hnone]
  exact h

theorem Sound.fresh {g : Nat} {timeout : Number} :
    ({ generation := g, timeout } : Channel).Sound where
  pending p h := by cases h
  settled e h := by cases h
  apart p h := by cases h
  answered id r h := by cases h

theorem Sound.register (h : c.Sound) (command : Command) (arguments : Fields) :
    (c.register command arguments).2.Sound := by
  have hmem : ∀ p, p ∈ (c.register command arguments).2.pending →
      p ∈ c.pending ∨ p = (c.nextId, command) := fun p hp => by
    simpa [Channel.register, List.mem_append] using hp
  refine ⟨fun p hp => ?_, fun e he => ?_, fun p hp e he => ?_, h.answered⟩
  · cases hmem p hp with
    | inl hp => exact Nat.lt_succ_of_lt (h.pending p hp)
    | inr hp => exact hp ▸ Nat.lt_succ_self _
  · exact Nat.lt_succ_of_lt (h.settled e he)
  · cases hmem p hp with
    | inl hp => exact h.apart p hp e he
    | inr hp =>
      have := h.settled e he
      rw [hp]
      exact Nat.ne_of_gt this

theorem register_ages (c : Channel) (command : Command) (arguments : Fields) :
    c.Ages (c.register command arguments).2 := ⟨rfl, rfl, Nat.le_succ _, fun _ _ h => h⟩

theorem Sound.forget (h : c.Sound) (id : Nat) : (c.forget id).Sound where
  pending p hp := h.pending p (List.mem_filter.mp hp).1
  settled := h.settled
  apart p hp := h.apart p (List.mem_filter.mp hp).1
  answered := h.answered

theorem forget_ages (c : Channel) (id : Nat) : c.Ages (c.forget id) :=
  ⟨rfl, rfl, Nat.le_refl _, fun _ _ h => h⟩

/-- A waiting request may be settled, by a response only if it has its id. -/
theorem Sound.settle (h : c.Sound) {id : Nat} {command : Command} (hw : (id, command) ∈ c.pending)
    {result : Settlement} (hr : ∀ r, result = .ok r → r.id = id) :
    (c.settle id result).Sound ∧ c.Ages (c.settle id result) := by
  have hfilter : ∀ p, p ∈ (c.settle id result).pending → p ∈ c.pending ∧ p.1 ≠ id := fun p hp => by
    simpa [Channel.settle, Channel.forget] using hp
  refine ⟨⟨fun p hp => h.pending p (hfilter p hp).1, fun e he => ?_, fun p hp e he => ?_, ?_⟩, rfl,
    rfl, Nat.le_refl _, fun j r hj => settlement_append (l := [(id, result)]) rfl ?_ hj⟩
  · cases List.mem_cons.mp he with
    | inl he => exact he ▸ h.pending _ hw
    | inr he => exact h.settled e he
  · cases List.mem_cons.mp he with
    | inl he => exact he ▸ (hfilter p hp).2
    | inr he => exact h.apart p (hfilter p hp).1 e he
  · intro j r hj
    cases List.mem_cons.mp hj with
    | inl hj =>
      cases hj
      exact hr r rfl
    | inr hj => exact h.answered j r hj
  · intro e he e' he'
    rw [List.mem_singleton.mp he]
    exact h.apart _ hw e' he'

/-- A waiting request may be answered. -/
theorem Sound.respond (h : c.Sound) {id : Nat} {command : Command}
    (hw : (id, command) ∈ c.pending) (answer : Answer) :
    (c.settle id (.ok ⟨id, answer⟩)).Sound ∧ c.Ages (c.settle id (.ok ⟨id, answer⟩)) := by
  refine h.settle hw fun r hr => ?_
  cases hr
  rfl

theorem Sound.failAll (h : c.Sound) (error : Command → EngineError) :
    (c.failAll error).Sound ∧ c.Ages (c.failAll error) := by
  have hnew : ∀ e, e ∈ (c.pending.map fun p => (p.1, (.error (error p.2) : Settlement))).reverse →
      ∃ p ∈ c.pending, e = (p.1, .error (error p.2)) := fun e he => by
    obtain ⟨p, hp, rfl⟩ := List.mem_map.mp (List.mem_reverse.mp he)
    exact ⟨p, hp, rfl⟩
  refine ⟨⟨fun p hp => (by cases hp), fun e he => ?_, fun p hp => (by cases hp), ?_⟩, rfl, rfl,
    Nat.le_refl _, fun j r hj => settlement_append rfl ?_ hj⟩
  · cases List.mem_append.mp he with
    | inl he =>
      obtain ⟨p, hp, rfl⟩ := hnew e he
      exact h.pending p hp
    | inr he => exact h.settled e he
  · intro j r hj
    cases List.mem_append.mp hj with
    | inl hj =>
      obtain ⟨p, -, he⟩ := hnew _ hj
      cases he
    | inr hj => exact h.answered j r hj
  · intro e he e' he'
    obtain ⟨p, hp, rfl⟩ := hnew e he
    exact h.apart p hp e' he'

theorem waiting_mem {id : Int} {p : Nat × Command} (h : c.waiting? id = some p) :
    p ∈ c.pending ∧ (p.1 : Int) = id :=
  ⟨List.mem_of_find?_eq_some h, by simpa using List.find?_some h⟩

/-- No line spoils a channel. -/
theorem Sound.take (h : c.Sound) (line : String) (reading : Reading) :
    (c.take line reading).Sound ∧ c.Ages (c.take line reading) := by
  cases reading with
  | event => exact ⟨h, .refl c⟩
  | response r =>
    simp only [Channel.take]
    cases hw : c.waiting? r.id with
    | none => exact ⟨h, .refl c⟩
    | some p =>
      obtain ⟨hp, hid⟩ := waiting_mem hw
      exact h.settle hp fun r' hr' => by
        cases hr'
        exact hid.symm
  | malformed e id =>
    simp only [Channel.take]
    cases hw : id.bind c.waiting? with
    | none => exact h.failAll _
    | some p =>
      obtain ⟨i, -, hw⟩ := Option.bind_eq_some_iff.mp hw
      exact h.settle (waiting_mem hw).1 fun r' hr' => by cases hr'

/-- A line changes which requests wait and which are settled; no new one waits. -/
theorem take_eq (c : Channel) (line : String) (reading : Reading) :
    ∃ pending settled, c.take line reading = { c with pending, settled } ∧
      pending.Sublist c.pending := by
  have hforget : ∀ id, (c.forget id).pending.Sublist c.pending := fun _ => List.filter_sublist
  cases reading with
  | event => exact ⟨c.pending, c.settled, rfl, .refl _⟩
  | response r =>
    simp only [Channel.take]
    split
    · exact ⟨_, _, rfl, hforget _⟩
    · exact ⟨c.pending, c.settled, rfl, .refl _⟩
  | malformed e id =>
    simp only [Channel.take]
    split
    · exact ⟨_, _, rfl, hforget _⟩
    · exact ⟨_, _, rfl, List.nil_sublist _⟩

/-- A line changes nothing where no request waits. -/
theorem take_idle (h : c.pending = []) (line : String) (reading : Reading) :
    c.take line reading = c := by
  have hwaiting : ∀ i, c.waiting? i = none := fun i => by simp [waiting?, h]
  have hfail : ∀ error, c.failAll error = c := fun error => by
    cases c
    cases h
    rfl
  cases reading with
  | event => rfl
  | response r => simp [Channel.take, hwaiting]
  | malformed e claimed =>
    have hnone : claimed.bind c.waiting? = none := by cases claimed <;> simp [hwaiting]
    simp only [Channel.take, hnone, hfail]

theorem handleLine_ok {line : String} (hl : c.handleLine line = .ok c') :
    ∃ reading, readLine line = .ok reading ∧ c' = c.take line reading := by
  unfold Channel.handleLine at hl
  cases hr : readLine line with
  | error digits => simp [hr, Except.map] at hl
  | ok reading =>
    simp only [hr, Except.map, Except.ok.injEq] at hl
    exact ⟨reading, rfl, hl.symm⟩

theorem Sound.handleLine (h : c.Sound) {line : String} (hl : c.handleLine line = .ok c') :
    c'.Sound ∧ c.Ages c' := by
  unfold Channel.handleLine at hl
  cases hr : readLine line with
  | error digits => simp [hr, Except.map] at hl
  | ok reading =>
    simp only [hr, Except.map, Except.ok.injEq] at hl
    exact hl ▸ h.take line reading

theorem Sound.close (h : c.Sound) (reason : String) :
    (c.close reason).Sound ∧ c.Ages (c.close reason) := by
  unfold Channel.close
  split
  · exact ⟨h, .refl c⟩
  · have hclosed : ({ c with closedReason := some reason } : Channel).Sound :=
      ⟨h.pending, h.settled, h.apart, h.answered⟩
    obtain ⟨hs, ha⟩ := hclosed.failAll fun command =>
      .unavailable command.name (some reason) (some c.generation)
    exact ⟨hs, ha.generation, ha.timeout, ha.nextId, ha.settled⟩

theorem generation_close (c : Channel) (reason : String) :
    (c.close reason).generation = c.generation := by
  unfold Channel.close
  split <;> rfl

theorem close_of_isClosed (h : c.isClosed = true) (reason : String) : c.close reason = c := if_pos h

theorem isClosed_close (c : Channel) (reason : String) : (c.close reason).isClosed = true := by
  unfold Channel.close
  split
  · assumption
  · rfl

theorem pending_close (c : Channel) (reason : String) :
    ∀ p ∈ (c.close reason).pending, p ∈ c.pending := by
  intro p hp
  unfold Channel.close at hp
  split at hp
  · exact hp
  · cases hp

end Channel

namespace Link

/-- One sound channel for a generation, also for the installed one. -/
structure Sound (l : Link) : Prop where
  channels : ∀ c ∈ l.channels, c.Sound
  nodup : (l.channels.map Channel.generation).Nodup
  installed : ∀ g, l.installed = some g → ∃ c, l.channel? g = some c

/-- A link later: every channel is still there. -/
def Ages (l l' : Link) : Prop :=
  ∀ g c, l.channel? g = some c → ∃ c', l'.channel? g = some c' ∧ c.Ages c'

/-- What no report changes. -/
structure Frame (l l' : Link) : Prop where
  installed : l'.installed = l.installed
  loaded : l'.loaded = l.loaded
  generations : l'.channels.map Channel.generation = l.channels.map Channel.generation

variable {l l' l'' : Link}

theorem Ages.refl (l : Link) : l.Ages l := fun _ c h => ⟨c, h, .refl c⟩

theorem Ages.trans (h : l.Ages l') (h' : l'.Ages l'') : l.Ages l'' := by
  intro g c hc
  obtain ⟨c₁, hc₁, h₁⟩ := h g c hc
  obtain ⟨c₂, hc₂, h₂⟩ := h' g c₁ hc₁
  exact ⟨c₂, hc₂, h₁.trans h₂⟩

theorem Ages.of_channels (h : l'.channels = l.channels) : l.Ages l' := fun g c hc =>
  ⟨c, by rw [channel?, h]; exact hc, .refl c⟩

theorem Frame.refl (l : Link) : l.Frame l := ⟨rfl, rfl, rfl⟩

theorem Frame.trans (h : l.Frame l') (h' : l'.Frame l'') : l.Frame l'' :=
  ⟨h'.installed.trans h.installed, h'.loaded.trans h.loaded, h'.generations.trans h.generations⟩

theorem mem_of_channel {g : Nat} {c : Channel} (h : l.channel? g = some c) :
    c ∈ l.channels ∧ c.generation = g :=
  ⟨List.mem_of_find?_eq_some h, by simpa using List.find?_some h⟩

theorem find?_of_nodup {c : Channel} {cs : List Channel}
    (h : (cs.map Channel.generation).Nodup) (hc : c ∈ cs) :
    cs.find? (fun d => d.generation = c.generation) = some c := by
  induction cs with
  | nil => cases hc
  | cons d ds ih =>
    rw [List.map_cons, List.nodup_cons] at h
    cases List.mem_cons.mp hc with
    | inl hd => simp [hd]
    | inr hd =>
      have hne : d.generation ≠ c.generation := fun e =>
        h.1 (e ▸ List.mem_map_of_mem hd)
      simp [hne, ih h.2 hd]

theorem Sound.channel_of_mem (h : l.Sound) {c : Channel} (hc : c ∈ l.channels) :
    l.channel? c.generation = some c := find?_of_nodup h.nodup hc

theorem Sound.channel (h : l.Sound) {g : Nat} {c : Channel} (hc : l.channel? g = some c) :
    c.Sound := h.channels c (mem_of_channel hc).1

theorem channel?_update (l : Link) {g : Nat} {f : Channel → Channel}
    (hf : ∀ c ∈ l.channels, c.generation = g → (f c).generation = g) (g' : Nat) :
    (l.update g f).channel? g' = if g' = g then (l.channel? g).map f else l.channel? g' := by
  unfold channel? update
  simp only
  revert hf
  induction l.channels with
  | nil => simp
  | cons c cs ih =>
    intro hf
    have ih := ih fun d hd => hf d (List.mem_cons_of_mem _ hd)
    simp only [List.map_cons, List.find?_cons]
    by_cases hc : c.generation = g
    · have := hf c List.mem_cons_self hc
      by_cases hg : g' = g
      · subst hg
        simp [hc, this]
      · simp only [hc, this, if_true, Ne.symm hg, decide_false, ih, hg, if_false]
    · by_cases hg : g' = g
      · subst hg
        simp [hc, ih]
      · simp only [hc, if_false, ih, hg]

/-- The channel of a generation may be replaced by a later one. -/
theorem Sound.update (h : l.Sound) {g : Nat} {f : Channel → Channel}
    (hf : ∀ c, l.channel? g = some c → (f c).Sound ∧ c.Ages (f c)) :
    (l.update g f).Sound ∧ l.Ages (l.update g f) ∧ l.Frame (l.update g f) := by
  have hmem : ∀ c ∈ l.channels, c.generation = g → (f c).Sound ∧ c.Ages (f c) := fun c hc hg =>
    hf c (hg ▸ h.channel_of_mem hc)
  have hgen : ∀ c ∈ l.channels, c.generation = g → (f c).generation = g := fun c hc hg =>
    (hmem c hc hg).2.generation.trans hg
  have hmap : (l.update g f).channels.map Channel.generation =
      l.channels.map Channel.generation := by
    simp only [Link.update, List.map_map]
    refine List.map_congr_left fun c hc => ?_
    by_cases hg : c.generation = g
    · simp only [Function.comp, hg, if_true, hgen c hc hg]
    · simp only [Function.comp, hg, if_false]
  have hages : l.Ages (l.update g f) := fun g' c hc => by
    rw [channel?_update l hgen]
    by_cases hg : g' = g
    · subst hg
      exact ⟨f c, by simp [hc], (hf c hc).2⟩
    · exact ⟨c, by simp [hg, hc], .refl c⟩
  refine ⟨⟨fun d hd => ?_, hmap ▸ h.nodup, fun g' hg' => ?_⟩, hages, rfl, rfl, hmap⟩
  · obtain ⟨c, hc, rfl⟩ := List.mem_map.mp hd
    split
    · rename_i hg
      exact (hmem c hc hg).1
    · exact h.channels c hc
  · obtain ⟨c, hc⟩ := h.installed g' hg'
    obtain ⟨c', hc', -⟩ := hages g' c hc
    exact ⟨c', hc'⟩

theorem installed?_eq {g : Nat} (hg : l.installed = some g) :
    l.installed? = l.channel? g := by
  rw [installed?, hg, Option.bind_some]

/-- What children report leaves a sound link with the same channels. -/
structure Hears (l l' : Link) : Prop where
  sound : l'.Sound
  ages : l.Ages l'
  frame : l.Frame l'

theorem Hears.refl (h : l.Sound) : l.Hears l := ⟨h, .refl l, .refl l⟩

theorem Hears.trans (h : l.Hears l') (h' : l'.Hears l'') : l.Hears l'' :=
  ⟨h'.sound, h.ages.trans h'.ages, h.frame.trans h'.frame⟩

theorem Sound.hear (h : l.Sound) {g : Nat} {line : String} (hl : l.hear g line = some l') :
    l.Hears l' := by
  unfold Link.hear at hl
  cases hi : l.installed? with
  | none =>
    simp only [hi, Option.some.injEq] at hl
    exact hl ▸ .refl h
  | some c =>
    simp only [hi] at hl
    split at hl
    · cases hl
      exact .refl h
    · rename_i hg
      have hg : c.generation = g := Decidable.not_not.mp hg
      have hc : l.channel? g = some c := by
        obtain ⟨g', -, hc⟩ := Option.bind_eq_some_iff.mp hi
        rw [← hg, (mem_of_channel hc).2]
        exact hc
      cases hline : c.handleLine line with
      | error digits => simp [hline] at hl
      | ok c' =>
        simp only [hline, Option.some.injEq] at hl
        subst hl
        obtain ⟨hs, ha, hf⟩ := h.update (f := fun _ => c') fun d hd => by
          cases hc.symm.trans hd
          exact (h.channel hc).handleLine hline
        exact ⟨hs, ha, hf⟩

theorem Sound.markCrashed (h : l.Sound) (g : Nat) (exitCode : Option Int) :
    l.Hears (l.markCrashed g exitCode) := by
  have hclose : l.Hears (l.update g fun c => c.close (crashReason exitCode)) := by
    obtain ⟨hs, ha, hf⟩ := h.update (f := fun c => c.close (crashReason exitCode)) fun c hc =>
      (h.channel hc).close _
    exact ⟨hs, ha, hf⟩
  unfold Link.markCrashed
  split
  · exact .refl h
  · split
    · exact .refl h
    · dsimp only
      split
      · exact ⟨⟨hclose.sound.channels, hclose.sound.nodup, hclose.sound.installed⟩,
          hclose.ages, hclose.frame.installed, hclose.frame.loaded, hclose.frame.generations⟩
      · exact hclose

theorem Hears.of_channels (h : l.Sound) (hc : l'.channels = l.channels)
    (hi : l'.installed = l.installed) (hl : l'.loaded = l.loaded) : l.Hears l' := by
  have ha : l.Ages l' := .of_channels hc
  refine ⟨⟨hc ▸ h.channels, hc ▸ h.nodup, fun g hg => ?_⟩, ha, hi, hl, by rw [hc]⟩
  obtain ⟨c, hc'⟩ := h.installed g (hi ▸ hg)
  obtain ⟨c', hc', -⟩ := ha g c hc'
  exact ⟨c', hc'⟩

/-- No report makes a channel. -/
theorem Hears.back (h : l.Hears l') {g : Nat} {c' : Channel} (hc : l'.channel? g = some c') :
    ∃ c, l.channel? g = some c ∧ c.Ages c' := by
  have hmem : g ∈ l.channels.map Channel.generation := by
    rw [← h.frame.generations, ← (mem_of_channel hc).2]
    exact List.mem_map_of_mem (mem_of_channel hc).1
  obtain ⟨d, hd, hdg⟩ := List.mem_map.mp hmem
  cases hl : l.channel? g with
  | none =>
    have := List.find?_eq_none.mp hl d hd
    simp [hdg] at this
  | some c =>
    obtain ⟨c'', hc'', ha⟩ := h.ages g c hl
    cases hc.symm.trans hc''
    exact ⟨c, rfl, ha⟩

theorem listener_respects : listener.Respects fun l l' => l.Sound → l.Hears l' where
  refl _ h := .refl h
  trans h h' hs := (h hs).trans (h' (h hs).sound)
  heard ho hs := hs.hear ho
  ended _ g exitCode hs := hs.markCrashed g exitCode

theorem channel?_install (l : Link) (c : Channel) (g : Nat) :
    (l.install c).channel? g =
      (l.channel? g).or (if c.generation = g then some c else none) := by
  simp only [channel?, install, List.find?_append, List.find?_cons, List.find?_nil]
  by_cases hg : c.generation = g <;> simp [hg]

/-- A channel of a new generation may be installed. -/
theorem Sound.install (h : l.Sound) {c : Channel} (hc : c.Sound)
    (hn : l.channel? c.generation = none) : (l.install c).Sound ∧ l.Ages (l.install c) := by
  refine ⟨⟨fun d hd => ?_, ?_, fun g hg => ?_⟩, fun g d hd => ⟨d, ?_, .refl d⟩⟩
  · cases List.mem_append.mp hd with
    | inl hd => exact h.channels d hd
    | inr hd => exact List.mem_singleton.mp hd ▸ hc
  · simp only [Link.install, List.map_append, List.map_cons, List.map_nil]
    refine List.nodup_append.mpr ⟨h.nodup, by simp, fun g hg g' hg' e => ?_⟩
    obtain ⟨d, hd, hdg⟩ := List.mem_map.mp hg
    have := List.find?_eq_none.mp hn d hd
    simp [hdg, e, List.mem_singleton.mp hg'] at this
  · cases hg
    exact ⟨c, by simp [channel?_install, hn]⟩
  · simp [channel?_install, hd]

/-- A line is for the installed channel, or changes nothing. -/
theorem hear_cases {g : Nat} {line : String} (hl : l.hear g line = some l') :
    (l' = l ∧ ∀ c, l.installed? = some c → c.generation ≠ g) ∨
      ∃ c c', l.installed? = some c ∧ c.generation = g ∧ c.handleLine line = .ok c' ∧
        l' = l.update g fun _ => c' := by
  unfold hear at hl
  cases hi : l.installed? with
  | none =>
    simp only [hi, Option.some.injEq] at hl
    exact .inl ⟨hl.symm, fun _ h => by cases h⟩
  | some c =>
    simp only [hi] at hl
    by_cases hg : c.generation = g
    · rw [if_neg (not_not_intro hg)] at hl
      cases hc : c.handleLine line with
      | error digits => simp [hc] at hl
      | ok c' =>
        simp only [hc, Option.some.injEq] at hl
        exact .inr ⟨c, c', rfl, hg, hc, hl.symm⟩
    · rw [if_pos hg, Option.some.injEq] at hl
      refine .inl ⟨hl.symm, fun d hd => ?_⟩
      cases hd
      exact hg

theorem channel_of_installed {c : Channel} (h : l.installed? = some c) :
    l.installed = some c.generation ∧ l.channel? c.generation = some c := by
  obtain ⟨g, hg, hc⟩ := Option.bind_eq_some_iff.mp h
  rw [(mem_of_channel hc).2]
  exact ⟨hg, hc⟩

/-! Reports of another generation than that of the installed channel change nothing. -/

theorem generation_of_superseded {g : Nat} (hg : l.installed ≠ some g) {c : Channel}
    (hc : l.installed? = some c) : c.generation ≠ g := fun he => hg (he ▸ (channel_of_installed hc).1)

theorem hear_superseded {g : Nat} (hg : l.installed ≠ some g) (line : String) :
    l.hear g line = some l := by
  unfold hear
  cases hc : l.installed? with
  | none => rfl
  | some c => exact if_pos (generation_of_superseded hg hc)

theorem markCrashed_superseded {g : Nat} (hg : l.installed ≠ some g) (exitCode : Option Int) :
    l.markCrashed g exitCode = l := by
  unfold markCrashed
  cases hc : l.installed? with
  | none => rfl
  | some c => exact if_pos (generation_of_superseded hg hc)

/-- What is reported leaves the numbers of the next requests. -/
def KeepsCount (l l' : Link) : Prop :=
  ∀ g c, l.channel? g = some c → ∃ c', l'.channel? g = some c' ∧ c'.nextId = c.nextId

theorem KeepsCount.refl (l : Link) : l.KeepsCount l := fun _ c hc => ⟨c, hc, rfl⟩

theorem KeepsCount.trans (h : l.KeepsCount l') (h' : l'.KeepsCount l'') : l.KeepsCount l'' := by
  intro g c hc
  obtain ⟨c₁, hc₁, h₁⟩ := h g c hc
  obtain ⟨c₂, hc₂, h₂⟩ := h' g c₁ hc₁
  exact ⟨c₂, hc₂, h₂.trans h₁⟩

theorem Sound.keepsCount_update (h : l.Sound) {g : Nat} {f : Channel → Channel}
    (hf : ∀ c, l.channel? g = some c → (f c).generation = c.generation ∧ (f c).nextId = c.nextId) :
    l.KeepsCount (l.update g f) := by
  intro g' c hc
  have hgen : ∀ d ∈ l.channels, d.generation = g → (f d).generation = g := fun d hd hg =>
    (hf d (hg ▸ h.channel_of_mem hd)).1.trans hg
  rw [channel?_update l hgen]
  by_cases hg : g' = g
  · subst hg
    exact ⟨f c, by simp [hc], (hf c hc).2⟩
  · exact ⟨c, by simp [hg, hc], rfl⟩

theorem keepsCount_respects :
    listener.Respects fun l l' => l.Sound → l.Hears l' ∧ l.KeepsCount l' where
  refl l h := ⟨.refl h, .refl l⟩
  trans h h' hs := by
    obtain ⟨hears, hcount⟩ := h hs
    obtain ⟨hears', hcount'⟩ := h' hears.sound
    exact ⟨hears.trans hears', hcount.trans hcount'⟩
  heard {l l' g line} hl hs := by
    refine ⟨hs.hear hl, ?_⟩
    rcases hear_cases hl with ⟨rfl, -⟩ | ⟨c, c', hi, rfl, hline, rfl⟩
    · exact .refl _
    · obtain ⟨-, hc⟩ := channel_of_installed hi
      refine hs.keepsCount_update fun d hd => ?_
      cases hc.symm.trans hd
      have hage := ((hs.channel hc).handleLine hline).2
      obtain ⟨reading, -, rfl⟩ := Channel.handleLine_ok hline
      obtain ⟨pending, settled, he, -⟩ := c.take_eq line reading
      exact ⟨hage.generation, by rw [he]⟩
  ended l g exitCode hs := by
    refine ⟨hs.markCrashed g exitCode, ?_⟩
    have hclose : l.KeepsCount (l.update g fun c => c.close (crashReason exitCode)) := by
      refine hs.keepsCount_update fun c _ => ?_
      unfold Channel.close
      split <;> exact ⟨rfl, rfl⟩
    simp only [listener, markCrashed]
    split
    · exact .refl l
    · split
      · exact .refl l
      · split
        · exact hclose
        · exact hclose

/-- As long as no channel is installed, reports change nothing. -/
theorem silent_respects : listener.Respects fun l l' => l.installed = none → l' = l where
  refl _ _ := rfl
  trans {a b c} h h' hn := by
    have hb := h hn
    rw [h' (hb ▸ hn), hb]
  heard {l l' g line} hl hn := by
    have hne : l.installed ≠ some g := by simp [hn]
    exact Option.some.inj (hl.symm.trans (hear_superseded hne line))
  ended l g exitCode hn := markCrashed_superseded (by simp [hn]) exitCode

end Link

namespace Supervisor

/-- What a child of another generation does changes nothing but what is known of the children. -/
theorem act_superseded {σ : Type} {s : Supervisor σ Link} {g : Nat}
    (hg : s.owner.installed ≠ some g) (a : Act) :
    ∃ children endedGeneration,
      s.act Link.listener g a = { s with children, endedGeneration } := by
  generalize ht : s.act Link.listener g a = t
  cases ht ▸ act_effect Link.listener g s a with
  | nothing => exact ⟨s.children, s.endedGeneration, rfl⟩
  | becomes => exact ⟨_, s.endedGeneration, rfl⟩
  | reports howner =>
    have hsame := (Link.hear_superseded hg _).symm.trans howner
    cases hsame
    exact ⟨s.children, s.endedGeneration, rfl⟩
  | ends _ _ _ =>
    rename_i d _ _ _
    refine ⟨(s.setChild g { d with reading := false }).children, max s.endedGeneration g, ?_⟩
    have howner : Link.listener.ended s.owner g d.exitCode = s.owner :=
      Link.markCrashed_superseded hg _
    simp only [endOutput, setChild, howner]

end Supervisor

end AssemblyBrowser
