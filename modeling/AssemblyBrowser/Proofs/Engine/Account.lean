import AssemblyBrowser.Proofs.Engine.Conduct
import AssemblyBrowser.Proofs.Engine.Passage
import AssemblyBrowser.Proofs.Engine.Run
import AssemblyBrowser.Proofs.Engine.Steady
/-!
A session of which a history gives account: all that is written is a numbered request, and its
channels are accounted for. Only the installed channel is open, only an open one has a request that
waits, and the child behind it is one whose lines are reported; so what a child prints is either
taken by the channel that waits or decides nothing. Main statement: whatever is done with a session,
and whatever its children do, leaves it accounted for.
-/
namespace AssemblyBrowser

open History

/-! ## Links -/

namespace Link

variable {l l' : Link} {past : List Passage} {g : Nat}

/-- The requests that wait at a generation. -/
def waiting (l : Link) (g : Nat) : List (Nat × Command) :=
  ((l.channel? g).map Channel.pending).getD []

theorem waiting_of_channel {c : Channel} (hc : l.channel? g = some c) : l.waiting g = c.pending := by
  simp [waiting, hc]

theorem waiting_of_none (hc : l.channel? g = none) : l.waiting g = [] := by
  simp [waiting, hc]

/-- No request waits afterwards that did not wait before. -/
def Calms (l l' : Link) : Prop := ∀ g p, p ∈ l'.waiting g → p ∈ l.waiting g

theorem Calms.refl (l : Link) : l.Calms l := fun _ _ hp => hp

theorem Calms.trans {l'' : Link} (h : l.Calms l') (h' : l'.Calms l'') : l.Calms l'' :=
  fun g p hp => h g p (h' g p hp)

theorem Calms.of_channels (h : l'.channels = l.channels) : l.Calms l' := by
  intro g p hp
  simp only [waiting, channel?, h] at hp
  exact hp

theorem calms_update {f : Channel → Channel}
    (hf : ∀ c, l.channel? g = some c → ∀ p ∈ (f c).pending, p ∈ c.pending)
    (hgen : ∀ c ∈ l.channels, c.generation = g → (f c).generation = g) :
    l.Calms (l.update g f) := by
  intro g' p hp
  by_cases hg : g' = g
  · subst hg
    cases hc : l.channel? g' with
    | none =>
      simp [waiting, channel?_update l hgen, hc] at hp
    | some c =>
      have hupdate : (l.update g' f).channel? g' = some (f c) := by
        rw [channel?_update l hgen, if_pos rfl, hc]
        rfl
      rw [waiting_of_channel hupdate] at hp
      rw [waiting_of_channel hc]
      exact hf c hc p hp
  · have hsame : (l.update g f).channel? g' = l.channel? g' := by
      rw [channel?_update l hgen, if_neg hg]
    simp only [waiting, hsame] at hp
    exact hp

/-- The requests of every channel are accounted for, and nothing is written where there is none. Only
the installed channel is open, and only an open one has a request that waits. -/
structure Accounted (past : List Passage) (l : Link) : Prop where
  channel : ∀ g c, l.channel? g = some c → c.Accounted past
  unwritten : ∀ g, l.channel? g = none → writes past g = 0
  opened : ∀ g c, l.channel? g = some c → c.isClosed = false → l.installed = some g
  closed : ∀ g c, l.channel? g = some c → c.isClosed = true → c.pending = []

namespace Accounted

variable (h : l.Accounted past)
include h

/-- A request waits at the installed channel only. -/
theorem waiting_of_not_installed (hg : l.installed ≠ some g) : l.waiting g = [] := by
  cases hc : l.channel? g with
  | none => exact waiting_of_none hc
  | some c =>
    rw [waiting_of_channel hc]
    cases hclosed : c.isClosed with
    | true => exact h.closed g c hc hclosed
    | false => exact absurd (h.opened g c hc hclosed) hg

theorem of_channels (hc : l'.channels = l.channels) (hi : l'.installed = l.installed) :
    l'.Accounted past := by
  have hsame : ∀ g, l'.channel? g = l.channel? g := fun g => by rw [channel?, hc]; rfl
  refine ⟨fun g c hg => ?_, fun g hg => ?_, fun g c hg ho => ?_, fun g c hg => ?_⟩
  · exact h.channel g c ((hsame g).symm.trans hg)
  · exact h.unwritten g ((hsame g).symm.trans hg)
  · exact hi.trans (h.opened g c ((hsame g).symm.trans hg) ho)
  · exact h.closed g c ((hsame g).symm.trans hg)

/-- One channel is replaced, and what is laid down concerns no other. -/
theorem replace {past' : List Passage} {f : Channel → Channel}
    (hgen : ∀ c ∈ l.channels, c.generation = g → (f c).generation = g)
    (hother : ∀ c : Channel, c.generation ≠ g → c.Accounted past → c.Accounted past')
    (hwrites : ∀ g' ≠ g, writes past' g' = writes past g')
    (hf : ∀ c, l.channel? g = some c → (f c).Accounted past' ∧
      ((f c).isClosed = false → c.isClosed = false) ∧ ((f c).isClosed = true → (f c).pending = []))
    (hn : l.channel? g = none → writes past' g = writes past g) :
    (l.update g f).Accounted past' := by
  have hg' : ∀ {g' c}, g' ≠ g → (l.update g f).channel? g' = some c → l.channel? g' = some c := by
    intro g' c hne hc
    rw [channel?_update l hgen, if_neg hne] at hc
    exact hc
  have hg : ∀ {c}, (l.update g f).channel? g = some c → ∃ d, l.channel? g = some d ∧ c = f d := by
    intro c hc
    rw [channel?_update l hgen, if_pos rfl, Option.map_eq_some_iff] at hc
    obtain ⟨d, hd, he⟩ := hc
    exact ⟨d, hd, he.symm⟩
  refine ⟨fun g' c hc => ?_, fun g' hc => ?_, fun g' c hc ho => ?_, fun g' c hc ho => ?_⟩
  · by_cases hne : g' = g
    · subst hne
      obtain ⟨d, hd, rfl⟩ := hg hc
      exact (hf d hd).1
    · have hold := hg' hne hc
      have hsame := (mem_of_channel hold).2
      exact hother c (hsame ▸ hne) (h.channel g' c hold)
  · rw [channel?_update l hgen] at hc
    by_cases hne : g' = g
    · subst hne
      rw [if_pos rfl, Option.map_eq_none_iff] at hc
      rw [hn hc]
      exact h.unwritten g' hc
    · rw [if_neg hne] at hc
      rw [hwrites g' hne]
      exact h.unwritten g' hc
  · by_cases hne : g' = g
    · subst hne
      obtain ⟨d, hd, rfl⟩ := hg hc
      exact h.opened g' d hd ((hf d hd).2.1 ho)
    · exact h.opened g' c (hg' hne hc) ho
  · by_cases hne : g' = g
    · subst hne
      obtain ⟨d, hd, rfl⟩ := hg hc
      exact (hf d hd).2.2 ho
    · exact h.closed g' c (hg' hne hc) ho

theorem close (g : Nat) (reason : String) :
    (l.update g (·.close reason)).Accounted past := by
  refine h.replace (fun c _ hc => (c.generation_close reason).trans hc) (fun _ _ hc => hc)
    (fun _ _ => rfl) (fun c hc => ?_) fun _ => rfl
  refine ⟨(h.channel g c hc).close reason, fun ho => ?_, fun _ => ?_⟩
  · rw [c.isClosed_close reason] at ho
    cases ho
  · -- it was closed before, or all that waited has failed
    unfold Channel.close
    split
    · rename_i hclosed
      exact h.closed g c hc hclosed
    · rfl

theorem markCrashed (g : Nat) (exitCode : Option Int) :
    (l.markCrashed g exitCode).Accounted past := by
  have hclose := h.close g (crashReason exitCode)
  unfold Link.markCrashed
  split
  · exact h
  · split
    · exact h
    · dsimp only
      split
      · exact hclose.of_channels rfl rfl
      · exact hclose

/-- A child does what decides none of the requests that wait. -/
theorem idle {a : Act} (hv : ∀ id command, (id, command) ∈ l.waiting g →
    (Passage.did g a).verdict? g id command = none) :
    l.Accounted (past ++ [.did g a]) := by
  have hsame : ∀ g', writes (past ++ [.did g a]) g' = writes past g' := fun _ => writes_concat rfl
  refine ⟨fun g' c hc => ?_, fun g' hc => (hsame g').trans (h.unwritten g' hc), h.opened, h.closed⟩
  refine (h.channel g' c hc).pass rfl fun id command hp => ?_
  rw [(mem_of_channel hc).2]
  by_cases hg : g = g'
  · subst hg
    rw [← waiting_of_channel hc] at hp
    exact hv id command hp
  · exact Passage.verdict_other hg a

/-- A line is taken by the channel that waits for it, or by none. -/
theorem hear {line : String} (hne : Text.trim line ≠ "") (hl : l.hear g (Text.trim line) = some l') :
    l'.Accounted (past ++ [.did g (.print line)]) := by
  rcases hear_cases hl with ⟨rfl, hnone⟩ | ⟨c, c', hi, rfl, hline, rfl⟩
  · refine h.idle fun id command hp => ?_
    have hg : l'.installed ≠ some g := by
      intro hg
      cases hc : l'.channel? g with
      | none =>
        rw [waiting_of_none hc] at hp
        cases hp
      | some c => exact hnone c ((installed?_eq hg).trans hc) (mem_of_channel hc).2
    rw [h.waiting_of_not_installed hg] at hp
    cases hp
  · obtain ⟨-, hc⟩ := channel_of_installed hi
    obtain ⟨reading, hr, rfl⟩ := Channel.handleLine_ok hline
    obtain ⟨pending, settled, htake, hsub⟩ := c.take_eq (Text.trim line) reading
    refine h.replace (fun _ _ _ => by rw [htake]) (fun d hd ha => ?_) (fun _ _ => writes_concat rfl)
      (fun d hd => ?_) fun hn => ?_
    · exact ha.pass rfl fun _ _ _ => Passage.verdict_other (Ne.symm hd) _
    · cases hc.symm.trans hd
      refine ⟨(h.channel _ c hc).take hne hr, fun ho => ?_, fun ho => ?_⟩
      · rw [htake] at ho
        exact ho
      · rw [htake] at ho ⊢
        have hnone := h.closed _ c hc ho
        rw [hnone] at hsub
        exact List.sublist_nil.mp hsub
    · rw [hc] at hn
      cases hn

/-- A request is registered where none waits, and written. -/
theorem register {c : Channel} (hc : l.channel? g = some c) (hopen : c.isClosed = false)
    (hnone : c.pending = []) (command : Command) (arguments : Fields) :
    (l.update g fun _ => (c.register command arguments).2).Accounted
      (past ++ [.wrote g (Request.encode ⟨c.nextId, command, arguments⟩)]) := by
  have hg : c.generation = g := (mem_of_channel hc).2
  have hother : ∀ g' ≠ g,
      (Passage.wrote g (Request.encode ⟨c.nextId, command, arguments⟩)).isWrite g' = false := by
    intro g' hne
    simp [Passage.isWrite, Ne.symm hne]
  refine h.replace (fun _ _ _ => hg) (fun d hd ha => ?_) (fun g' hne => writes_concat (hother g' hne))
    (fun d hd => ?_) fun hn => ?_
  · exact ha.pass (hother _ hd) fun _ _ _ => rfl
  · cases hc.symm.trans hd
    have hregister := (h.channel g c hc).register hnone command arguments
    rw [hg] at hregister
    refine ⟨hregister, fun _ => hopen, fun ho => ?_⟩
    rw [show (c.register command arguments).2.isClosed = c.isClosed from rfl, hopen] at ho
    cases ho
  · rw [hc] at hn
    cases hn

/-- The installed channel may be taken away once it is closed. -/
theorem uninstall (hclosed : ∀ g c, l.installed = some g → l.channel? g = some c →
    c.isClosed = true) : ({ l with installed := none } : Link).Accounted past := by
  refine ⟨h.channel, h.unwritten, fun g c hc ho => ?_, h.closed⟩
  have hopen : l.channel? g = some c := hc
  rw [hclosed g c (h.opened g c hopen ho) hopen] at ho
  cases ho

/-- Nothing has been written to the child of a new channel. -/
theorem install (hn : l.installed = none) {timeout : Number} (hnew : l.channel? g = none) :
    (l.install { generation := g, timeout }).Accounted past := by
  have hcases : ∀ {g' c}, (l.install { generation := g, timeout }).channel? g' = some c →
      l.channel? g' = some c ∨ g = g' ∧ c = { generation := g, timeout } := by
    intro g' c hc
    rw [channel?_install, Option.or_eq_some_iff] at hc
    rcases hc with hold | ⟨-, hnew⟩
    · exact .inl hold
    · split at hnew
      · rename_i hg
        exact .inr ⟨hg, (Option.some.inj hnew).symm⟩
      · cases hnew
  refine ⟨fun g' c hc => ?_, fun g' hc => ?_, fun g' c hc ho => ?_, fun g' c hc ho => ?_⟩
  · rcases hcases hc with hold | ⟨-, rfl⟩
    · exact h.channel g' c hold
    · exact .fresh (h.unwritten g hnew)
  · rw [channel?_install, Option.or_eq_none_iff] at hc
    exact h.unwritten g' hc.1
  · rcases hcases hc with hold | ⟨rfl, -⟩
    · have hi := h.opened g' c hold ho
      rw [hn] at hi
      cases hi
    · rfl
  · rcases hcases hc with hold | ⟨-, rfl⟩
    · exact h.closed g' c hold ho
    · rfl

theorem forget (g id : Nat) : (l.update g (·.forget id)).Accounted past := by
  refine h.replace (fun _ _ hc => hc) (fun _ _ hc => hc) (fun _ _ => rfl) (fun c hc => ?_) fun _ => rfl
  refine ⟨(h.channel g c hc).forget id, fun ho => ho, fun ho => ?_⟩
  have hnone : c.pending = [] := h.closed g c hc ho
  show (c.pending.filter _) = []
  rw [hnone]
  rfl

end Accounted

theorem calms_forget (l : Link) (g id : Nat) : l.Calms (l.update g (·.forget id)) :=
  calms_update (fun _ _ _ hp => (List.mem_filter.mp hp).1) fun _ _ hc => hc

theorem calms_close (l : Link) (g : Nat) (reason : String) : l.Calms (l.update g (·.close reason)) :=
  calms_update (fun c _ => c.pending_close reason) fun c _ hc => (c.generation_close reason).trans hc

theorem calms_install (l : Link) (g : Nat) (timeout : Number) :
    l.Calms (l.install { generation := g, timeout }) := by
  intro g' p hp
  simp only [waiting, channel?_install] at hp
  cases hc : l.channel? g' with
  | some c =>
    rw [hc] at hp
    rw [waiting_of_channel hc]
    exact hp
  | none =>
    rw [hc] at hp
    simp only [Option.none_or] at hp
    split at hp <;> simp at hp

/-- A request that is forgotten does not wait. -/
theorem waiting_forget {l : Link} {g id : Nat} {p : Nat × Command}
    (hp : p ∈ (l.update g (·.forget id)).waiting g) : p ∈ l.waiting g ∧ p.1 ≠ id := by
  refine ⟨l.calms_forget g id g p hp, ?_⟩
  cases hc : l.channel? g with
  | none =>
    have hold := l.calms_forget g id g p hp
    rw [waiting_of_none hc] at hold
    cases hold
  | some c =>
    have hforget : (l.update g (·.forget id)).channel? g = some (c.forget id) := by
      rw [channel?_update l (f := (·.forget id)) fun _ _ hd => hd, if_pos rfl, hc]
      rfl
    rw [waiting_of_channel hforget] at hp
    simpa using (List.mem_filter.mp hp).2

/-- No report makes a request wait. -/
theorem calms_respects : listener.Respects Calms where
  refl := .refl
  trans h h' := h.trans h'
  heard {l l' g line} hl := by
    rcases hear_cases hl with ⟨rfl, -⟩ | ⟨c, c', hi, rfl, hline, rfl⟩
    · exact .refl _
    · obtain ⟨-, hc⟩ := channel_of_installed hi
      obtain ⟨reading, -, rfl⟩ := Channel.handleLine_ok hline
      obtain ⟨pending, settled, htake, hsub⟩ := c.take_eq line reading
      rw [htake]
      refine calms_update (fun d hd p hp => ?_) fun _ _ _ => rfl
      cases hc.symm.trans hd
      exact hsub.mem hp
  ended l g exitCode := by
    have hclose := l.calms_close g (crashReason exitCode)
    simp only [listener, Link.markCrashed]
    split
    · exact .refl l
    · split
      · exact .refl l
      · split
        · exact hclose
        · exact hclose

theorem installed_markCrashed (l : Link) (g : Nat) (exitCode : Option Int) :
    (l.markCrashed g exitCode).installed = l.installed := by
  unfold Link.markCrashed
  split
  · rfl
  · split
    · rfl
    · dsimp only
      split <;> rfl

/-- After the end of its child no request waits at a generation. -/
theorem Accounted.waiting_markCrashed (h : l.Accounted past) (g : Nat) (exitCode : Option Int) :
    (l.markCrashed g exitCode).waiting g = [] := by
  have hcrashed := h.markCrashed g exitCode
  by_cases hg : l.installed = some g
  · cases hc : l.channel? g with
    | none =>
      have hwait := calms_respects.ended l g exitCode g
      rw [waiting_of_none hc] at hwait
      exact List.eq_nil_iff_forall_not_mem.mpr fun p hp => by cases hwait p hp
    | some c =>
      have hi : l.installed? = some c := (installed?_eq hg).trans hc
      have hsame := (mem_of_channel hc).2
      have hchannel : (l.markCrashed g exitCode).channel? g =
          some (c.close (crashReason exitCode)) := by
        have hupdate := l.channel?_update (g := g) (f := (·.close (crashReason exitCode)))
          (fun d _ hd => (d.generation_close _).trans hd) g
        rw [if_pos rfl, hc] at hupdate
        simp only [Link.markCrashed, hi, hsame, ne_eq, not_true_eq_false, if_false]
        split
        · exact hupdate
        · exact hupdate
      rw [waiting_of_channel hchannel]
      exact hcrashed.closed g _ hchannel (c.isClosed_close _)
  · apply hcrashed.waiting_of_not_installed
    rw [installed_markCrashed]
    exact hg

theorem readLine_of_hear_none {line : String} (hl : l.hear g line = none) :
    ∃ digits, Channel.readLine line = .error digits := by
  unfold hear at hl
  split at hl
  · cases hl
  · split at hl
    · cases hl
    · rename_i c _ _
      cases hr : Channel.readLine line with
      | error digits => exact ⟨digits, rfl⟩
      | ok reading => simp [Channel.handleLine, hr, Except.map] at hl

end Link

/-! ## What a child does -/

namespace Supervisor

variable {τ : Type}

/-- A line changes nothing for the session; or it is reported; or it ends the output of the child,
for it cannot be read as an answer. -/
theorem hear_cases {s : Supervisor τ Link} {g : Nat} {c : Child} (hc : s.child? g = some c)
    (line : String) :
    let t := s.hear Link.listener g c line
    (t.owner = s.owner ∧ ((¬∃ d, s.child? g = some d ∧ d.Speaks) ∨
      t = s ∧ ∀ id command, (Passage.did g (.print line)).verdict? g id command = none)) ∨
    (Text.trim line ≠ "" ∧ s.owner.hear g (Text.trim line) = some t.owner ∧
      t.children = s.children) ∨
    ((∃ exitCode, t.owner = s.owner.markCrashed g exitCode) ∧
      ∀ id command, (Passage.did g (.print line)).verdict? g id command = none) := by
  intro t
  by_cases hne : Text.trim line = ""
  · refine .inl ⟨?_, .inr ⟨?_, fun _ _ => ?_⟩⟩
    · simp [t, Supervisor.hear, hne]
    · simp [t, Supervisor.hear, hne]
    · simp [Passage.verdict?, hne]
  · cases hgreet : c.greeting with
    | none =>
      have hnot : ¬∃ d, s.child? g = some d ∧ d.Speaks := by
        rintro ⟨d, hd, hs⟩
        obtain rfl := Option.some.inj (hc.symm.trans hd)
        have hgreeted := hs.greeted
        rw [hgreet] at hgreeted
        cases hgreeted
      refine .inl ⟨?_, .inl hnot⟩
      simp [t, Supervisor.hear, hne, hgreet, setChild]
    | some greeting =>
      cases hheard : s.owner.hear g (Text.trim line) with
      | some owner =>
        refine .inr (.inl ⟨hne, ?_, ?_⟩)
        · simp [t, Supervisor.hear, hne, hgreet, Link.listener, hheard]
        · simp [t, Supervisor.hear, hne, hgreet, Link.listener, hheard]
      | none =>
        obtain ⟨digits, hr⟩ := Link.readLine_of_hear_none hheard
        refine .inr (.inr ⟨⟨c.exitCode, ?_⟩, fun _ _ => ?_⟩)
        · simp [t, Supervisor.hear, hne, hgreet, Link.listener, hheard, endOutput, setChild]
        · simp [Passage.verdict?, hne, hr]

/-- What a child does changes nothing for the session; or it prints a line that is reported; or its
output ends. -/
theorem act_cases (s : Supervisor τ Link) (g : Nat) (a : Act) :
    let t := s.act Link.listener g a
    (t.owner = s.owner ∧ ((¬∃ d, s.child? g = some d ∧ d.Speaks) ∨
      t = s ∧ ∀ id command, (Passage.did g a).verdict? g id command = none)) ∨
    (∃ line, a = .print line ∧ Text.trim line ≠ "" ∧
      s.owner.hear g (Text.trim line) = some t.owner ∧ t.children = s.children) ∨
    ((∃ exitCode, t.owner = s.owner.markCrashed g exitCode) ∧
      ∀ id command, (Passage.did g a).verdict? g id command = none) := by
  intro t
  cases hc : s.child? g with
  | none =>
    have ht : t = s := by simp [t, Supervisor.act, hc]
    have hnot : ¬∃ d, (none : Option Child) = some d ∧ d.Speaks := by
      rintro ⟨d, hd, -⟩
      cases hd
    exact .inl ⟨by rw [ht], .inl hnot⟩
  | some c =>
    cases hread : c.reading with
    | false =>
      have hnot : ¬∃ d, some c = some d ∧ d.Speaks := by
        rintro ⟨d, hd, hs⟩
        cases hd
        rw [hs.reading] at hread
        cases hread
      refine .inl ⟨?_, .inl hnot⟩
      cases a <;> simp [t, Supervisor.act, hc, hread, setChild]
    | true =>
      cases a with
      | closeOutput =>
        refine .inr (.inr ⟨⟨c.exitCode, ?_⟩, fun _ _ => rfl⟩)
        simp [t, Supervisor.act, hc, hread, endOutput, setChild, Link.listener]
      | exit code =>
        refine .inr (.inr ⟨⟨c.exitCode.or (some code), ?_⟩, fun _ _ => rfl⟩)
        simp [t, Supervisor.act, hc, hread, endOutput, setChild, Link.listener]
      | print line =>
        have ht : t = s.hear Link.listener g c line := by simp [t, Supervisor.act, hc, hread]
        rw [ht, ← hc]
        rcases hear_cases hc line with hquiet | ⟨hne, hheard, hchildren⟩ | hover
        · exact .inl hquiet
        · exact .inr (.inl ⟨line, rfl, hne, hheard, hchildren⟩)
        · exact .inr (.inr hover)

end Supervisor

/-! ## Sessions -/

namespace Session

variable {τ : Type} {s t u : Session τ} {past : List Passage}

/-- A history gives account of a session. -/
structure Accounted (past : List Passage) (s : Session τ) : Prop where
  sound : s.Sound
  consistent : s.supervisor.Consistent
  link : s.link.Accounted past
  speaks : ∀ g, s.link.waiting g ≠ [] → ∃ d, s.supervisor.child? g = some d ∧ d.Speaks
  numbered : Numbered past

theorem accounted_new (settings : EngineSettings) (locator : Option Locator)
    (environment : OrderedMap String String) (w : τ) (traced : Bool) :
    (Session.new settings locator environment w traced).Accounted [] where
  sound := sound_new settings locator environment w traced
  consistent := ⟨fun _ hg => (by cases hg), fun g c hc => by simp [Session.new, Supervisor.child?] at hc⟩
  link := ⟨fun _ _ hc => (by cases hc), fun _ _ => rfl, fun _ _ hc => (by cases hc),
    fun _ _ hc => (by cases hc)⟩
  speaks _ hw := absurd rfl hw
  numbered _ _ _ hj := by cases hj

/-- What is done leaves the session accounted for, and no request waits that did not wait before. -/
structure Subsides (past : List Passage) (s t : Session τ) : Prop where
  accounted : t.Accounted past
  calms : s.link.Calms t.link

theorem Subsides.trans (h : s.Subsides past t) (h' : t.Subsides past u) : s.Subsides past u :=
  ⟨h'.accounted, h.calms.trans h'.calms⟩

namespace Accounted

variable (h : s.Accounted past)
include h

theorem refl : s.Subsides past s := ⟨h, .refl _⟩

/-- The link and the children are as before. -/
theorem same (hsound : t.Sound) (howner : t.link = s.link)
    (hchildren : t.supervisor.children = s.supervisor.children)
    (hheld : t.supervisor.held = s.supervisor.held)
    (hended : t.supervisor.endedGeneration = s.supervisor.endedGeneration) : s.Subsides past t := by
  refine ⟨⟨hsound, ?_, howner ▸ h.link, fun g hw => ?_, h.numbered⟩, howner ▸ .refl _⟩
  · exact h.consistent.of_children (fun g hg => hheld.symm.trans hg) hchildren hended
  · obtain ⟨d, hd, hs⟩ := h.speaks g (howner ▸ hw)
    exact ⟨d, (Supervisor.child?_congr hchildren g).trans hd, hs⟩

theorem of_trace (trace : Option (List TraceRecord)) : s.Subsides past { s with trace } :=
  h.same (h.sound.of_trace trace) rfl rfl rfl rfl

/-- The link is changed, so that no more requests wait. -/
theorem mapLink {f : Link → Link} (hsound : (s.mapLink f).Sound)
    (hlink : (f s.link).Accounted past) (hcalms : s.link.Calms (f s.link)) :
    s.Subsides past (s.mapLink f) := by
  refine ⟨⟨hsound, ?_, hlink, fun g hw => ?_, h.numbered⟩, hcalms⟩
  · exact h.consistent.of_children (fun _ hg => hg) rfl rfl
  · apply h.speaks g
    intro hnone
    obtain ⟨p, hp⟩ := List.exists_mem_of_ne_nil _ hw
    have hold := hcalms g p hp
    rw [hnone] at hold
    cases hold

theorem setState (state : SessionState) : s.Subsides past (s.setState state) :=
  h.mapLink (h.sound.setState state).sound (h.link.of_channels rfl rfl) (.of_channels rfl)

theorem mapLoaded (f : OrderedMap String Member → OrderedMap String Member) :
    s.Subsides past (s.mapLink fun l => { l with loaded := f l.loaded }) :=
  h.mapLink (h.sound.mapLoaded f).1 (h.link.of_channels rfl rfl) (.of_channels rfl)

theorem forget (g id : Nat) : s.Subsides past (s.mapLink fun l => l.update g (·.forget id)) :=
  h.mapLink (h.sound.forget g id).sound (h.link.forget g id) (s.link.calms_forget g id)

theorem isRunning : s.Subsides past s.isRunning.2 := by
  have hcrashed : s.Subsides past (s.mapLink (·.markCrashed s.generation none)) :=
    h.mapLink (f := (·.markCrashed s.generation none))
      (h.sound.mapLink (h.sound.link.markCrashed s.generation none)).sound
      (h.link.markCrashed s.generation none)
      (Link.calms_respects.ended s.link s.generation none)
  unfold Session.isRunning
  split
  · exact h.refl
  · split
    · exact h.refl
    · split
      · exact h.refl
      · exact hcrashed

/-- When no channel is installed, nothing of what is done with the engine matters to the link. -/
theorem silent (hn : s.link.installed = none) (hsound : t.Sound)
    (hconsistent : t.supervisor.Consistent) (howner : t.link = s.link) : s.Subsides past t := by
  refine ⟨⟨hsound, hconsistent, howner ▸ h.link, fun g hw => ?_, h.numbered⟩, howner ▸ .refl _⟩
  rw [howner, h.link.waiting_of_not_installed (by rw [hn]; simp)] at hw
  exact absurd rfl hw

theorem closeChannel (reason : String) : s.Subsides past (s.closeChannel reason) := by
  have hsound := (h.sound.closeChannel reason).1.sound
  unfold Session.closeChannel at hsound ⊢
  cases hi : s.link.installed with
  | none => exact h.refl
  | some g =>
    simp only [hi] at hsound ⊢
    refine h.mapLink hsound ((h.link.close g reason).uninstall fun g' c hg hc => ?_) ?_
    · have hsame : g' = g := Option.some.inj (hg.symm.trans hi)
      subst hsame
      rw [Link.channel?_update _ fun d _ hd => (d.generation_close reason).trans hd, if_pos rfl,
        Option.map_eq_some_iff] at hc
      obtain ⟨d, -, rfl⟩ := hc
      exact d.isClosed_close reason
    · exact (s.link.calms_close g reason).trans (.of_channels rfl)

theorem haltEngine (hn : s.link.installed = none) : s.Subsides past s.haltEngine := by
  have hstopping := h.setState .stopping
  have hstopped : (s.setState .stopping).Subsides past
      { s.setState .stopping with
        supervisor := (s.setState .stopping).supervisor.stop Link.listener } := by
    have howner := (Supervisor.stop_ages Link.silent_respects
      (s.setState .stopping).supervisor).owner hn
    obtain ⟨hmoves, -⟩ := hstopping.accounted.sound.onSupervisor
      (Supervisor.stop_ages Link.listener_respects (s.setState .stopping).supervisor) (.inl hn)
    exact hstopping.accounted.silent hn hmoves.sound
      ((Supervisor.consistent_keptByStop _).stop hstopping.accounted.consistent) howner
  unfold Session.haltEngine
  split
  · exact h.refl
  · exact (hstopping.trans hstopped).trans (hstopped.accounted.setState .stopped)

theorem teardown (reason : String) : s.Subsides past (s.teardown reason) := by
  have hteardown : s.teardown reason = (s.closeChannel reason).haltEngine := rfl
  have hclose := h.closeChannel reason
  rw [hteardown]
  exact hclose.trans (hclose.accounted.haltEngine (h.sound.closeChannel reason).2)

/-- The channel of a new engine is installed. -/
theorem settleLaunch_ok (hn : s.link.installed = none) {g : Nat} (hg : g = s.generation)
    (hnew : s.link.channel? g = none) : s.Subsides past (settleLaunch (.ok g) s).2 := by
  let c : Channel := { generation := g, timeout := s.settings.requestTimeout }
  exact h.mapLink (f := fun l => { l.install c with state := .running })
    (h.sound.settleLaunch_ok hg hnew).sound ((h.link.install hn hnew).of_channels rfl rfl)
    ((s.link.calms_install g _).trans (.of_channels rfl))

theorem launch (program : Program τ) : s.Subsides past ((Session.launch program).runFrom s).2 := by
  have hdown := h.teardown "engine restarting"
  obtain ⟨hmoves, hn, hidle⟩ := h.sound.teardown "engine restarting"
  rw [launch_run]
  generalize hready : (s.teardown "engine restarting").setState .starting = ready
  have hstarting : s.Subsides past ready :=
    hready ▸ hdown.trans (hdown.accounted.setState .starting)
  have hn : ready.link.installed = none := hready ▸ hn
  have hidle : ready.supervisor.isRunning = false := hready ▸ hidle
  have hr := hstarting.accounted
  have howner := (Supervisor.start_ages Link.silent_respects program ready.supervisor).owner hn
  obtain ⟨hstarted, -⟩ := hr.sound.onSupervisor
    (Supervisor.start_ages Link.listener_respects program ready.supervisor) (.inl hn)
  have hconsistent := (Supervisor.consistent_keptByStart program Link.listener).start hr.consistent
  cases hstart : (Supervisor.start program Link.listener).runFrom ready.supervisor with
  | mk r u =>
    rw [hstart] at howner hstarted hconsistent
    have hlater := hstarting.trans (hr.silent hn hstarted.sound hconsistent howner)
    have hn' : ({ ready with supervisor := u } : Session τ).link.installed = none :=
      (congrArg Link.installed howner).trans hn
    cases r with
    | error f =>
      cases f with
      | engine e => exact hlater.trans (hlater.accounted.setState .stopped)
      | _ => exact hlater
    | ok g =>
      obtain ⟨hg, hnew, -⟩ := Supervisor.start_ok Link.listener program hidle hstart
      refine hlater.trans (hlater.accounted.settleLaunch_ok hn' hg ?_)
      cases hc : ({ ready with supervisor := u } : Session τ).link.channel? g with
      | none => rfl
      | some c =>
        have hold : ready.link.channel? g = some c := by
          rw [← hc]
          exact congrArg (Link.channel? · g) howner.symm
        have hle := (hr.sound.channels g c hold).1
        have hgen : ready.generation = ready.supervisor.generation := rfl
        omega

/-- A child does something. -/
theorem act (g : Nat) (a : Act) :
    ({ s with supervisor := s.supervisor.act Link.listener g a } : Session τ).Accounted
      (past ++ [.did g a]) ∧
    s.link.Calms (s.supervisor.act Link.listener g a).owner := by
  have hcalms : s.link.Calms (s.supervisor.act Link.listener g a).owner :=
    Supervisor.owner_act Link.calms_respects g s.supervisor a
  have hothers := (Supervisor.act_turn Link.listener g s.supervisor a).others
  have hwaits : ∀ g', (s.supervisor.act Link.listener g a).owner.waiting g' ≠ [] →
      s.link.waiting g' ≠ [] := by
    intro g' hw hnone
    obtain ⟨p, hp⟩ := List.exists_mem_of_ne_nil _ hw
    have hold := hcalms g' p hp
    rw [hnone] at hold
    cases hold
  have hspeaks : ∀ g' ≠ g, (s.supervisor.act Link.listener g a).owner.waiting g' ≠ [] →
      ∃ d, (s.supervisor.act Link.listener g a).child? g' = some d ∧ d.Speaks := by
    intro g' hne hw
    rw [hothers g' hne]
    exact h.speaks g' (hwaits g' hw)
  have hlink : (s.supervisor.act Link.listener g a).owner.Accounted (past ++ [.did g a]) ∧
      ((s.supervisor.act Link.listener g a).owner.waiting g ≠ [] →
        ∃ d, (s.supervisor.act Link.listener g a).child? g = some d ∧ d.Speaks) := by
    rcases s.supervisor.act_cases g a with ⟨howner, hquiet⟩ | ⟨line, rfl, hne, hheard, hchildren⟩ |
      ⟨⟨exitCode, howner⟩, hv⟩
    · rcases hquiet with hmute | ⟨hsame, hv⟩
      · -- no request waits for a child that is not heard
        have hnone : s.link.waiting g = [] := Decidable.byContradiction fun hw => hmute (h.speaks g hw)
        constructor
        · rw [howner]
          refine h.link.idle fun id command hp => ?_
          rw [hnone] at hp
          cases hp
        · exact fun hw => absurd hnone (hwaits g hw)
      · rw [hsame]
        exact ⟨h.link.idle fun id command _ => hv id command, h.speaks g⟩
    · refine ⟨h.link.hear hne hheard, fun hw => ?_⟩
      rw [Supervisor.child?_congr hchildren]
      exact h.speaks g (hwaits g hw)
    · rw [howner]
      refine ⟨(h.link.markCrashed g exitCode).idle fun id command _ => hv id command, fun hw => ?_⟩
      exact absurd (h.link.waiting_markCrashed g exitCode) hw
  refine ⟨⟨(h.sound.happen g [a]).sound, h.consistent.act g a, hlink.1, fun g' hw => ?_,
    h.numbered.did g a⟩, hcalms⟩
  by_cases hg : g' = g
  · subst hg
    exact hlink.2 hw
  · exact hspeaks g' hg hw

theorem acts (g : Nat) (as : List Act) :
    ({ s with supervisor := s.supervisor.acts Link.listener g as } : Session τ).Accounted
      (past ++ as.map (.did g)) ∧
    s.link.Calms (s.supervisor.acts Link.listener g as).owner := by
  induction as generalizing s past with
  | nil =>
    rw [List.map_nil, List.append_nil]
    exact ⟨h, .refl _⟩
  | cons a as ih =>
    obtain ⟨hact, hcalms⟩ := h.act g a
    obtain ⟨hrest, hcalms'⟩ := ih hact
    rw [List.map_cons, List.append_cons]
    exact ⟨hrest, hcalms.trans hcalms'⟩

/-- A request is registered with a channel at which none waits, and written. -/
theorem enlist {g : Nat} {c : Channel} (hc : s.link.channel? g = some c) {command : Command}
    (hr : s.refusal? g command = none) (hfree : s.link.waiting g = []) (arguments : Fields) :
    (s.enlist g c command arguments).Accounted
      (past ++ [.wrote g (Request.encode ⟨c.nextId, command, arguments⟩)]) ∧
    (∀ g' ≠ g, (s.enlist g c command arguments).link.waiting g' = s.link.waiting g') ∧
    (s.enlist g c command arguments).link.waiting g = [(c.nextId, command)] := by
  have hg : c.generation = g := (Link.mem_of_channel hc).2
  have hnone : c.pending = [] := (Link.waiting_of_channel hc).symm.trans hfree
  have hnext : c.nextId = writes past g + 1 := hg ▸ (h.link.channel g c hc).nextId
  have hopen : c.isClosed = false := by
    cases hclosed : c.closedReason with
    | none => simp [Channel.isClosed, hclosed]
    | some reason => simp [refusal?, hc, Channel.refusal?, hclosed] at hr
  have hchannel : ∀ g', (s.enlist g c command arguments).link.channel? g' =
      if g' = g then some (c.register command arguments).2 else s.link.channel? g' := by
    intro g'
    have hupdate := s.link.channel?_update (g := g) (f := fun _ => (c.register command arguments).2)
      (fun _ _ _ => hg) g'
    rw [hc] at hupdate
    exact hupdate
  have hothers : ∀ g' ≠ g,
      (s.enlist g c command arguments).link.waiting g' = s.link.waiting g' := by
    intro g' hne
    simp only [Link.waiting, hchannel g', if_neg hne]
  have hregistered : (s.enlist g c command arguments).link.waiting g = [(c.nextId, command)] := by
    simp [Link.waiting, hchannel g, Channel.register, hnone]
  refine ⟨⟨(h.sound.enlist hc command arguments).sound, ?_, ?_, fun g' hw => ?_, ?_⟩, hothers,
    hregistered⟩
  · exact h.consistent.of_children (fun _ hg => hg) rfl rfl
  · exact h.link.register hc hopen hnone command arguments
  · by_cases hne : g' = g
    · -- the child that is written to runs
      subst hne
      obtain ⟨hlast, hrunning⟩ := refusal_none hc hr
      obtain ⟨d, hd, hreading, hgreeted⟩ := h.consistent.isRunning h.sound.ended hrunning
      exact ⟨d, hlast ▸ hd, hreading, hgreeted⟩
    · rw [hothers g' hne] at hw
      exact h.speaks g' hw
  · refine h.numbered.concat fun g' line he => ?_
    cases he
    rw [hnext]
    exact ⟨_, command, arguments, asked_concat past g command arguments⟩

end Accounted

end Session

end AssemblyBrowser
