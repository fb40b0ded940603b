import AssemblyBrowser.Proofs.Engine.Orphan
import AssemblyBrowser.Proofs.Engine.Output
/-!
How the output of children reaches the owner of a supervisor. What every child does, and what is done to
it, is a list of acts. An owner who takes every line is called for each of them by what that list says.
-/
namespace AssemblyBrowser

/-! ## What the acts of children tell -/

namespace Supervisor

variable {σ ρ : Type} {heard : ρ → Nat → String → ρ} {ended : ρ → Nat → Option Int → ρ} {o : ρ}
  {s t : Supervisor σ ρ} {ds : List (Nat × Act)}

/-- The children are as their acts have made them, and the owner has been called for each of them as
its acts tell. -/
structure Told (heard : ρ → Nat → String → ρ) (ended : ρ → Nat → Option Int → ρ) (o : ρ)
    (s : Supervisor σ ρ) (ds : List (Nat × Act)) : Prop where
  calls : ∃ calls : List Notice, s.owner = calls.foldl (Notice.tell heard ended) o ∧
    ∀ g, calls.filter (·.generation = g) = Act.notices g (actsOf g ds)
  fits : ∀ g c, s.child? g = some c → c.Fits (actsOf g ds)
  known : ∀ g, g = 0 ∨ s.generation < g → actsOf g ds = []

theorem Told.of_same (h : Told heard ended o s ds) (hc : t.children = s.children)
    (ho : t.owner = s.owner) : Told heard ended o t ds where
  calls := ho ▸ h.calls
  fits g c hchild := h.fits g c ((child?_congr hc g).symm.trans hchild)
  known g hg := h.known g (by simpa only [generation, hc] using hg)

theorem Told.bear (h : Told heard ended o s ds) {c : Child} (hc : c.IsNew)
    (ht : t.children = s.children ++ [c]) (ho : t.owner = s.owner) : Told heard ended o t ds where
  calls := ho ▸ h.calls
  fits g d hd := by
    by_cases hg : g = t.generation
    · subst hg
      obtain rfl := Option.some.inj ((child?_append_new ht).symm.trans hd)
      rw [h.known t.generation (.inr (by rw [generation_append ht]; omega))]
      exact hc.fits
    · exact h.fits g d ((child?_append_old ht hg).symm.trans hd)
  known g hg := h.known g (by rw [generation_append ht] at hg; omega)

/-- A child acts, and the owner is called as this tells. -/
theorem Told.acted (h : Told heard ended o s ds) {g : Nat} {c d : Child} {a : Act}
    (hc : s.child? g = some c) (hturn : Turn g s t) (hd : t.child? g = some d)
    (hfits : d.Fits (actsOf g ds ++ [a])) (new : List Notice) (hnew : ∀ n ∈ new, n.generation = g)
    (hnotices : Act.notices g (actsOf g ds ++ [a]) = Act.notices g (actsOf g ds) ++ new)
    (ho : t.owner = new.foldl (Notice.tell heard ended) s.owner) :
    Told heard ended o t (ds ++ [(g, a)]) where
  calls := by
    obtain ⟨calls, howner, hcalls⟩ := h.calls
    refine ⟨calls ++ new, by rw [ho, howner, List.foldl_append], fun g' => ?_⟩
    rw [List.filter_append, hcalls, actsOf_snoc]
    split
    · rename_i hg
      subst hg
      rw [hnotices, List.filter_eq_self.mpr fun n hn => decide_eq_true (hnew n hn)]
    · rename_i hg
      rw [List.filter_eq_nil_iff.mpr fun n hn => by simpa [hnew n hn] using hg, List.append_nil]
  fits g' c' hc' := by
    rw [actsOf_snoc]
    split
    · rename_i hg
      subst hg
      obtain rfl := Option.some.inj (hd.symm.trans hc')
      exact hfits
    · rename_i hg
      exact h.fits g' c' ((hturn.others g' (Ne.symm hg)).symm.trans hc')
  known g' hg' := by
    have hle := child?_le hc
    rw [hturn.frame.generation] at hg'
    rw [actsOf_snoc, if_neg (by omega)]
    exact h.known g' hg'

/-- A line is skipped, or it is the greeting, or the owner is called for it. -/
theorem Told.hear (h : Told heard ended o s ds) {g : Nat} {c : Child} (hc : s.child? g = some c)
    (he : Act.ending? (actsOf g ds) = none) (line : String)
    (hturn : Turn g s (s.hear (.taking heard ended) g c line)) :
    Told heard ended o (s.hear (.taking heard ended) g c line) (ds ++ [(g, .print line)]) := by
  have hfits := h.fits g c hc
  have hopen : c.reading = true := by rw [hfits.reading, he]; rfl
  have hnotices := Act.notices_append_print he g line
  have hreading : c.reading = (Act.ending? (actsOf g ds ++ [.print line])).isNone := by
    rw [hopen, Act.ending?_append, he]
    rfl
  have hacted {t : Supervisor σ ρ} {d : Child} (hturn : Turn g s t) (hd : t.child? g = some d)
      (hg : d.greeting = (Act.lines (actsOf g ds ++ [.print line])).head?)
      (hr : d.reading = c.reading) (hx : d.exitCode = c.exitCode) (new : List Notice)
      (hnew : new = if Text.trim line = "" ∨ Act.lines (actsOf g ds) = [] then []
        else [.line g (Text.trim line)])
      (ho : t.owner = new.foldl (Notice.tell heard ended) s.owner) :
      Told heard ended o t (ds ++ [(g, .print line)]) := by
    have hfits' : d.Fits (actsOf g ds ++ [.print line]) :=
      ⟨hg, hr.trans hreading, fun hread => hx.trans (hfits.exitCode (hr ▸ hread))⟩
    refine h.acted hc hturn hd hfits' new ?_ (hnotices.trans (by rw [hnew])) ho
    intro n hn
    rw [hnew] at hn
    split at hn
    · cases hn
    · rw [List.mem_singleton.mp hn]
      rfl
  have hlines := Act.lines_append he [.print line]
  by_cases hb : Text.trim line = ""
  · have hhear : s.hear (.taking heard ended) g c line = s := by simp [Supervisor.hear, hb]
    rw [hhear]
    refine hacted (.refl g s) hc ?_ rfl rfl [] (by simp [hb]) rfl
    rw [hfits.greeting, hlines, Act.lines_print, if_pos hb, List.append_nil]
  · rw [Act.lines_print, if_neg hb] at hlines
    cases hgreeting : c.greeting with
    | none =>
      have hfirst : Act.lines (actsOf g ds) = [] :=
        List.head?_eq_none_iff.mp (hfits.greeting.symm.trans hgreeting)
      have hhear : s.hear (.taking heard ended) g c line =
          s.setChild g { c with greeting := some (Text.trim line) } := by
        simp [Supervisor.hear, hb, hgreeting]
      rw [hhear] at hturn ⊢
      exact hacted hturn (child?_setChild hc _) (by rw [hlines, hfirst]; rfl) rfl rfl []
        (by simp [hfirst]) rfl
    | some greeting =>
      have hlater : Act.lines (actsOf g ds) ≠ [] := fun e => by
        rw [hfits.greeting, e] at hgreeting
        cases hgreeting
      have hhear : s.hear (.taking heard ended) g c line =
          { s with owner := heard s.owner g (Text.trim line) } := by
        simp [Supervisor.hear, hb, hgreeting, Listener.taking]
      rw [hhear] at hturn ⊢
      refine hacted hturn hc ?_ rfl rfl [.line g (Text.trim line)] (by simp [hb, hlater]) rfl
      rw [hlines, List.head?_append, ← hfits.greeting, hgreeting, Option.some_or]

/-- Whatever a child does: its acts tell what becomes of it and for what the owner is called. -/
theorem Told.act (h : Told heard ended o s ds) {g : Nat} {c : Child} (hc : s.child? g = some c)
    (a : Act) : Told heard ended o (s.act (.taking heard ended) g a) (ds ++ [(g, a)]) := by
  have hfits := h.fits g c hc
  have hturn := act_turn (.taking heard ended) g s a
  cases he : Act.ending? (actsOf g ds) with
  | some e =>
    -- nothing is read any more
    have hclosed : c.reading = false := by rw [hfits.reading, he]; rfl
    have hacted {t : Supervisor σ ρ} {d : Child} (hturn : Turn g s t) (hd : t.child? g = some d)
        (hg : d.greeting = c.greeting) (hr : d.reading = false) (ho : t.owner = s.owner) :
        Told heard ended o t (ds ++ [(g, a)]) :=
      h.acted hc hturn hd (hfits.closed (.inl ⟨e, he⟩) hg hr) [] (by simp)
        (by rw [Act.notices_append_of_ended he, List.append_nil]) ho
    cases a with
    | print line =>
      have hact : s.act (.taking heard ended) g (.print line) = s := by
        simp [Supervisor.act, hc, hclosed]
      rw [hact]
      exact hacted (.refl g s) hc rfl hclosed rfl
    | closeOutput =>
      have hact : s.act (.taking heard ended) g .closeOutput = s := by
        simp [Supervisor.act, hc, hclosed]
      rw [hact]
      exact hacted (.refl g s) hc rfl hclosed rfl
    | exit code =>
      have hact : s.act (.taking heard ended) g (.exit code) =
          s.setChild g { c with exitCode := c.exitCode.or (some code) } := by
        simp [Supervisor.act, hc, hclosed]
      rw [hact] at hturn ⊢
      exact hacted hturn (child?_setChild hc _) rfl hclosed rfl
  | none =>
    have hopen : c.reading = true := by rw [hfits.reading, he]; rfl
    have hnone := hfits.exitCode hopen
    cases a with
    | print line =>
      have hact : s.act (.taking heard ended) g (.print line) =
          s.hear (.taking heard ended) g c line := by
        simp [Supervisor.act, hc, hopen]
      rw [hact] at hturn ⊢
      exact h.hear hc he line hturn
    | closeOutput =>
      have hact : s.act (.taking heard ended) g .closeOutput =
          s.endOutput (.taking heard ended) g c := by
        simp [Supervisor.act, hc, hopen]
      rw [hact] at hturn ⊢
      refine h.acted hc hturn (child?_endOutput _ hc c) (hfits.closed (.inr rfl) rfl rfl)
        [.ended g none] (by simp [Notice.generation]) (Act.notices_append_other he g rfl) ?_
      rw [← hnone]
      rfl
    | exit code =>
      have hact : s.act (.taking heard ended) g (.exit code) =
          s.endOutput (.taking heard ended) g { c with exitCode := some code } := by
        simp [Supervisor.act, hc, hopen, hnone]
      rw [hact] at hturn ⊢
      exact h.acted hc hturn (child?_endOutput _ hc _) (hfits.closed (.inr rfl) rfl rfl)
        [.ended g (some code)] (by simp [Notice.generation])
        (Act.notices_append_other he g rfl) rfl

theorem Told.acts (h : Told heard ended o s ds) {g : Nat} {c : Child} (hc : s.child? g = some c)
    (as : List Act) :
    Told heard ended o (s.acts (.taking heard ended) g as) (ds ++ as.map (g, ·)) := by
  induction as generalizing s c ds with
  | nil =>
    rw [List.map_nil, List.append_nil]
    exact h
  | cons a as ih =>
    obtain ⟨d, hd, -⟩ := (act_turn (.taking heard ended) g s a).grows c hc
    have hrest := ih (h.act hc a) hd
    rw [List.append_assoc] at hrest
    exact hrest

end Supervisor

/-! ## What is done to children -/

namespace Temper

/-- What a child that is killed does. -/
def whenKilled (t : Temper) : List Act :=
  match t.kill with
  | .none => [.exit Supervisor.killCode]
  | .ignores | .refuses => []

/-- What a live child that is shut down does: it is killed if it ignores that it is to terminate. -/
def whenShutDown (t : Temper) : List Act :=
  match t.terminate with
  | .none => [.exit Supervisor.terminateCode]
  | .ignores => t.whenKilled
  | .refuses => []

end Temper

namespace Supervisor

variable {σ ρ : Type} {heard : ρ → Nat → String → ρ} {ended : ρ → Nat → Option Int → ρ} {o : ρ}
  {s t : Supervisor σ ρ} {ds : List (Nat × Act)}

section Deeds

variable (program : Program σ)

/-- What children do when the one that is held is stopped. -/
def stopDeeds (s : Supervisor σ ρ) : List (Nat × Act) :=
  match s.held, s.heldChild? with
  | some g, some c => if c.isAlive then c.temper.whenShutDown.map (g, ·) else []
  | _, _ => []

/-- A child that the program would start: how it takes attempts to end it, and what it does first. -/
def newborn? (s : Supervisor σ ρ) : Option (Temper × List Act) :=
  match s.options.command with
  | none | some [] => none
  | some (_ :: _) =>
    match (program.launch s.program).1 with
    | .failed _ => none
    | .started temper printed => some (temper, printed)

/-- The first line of a new child is an object that reports that it is ready. -/
def ReportsReady (printed : List Act) : Prop :=
  ∃ line message, (Act.lines printed).head? = some line ∧ decodeLine line = .ok message ∧
    Assoc.find? "event" message = some (.text readyEvent)

/-- It cannot be told whether a new child greets: its first line holds an integer that is too long to be
read, or it has printed none yet and the clock cannot wait as long as it should. -/
def Baffles (timeout : Number) (printed : List Act) : Prop :=
  (∃ line digits, (Act.lines printed).head? = some line ∧
      decodeLine line = .error (.hugeInteger digits)) ∨
    (Act.lines printed = [] ∧ Act.ending? printed = none ∧ ∃ e, timeout.wait = .error e)

/-- Whether a new child is killed: its greeting is a line, but not the expected one, or it has none and
has been waited for. -/
def isDismissed (timeout : Number) (printed : List Act) : Bool :=
  match (Act.lines printed).head? with
  | none => (Act.ending? printed).isNone && timeout.wait.isOk
  | some line =>
    match greetingFault? line with
    | some (.invalid _) | some .unexpected => true
    | none | some (.hugeInteger _) => false

/-- What a new child does. -/
def birthDeeds (s : Supervisor σ ρ) : List (Nat × Act) :=
  match s.newborn? program with
  | none => []
  | some (temper, printed) =>
    (printed ++ if isDismissed s.options.startupTimeout printed then temper.whenKilled else []).map
      (s.generation + 1, ·)

/-- What children do in a step. -/
def HandleStep.deeds (x : HandleStep) (s : Supervisor σ ρ) : List (Nat × Act) :=
  match x with
  | .start => if s.isRunning then [] else s.stopDeeds ++ s.birthDeeds program
  | .restart => s.stopDeeds ++ s.birthDeeds program
  | .stop => s.stopDeeds
  | .send g line =>
    if s.held.isNone || g ≠ s.generation || !s.isRunning then []
    else (program.react s.program g line).1.acts.map (g, ·)
  | .happen g a => if (s.child? g).isSome then [(g, a)] else []

end Deeds

theorem Told.kill (h : Told heard ended o s ds) {g : Nat} {c : Child} (hc : s.child? g = some c) :
    Told heard ended o (s.kill (.taking heard ended) g) (ds ++ c.temper.whenKilled.map (g, ·)) := by
  have hrecord : Told heard ended o (s.record (.kill g)) ds := h.of_same rfl rfl
  simp only [Supervisor.kill, hc, Temper.whenKilled, resist]
  cases c.temper.kill with
  | none => exact hrecord.act hc _
  | ignores => simpa using hrecord
  | refuses => simpa using hrecord

/-- A child that is told to terminate and does so is not killed. -/
theorem Told.shutDown (h : Told heard ended o s ds) {g : Nat} {c : Child}
    (hc : s.child? g = some c) (ha : c.isAlive = true) :
    Told heard ended o (s.shutDown (.taking heard ended) g c)
      (ds ++ c.temper.whenShutDown.map (g, ·)) := by
  let u := (s.record (.closeInput g)).record (.terminate g)
  have hu : Told heard ended o u ds := h.of_same rfl rfl
  have huc : u.child? g = some c := hc
  cases ht : c.temper.terminate with
  | refuses =>
    simpa [Supervisor.shutDown, Temper.whenShutDown, ht] using hu
  | ignores =>
    have hdown : s.shutDown (.taking heard ended) g c = u.kill (.taking heard ended) g := by
      simp only [Supervisor.shutDown, ht, resist, reduceCtorEq, if_false]
      rw [show u.child? g = some c from hc]
      simp only [ha, if_true]
      rfl
    simp only [Temper.whenShutDown, ht]
    rw [hdown]
    exact hu.kill huc
  | none =>
    have hdown : s.shutDown (.taking heard ended) g c =
        u.act (.taking heard ended) g (.exit terminateCode) := by
      have hdead := not_live_exit (.taking heard ended) u g terminateCode
      simp only [Supervisor.shutDown, ht, resist, reduceCtorEq, if_false]
      split
      · rename_i d hd
        rw [if_neg fun hlive => hdead ⟨d, hd, hlive⟩]
      · rfl
    simp only [Temper.whenShutDown, ht]
    rw [hdown]
    exact hu.act huc _

theorem Told.stop (h : Told heard ended o s ds) :
    Told heard ended o (s.stop (.taking heard ended)) (ds ++ s.stopDeeds) := by
  have hletGo : Told heard ended o { s with held := none } ds := h.of_same rfl rfl
  unfold Supervisor.stop stopDeeds
  cases hheld : s.held with
  | none => simpa [hheld] using h
  | some g =>
    simp only [heldChild?, hheld, Option.bind_some]
    cases hc : s.child? g with
    | none =>
      have hc' : ({ s with held := none } : Supervisor σ ρ).child? g = none := hc
      simp only [hc']
      simpa using hletGo
    | some c =>
      have hc' : ({ s with held := none } : Supervisor σ ρ).child? g = some c := hc
      simp only [hc']
      cases ha : c.isAlive with
      | true => simpa using hletGo.shutDown hc' ha
      | false => simpa using hletGo

/-! ## Starting -/

/-- A failure of starting, as callers expect it. -/
def IsRefusal {α : Type} (r : Except Failure α) : Prop :=
  ∃ command reason exitCode, r = .error (.engine (.startup command reason exitCode))

theorem greetingFault?_eq_none_iff (line : String) : greetingFault? line = none ↔
    ∃ message, decodeLine line = .ok message ∧
      Assoc.find? "event" message = some (.text readyEvent) := by
  unfold greetingFault?
  cases decodeLine line with
  | error e => cases e <;> simp
  | ok message => simp

theorem greetingFault?_eq_huge_iff (line : String) (digits : Nat) :
    greetingFault? line = some (.hugeInteger digits) ↔
      decodeLine line = .error (.hugeInteger digits) := by
  unfold greetingFault?
  cases decodeLine line with
  | error e => cases e <;> simp
  | ok message =>
    simp only [reduceCtorEq, iff_false]
    split <;> simp

/-- A child is accepted if it greets, and refused unless that cannot be told. -/
theorem greet_result {c : Child} {printed : List Act} (hfits : c.Fits printed)
    (listener : Listener ρ) (g : Nat) :
    (∀ g', (s.greet listener g c).1 = .ok g' ↔ g' = g ∧ ReportsReady printed) ∧
      (IsRefusal (s.greet listener g c).1 ↔
        ¬ReportsReady printed ∧ ¬Baffles s.options.startupTimeout printed) := by
  unfold Supervisor.greet ReportsReady Baffles IsRefusal
  rw [hfits.greeting, hfits.reading]
  cases hhead : (Act.lines printed).head? with
  | none =>
    have hnil : Act.lines printed = [] := List.head?_eq_none_iff.mp hhead
    cases Act.ending? printed with
    | none => cases hw : s.options.startupTimeout.wait <;> simp [hnil, startupError]
    | some e => simp [startupError]
  | some line =>
    have hcons : Act.lines printed ≠ [] := fun e => by simp [e] at hhead
    have hgreets := greetingFault?_eq_none_iff line
    have hhuge := greetingFault?_eq_huge_iff line
    simp only [Option.some.injEq, exists_eq_left', exists_and_left, hcons, false_and, or_false,
      ← hgreets, ← hhuge]
    cases hf : greetingFault? line with
    | none => simp [eq_comm]
    | some fault => cases fault <;> simp [startupError]

theorem greet_generation (listener : Listener ρ) (s : Supervisor σ ρ) (g : Nat) (c : Child) :
    (s.greet listener g c).2.generation = s.generation := by
  have hkill := (kill_wanes listener s g).generation
  unfold Supervisor.greet
  split
  · split
    · split
      · rfl
      · exact hkill
    · rfl
  · split
    · rfl
    · rfl
    · exact hkill
    · exact hkill

theorem Told.greet (h : Told heard ended o s ds) {g : Nat} {c : Child} (hc : s.child? g = some c) :
    Told heard ended o (s.greet (.taking heard ended) g c).2
      (ds ++ (if isDismissed s.options.startupTimeout (actsOf g ds) then c.temper.whenKilled
        else []).map (g, ·)) := by
  have hfits := h.fits g c hc
  have hkill := h.kill hc
  have hsame : Told heard ended o s (ds ++ ([] : List Act).map (g, ·)) := by simpa using h
  unfold Supervisor.greet isDismissed
  rw [hfits.greeting, hfits.reading]
  cases (Act.lines (actsOf g ds)).head? with
  | none =>
    cases Act.ending? (actsOf g ds) with
    | none =>
      cases hw : s.options.startupTimeout.wait with
      | error e => simpa [Except.isOk, Except.toBool] using hsame
      | ok u => simpa [Except.isOk, Except.toBool] using hkill
    | some e => simpa using hsame
  | some line =>
    cases hf : greetingFault? line with
    | none =>
      simp only [hf]
      exact hsame.of_same rfl rfl
    | some fault =>
      cases fault with
      | invalid e =>
        simp only [hf]
        exact hkill
      | unexpected =>
        simp only [hf]
        exact hkill
      | hugeInteger digits =>
        simp only [hf]
        exact hsame

section Spawn

variable (program : Program σ) (listener : Listener ρ)

/-- Where no child comes to be, starting is refused and no child or call is new. -/
theorem spawn_of_newborn_none (h : s.newborn? program = none) :
    IsRefusal (s.spawn program listener).1 ∧
      (s.spawn program listener).2.children = s.children ∧
      (s.spawn program listener).2.owner = s.owner := by
  revert h
  unfold newborn? spawn IsRefusal
  cases s.options.command with
  | none => simp
  | some words =>
    cases words with
    | nil => simp
    | cons word words =>
      cases hl : program.launch s.program with
      | mk launch state => cases launch <;> simp [hl, record, startupError]

/-- What a new child finds, and the child. -/
theorem hatch_of_newborn {temper : Temper} {printed : List Act}
    (h : s.newborn? program = some (temper, printed)) :
    ∃ t c, hatch? program s = some (t, printed) ∧ c.IsNew ∧ c.temper = temper ∧
      t.children = s.children ++ [c] ∧ t.owner = s.owner ∧ t.options = s.options := by
  unfold newborn? at h
  split at h
  · cases h
  · cases h
  · rename_i word words hcommand
    split at h
    · cases h
    · rename_i temper' printed' hlaunch
      obtain ⟨rfl, rfl⟩ := Prod.mk.inj (Option.some.inj h)
      obtain ⟨state, hstate⟩ : ∃ state, program.launch s.program = (.started temper' printed', state) :=
        ⟨_, Prod.ext hlaunch rfl⟩
      let c : Child := { number := s.attempts + 1, temper := temper' }
      let t : Supervisor σ ρ :=
        { s.record (.spawn (word :: words) s.options.environment) with
          program := state, attempts := s.attempts + 1, children := s.children ++ [c] }
      have hhatch : hatch? program s = some (t, printed') := by
        simp only [hatch?, hcommand, record, hstate]
        rfl
      exact ⟨t, c, hhatch, ⟨rfl, rfl, rfl⟩, rfl, rfl, rfl, rfl⟩

end Spawn

/-- A child that comes to be has done what it does first when its greeting is looked at. -/
theorem Told.hatch (h : Told heard ended o s ds) {program : Program σ} {temper : Temper}
    {printed : List Act} (hb : s.newborn? program = some (temper, printed)) :
    ∃ u d, Told heard ended o u (ds ++ printed.map (s.generation + 1, ·)) ∧
      u.generation = s.generation + 1 ∧ u.options = s.options ∧
      u.child? (s.generation + 1) = some d ∧ d.temper = temper ∧ d.Fits printed ∧
      actsOf (s.generation + 1) (ds ++ printed.map (s.generation + 1, ·)) = printed ∧
      s.spawn program (.taking heard ended) =
        u.greet (.taking heard ended) (s.generation + 1) d := by
  obtain ⟨t, c, hh, hnew, htemper, hchildren, howner, hoptions⟩ := hatch_of_newborn program hb
  obtain ⟨d, hd, hspawn⟩ := spawn_of_hatch program (.taking heard ended) hh
  have hg : t.generation = s.generation + 1 := generation_append hchildren
  have hc : t.child? t.generation = some c := child?_append_new hchildren
  have hturn := acts_turn (.taking heard ended) t.generation printed t
  have htold := (h.bear hnew hchildren howner).acts hc printed
  rw [hg] at hc hd hspawn hturn htold
  obtain ⟨d', hd', hgrows⟩ := hturn.grows c hc
  obtain rfl := Option.some.inj (hd.symm.trans hd')
  have hacts : actsOf (s.generation + 1) (ds ++ printed.map (s.generation + 1, ·)) = printed := by
    rw [actsOf_append, h.known _ (.inr (Nat.lt_succ_self _)), List.nil_append, actsOf_map]
  exact ⟨_, d, htold, hturn.frame.generation.trans hg, hturn.frame.options.trans hoptions, hd,
    hgrows.temper.trans htemper, hacts ▸ htold.fits _ d hd, hacts, hspawn⟩

theorem Told.spawn (h : Told heard ended o s ds) (program : Program σ) :
    Told heard ended o (s.spawn program (.taking heard ended)).2 (ds ++ s.birthDeeds program) := by
  unfold birthDeeds
  cases hb : s.newborn? program with
  | none =>
    obtain ⟨-, hchildren, howner⟩ := spawn_of_newborn_none program (.taking heard ended) hb
    simpa using h.of_same hchildren howner
  | some newborn =>
    obtain ⟨temper, printed⟩ := newborn
    obtain ⟨u, d, htold, -, hoptions, hd, htemper, -, hacts, hspawn⟩ := h.hatch hb
    have hgreet := htold.greet hd
    rw [hacts, hoptions, htemper, List.append_assoc, ← List.map_append] at hgreet
    rw [hspawn]
    exact hgreet

/-- Where a child comes to be, it is accepted if it greets, and refused unless that cannot be told. -/
theorem Told.spawn_result (h : Told heard ended o s ds) {program : Program σ} {temper : Temper}
    {printed : List Act} (hb : s.newborn? program = some (temper, printed)) :
    (∀ g, (s.spawn program (.taking heard ended)).1 = .ok g ↔
        g = s.generation + 1 ∧ ReportsReady printed) ∧
      (IsRefusal (s.spawn program (.taking heard ended)).1 ↔
        ¬ReportsReady printed ∧ ¬Baffles s.options.startupTimeout printed) := by
  obtain ⟨u, d, -, -, hoptions, -, -, hfits, -, hspawn⟩ := h.hatch hb
  rw [hspawn, ← hoptions]
  exact greet_result hfits _ _

/-- A generation more if a child comes to be, and not otherwise. -/
theorem Told.spawn_generation (h : Told heard ended o s ds) (program : Program σ) :
    (s.spawn program (.taking heard ended)).2.generation =
      s.generation + if (s.newborn? program).isSome then 1 else 0 := by
  cases hb : s.newborn? program with
  | none =>
    obtain ⟨-, hchildren, -⟩ := spawn_of_newborn_none program (.taking heard ended) hb
    simp [generation, hchildren]
  | some newborn =>
    obtain ⟨temper, printed⟩ := newborn
    obtain ⟨u, d, -, hu, -, -, -, -, -, hspawn⟩ := h.hatch hb
    rw [hspawn, greet_generation, hu]
    rfl

/-! ## Steps and runs -/

/-- Stopping keeps what a start depends on. -/
theorem stop_newborn (listener : Listener ρ) (program : Program σ) (s : Supervisor σ ρ) :
    (s.stop listener).options = s.options ∧
      (s.stop listener).newborn? program = s.newborn? program := by
  have kept : KeptByStop listener fun t : Supervisor σ ρ =>
      t.options = s.options ∧ t.program = s.program := {
    act := fun {t} h g a => by
      have hframe := (act_turn listener g t a).frame
      exact ⟨hframe.options.trans h.1, hframe.program.trans h.2⟩
    record := fun h _ _ => h
    letGo := fun h => h }
  obtain ⟨hoptions, hprogram⟩ := kept.stop (s := s) ⟨rfl, rfl⟩
  exact ⟨hoptions, by simp only [newborn?, hoptions, hprogram]⟩

theorem Told.replace (h : Told heard ended o s ds) (program : Program σ) :
    Told heard ended o ((s.stop (.taking heard ended)).spawn program (.taking heard ended)).2
      (ds ++ (s.stopDeeds ++ s.birthDeeds program)) := by
  have hspawn := h.stop.spawn program
  have hbirth : (s.stop (.taking heard ended)).birthDeeds program = s.birthDeeds program := by
    obtain ⟨hoptions, hnewborn⟩ := stop_newborn (.taking heard ended) program s
    have hgeneration := (stop_wanes (.taking heard ended) s).generation
    simp only [birthDeeds, hoptions, hnewborn, hgeneration]
    rfl
  rwa [hbirth, List.append_assoc] at hspawn

theorem child?_of_isRunning (hr : s.isRunning = true) : ∃ c, s.child? s.generation = some c := by
  rw [← Option.isSome_iff_exists, child?_isSome]
  cases hheld : s.held with
  | none =>
    rw [isRunning_of_held_none hheld] at hr
    cases hr
  | some g =>
    cases hc : s.child? g with
    | none => simp [isRunning, heldChild?, hheld, hc] at hr
    | some c =>
      have hle := child?_le hc
      omega

/-- A step does what it does: what the children do in it tells what becomes of them and for what the
owner is called. -/
theorem Told.step (h : Told heard ended o s ds) (program : Program σ) (x : HandleStep) :
    Told heard ended o (x.after program (.taking heard ended) s) (ds ++ x.deeds program s) := by
  cases x with
  | start =>
    rw [HandleStep.after, run_start, HandleStep.deeds]
    by_cases hr : s.isRunning
    · simpa [hr] using h
    · simpa [hr] using h.replace program
  | restart =>
    rw [HandleStep.after, run_restart]
    exact h.replace program
  | stop => exact h.stop
  | send g line =>
    simp only [HandleStep.after, HandleStep.run, HandleStep.deeds, Attempt.runFrom, ExceptT.run,
      sendLine]
    by_cases hrefused : s.held.isNone || g ≠ s.generation || !s.isRunning
    · rw [if_pos hrefused, if_pos hrefused, List.append_nil]
      exact h
    · obtain ⟨c, hc⟩ : ∃ c, s.child? g = some c := by
        simp only [Bool.or_eq_true, decide_eq_true_eq, not_or, ne_eq, Decidable.not_not, Bool.not_eq_true',
          Bool.not_eq_false] at hrefused
        obtain ⟨⟨-, rfl⟩, hr⟩ := hrefused
        exact child?_of_isRunning hr
      have hwrite : Told heard ended o { s.record (.write g line) with
          program := (program.react s.program g line).2 } ds := h.of_same rfl rfl
      have hacts := hwrite.acts hc (program.react s.program g line).1.acts
      rw [if_neg hrefused, if_neg hrefused]
      split <;> exact hacts
  | happen g a =>
    simp only [HandleStep.deeds]
    cases hc : s.child? g with
    | none =>
      have hsame : HandleStep.after program (.taking heard ended) (.happen g a) s = s := by
        show s.act (.taking heard ended) g a = s
        simp only [Supervisor.act, hc]
      rw [hsame]
      simpa using h
    | some c => exact h.act hc a

section Runs

variable (program : Program σ) (listener : Listener ρ)

/-- Whether a step creates a child. -/
def HandleStep.bears (x : HandleStep) (s : Supervisor σ ρ) : Bool :=
  match x with
  | .start => !s.isRunning && (s.newborn? program).isSome
  | .restart => (s.newborn? program).isSome
  | .stop | .send .. | .happen .. => false

/-- The state after a run. -/
def following (xs : List HandleStep) (s : Supervisor σ ρ) : Supervisor σ ρ :=
  xs.foldl (fun s x => x.after program listener s) s

/-- What children do in a run. -/
def deedsAlong : List HandleStep → Supervisor σ ρ → List (Nat × Act)
  | [], _ => []
  | x :: xs, s => x.deeds program s ++ deedsAlong xs (x.after program listener s)

end Runs

theorem Told.run (h : Told heard ended o s ds) (program : Program σ) (xs : List HandleStep) :
    Told heard ended o (following program (.taking heard ended) xs s)
      (ds ++ deedsAlong program (.taking heard ended) xs s) := by
  induction xs generalizing s ds with
  | nil => simpa [following, deedsAlong] using h
  | cons x xs ih =>
    have hrest := ih (h.step program x)
    rw [List.append_assoc] at hrest
    exact hrest

theorem told_new (options : ProcessOptions) (state : σ) (o : ρ) :
    Told heard ended o (new options state o) [] where
  calls := ⟨[], rfl, fun _ => rfl⟩
  fits g c h := by simp [new, child?] at h
  known _ _ := rfl

theorem Told.generation_step (h : Told heard ended o s ds) (program : Program σ) (x : HandleStep) :
    (x.after program (.taking heard ended) s).generation =
      s.generation + if x.bears program s then 1 else 0 := by
  have hreplace : ((s.stop (.taking heard ended)).spawn program (.taking heard ended)).2.generation =
      s.generation + if (s.newborn? program).isSome then 1 else 0 := by
    rw [h.stop.spawn_generation program, (stop_newborn _ program s).2, (stop_wanes _ s).generation]
    rfl
  cases x with
  | start =>
    rw [HandleStep.after, run_start]
    by_cases hr : s.isRunning <;> simp [HandleStep.bears, hr, hreplace]
  | restart =>
    rw [HandleStep.after, run_restart]
    exact hreplace
  | stop => exact (stop_wanes _ s).generation
  | send g line => exact sendLine_generation _ _ s g line
  | happen g a => exact (act_turn _ g s a).frame.generation

/-- Whatever is done with a supervisor whose owner takes every line, and whatever children do. The
owner has been called for each child by what the child has printed: for each line but the first that
is not blank, trimmed, in order, and then, if its output has ended, once for the end. A child more is
counted in a step that creates one, and in no other. A start where a child runs does nothing; any
other start succeeds if a child comes to be whose first line that is not blank, printed in time, is an
object that reports that it is ready. Otherwise it is refused, unless a child comes to be of which it
cannot be told: one whose first line holds an integer that is too long to be read, or one without a
line where the time to wait for it is too long for the clock. -/
theorem handshake_and_delivery {σ ρ : Type} (program : Program σ)
    (heard : ρ → Nat → String → ρ) (ended : ρ → Nat → Option Int → ρ) (options : ProcessOptions)
    (state : σ) (owner : ρ) (xs : List HandleStep) :
    let listener := Listener.taking heard ended
    let s := following program listener xs (new options state owner)
    let deeds := deedsAlong program listener xs (new options state owner)
    (∃ calls : List Notice, s.owner = calls.foldl (Notice.tell heard ended) owner ∧
      ∀ g, calls.filter (·.generation = g) = Act.notices g (actsOf g deeds)) ∧
    (∀ x : HandleStep, (x.after program listener s).generation =
      s.generation + if x.bears program s then 1 else 0) ∧
    ((start program listener).runFrom s =
      if s.isRunning then (.ok s.generation, s) else (restart program listener).runFrom s) ∧
    match s.newborn? program with
    | none => IsRefusal ((restart program listener).runFrom s).1
    | some (_, printed) =>
      (∀ g, ((restart program listener).runFrom s).1 = .ok g ↔
        g = s.generation + 1 ∧ ReportsReady printed) ∧
      (IsRefusal ((restart program listener).runFrom s).1 ↔
        ¬ReportsReady printed ∧ ¬Baffles s.options.startupTimeout printed) := by
  intro listener s deeds
  have h : Told heard ended owner s deeds := (told_new options state owner).run program xs
  refine ⟨h.calls, h.generation_step program, ?_, ?_⟩
  · by_cases hr : s.isRunning <;> simp [Attempt.runFrom, ExceptT.run, start, restart, hr]
  · obtain ⟨hoptions, hnewborn⟩ := stop_newborn listener program s
    cases hb : s.newborn? program with
    | none => exact (spawn_of_newborn_none program listener (hnewborn.trans hb)).1
    | some newborn =>
      obtain ⟨temper, printed⟩ := newborn
      have hresult := h.stop.spawn_result (hnewborn.trans hb)
      rw [hoptions, (stop_wanes _ s).generation] at hresult
      exact hresult

/-- A child without a line is neither accepted nor refused where the clock cannot wait for one. -/
theorem not_refused_of_blank_line :
    let listener : Listener Unit := .taking (fun _ _ _ => ()) fun _ _ _ => ()
    let r := ((start (printing "" false) listener).runFrom
      (new ⟨some ["engine"], 10000000000, ∅⟩ () ())).1
    (∀ g, r ≠ .ok g) ∧ ¬IsRefusal r := by
  intro listener r
  obtain ⟨-, -, hstart, haccepted, hrefused⟩ := handshake_and_delivery (printing "" false)
    (fun _ _ _ => ()) (fun _ _ _ => ()) ⟨some ["engine"], 10000000000, ∅⟩ () () []
  have hlines : Act.lines [.print ""] = [] := rfl
  have hbaffles : Baffles 10000000000 [.print ""] := .inr ⟨hlines, rfl, _, rfl⟩
  have hgreets : ¬ReportsReady [.print ""] := by
    rintro ⟨line, message, hline, -⟩
    cases hline
  have hr : r = ((restart (printing "" false) listener).runFrom
      (new ⟨some ["engine"], 10000000000, ∅⟩ () ())).1 := congrArg Prod.fst hstart
  rw [hr]
  exact ⟨fun g hg => hgreets ((haccepted g).mp hg).2, fun h => (hrefused.mp h).2 hbaffles⟩

end Supervisor

end AssemblyBrowser
