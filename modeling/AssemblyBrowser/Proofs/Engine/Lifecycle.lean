import AssemblyBrowser.Proofs.Engine.Resting
/-!
The state machine of a session. Main statement: along a run every operation takes an orderly course,
whatever it returns or fails with, exactly if no engine that is started baffles the session. One does
if it greets with an integer that is too long to be read, or if it does not greet and the time to
wait for that is too long for the clock: the start then fails with a failure that is not one of the
engine, and the session is left as one that is starting.
-/
namespace AssemblyBrowser

/-- The new engine that an operation needs is baffling. -/
def Operation.Stumbles {σ : Type} (program : Program σ) (s : Session σ) : Operation → Prop
  | .restart => s.Baffled program
  | .stop => False
  | .decompile _ language _ =>
    (∃ l, Session.languageOf language = .ok l) ∧ s.Stumbles program
  | .ensureRunning | .load _ | .children .. => s.Stumbles program

namespace Session

variable {σ α β : Type} {s t : Session σ} {program : Program σ}

/-- An operation takes an orderly course unless it stumbles. -/
theorem Resting.operation (h : s.Resting) {op : Operation} (hb : ¬op.Stumbles program s) :
    (Watched.operation program op).Orderly s := by
  have hrequest : ∀ {t : Session σ}, t.Resting → ¬t.Stumbles program → ∀ command arguments,
      (Watched.request program command arguments).Orderly t := by
    intro t ht hb command arguments
    exact ht.request program (fun hs => hb ((stumbles_trace _).mp hs)) command arguments
  cases op with
  | ensureRunning =>
    exact (h.ensureRunning program fun hs => hb ((stumbles_trace _).mp hs)).map _
  | restart =>
    have hcalled := h.called .restart []
    exact ((hcalled.relaunch program fun hs => hb ((baffled_trace _).mp hs)).traced _).map _
  | stop =>
    have hcalled := h.called .stop []
    obtain ⟨hcourse, hrest, -⟩ := hcalled.teardown "engine stopped"
    have hdown : (Watched.teardown "engine stopped").Orderly (Watched.called .stop [] s) :=
      ⟨hcourse, hrest⟩
    exact (hdown.traced _).map _
  | load path =>
    have hcalled := h.called .load [Text.quoted path]
    have hanswer := hrequest hcalled (fun hs => hb ((stumbles_trace _).mp hs)) .load
      (loadArguments path)
    refine ((hanswer.bind fun answer t _ ht => ht.orderly_once ?_).traced _).map _
    rw [Attempt.runFrom_bind, Attempt.runFrom_ofExcept]
    cases loadResult path answer with
    | error f => exact ht.sound.drifts_trace t.trace
    | ok m => exact ht.sound.drifts_loaded (·.put path m)
  | children key assembly =>
    have hcalled := h.called .children (Text.quoted key :: assembly.toList.map Text.quoted)
    have hanswer := hrequest hcalled (fun hs => hb ((stumbles_trace _).mp hs)) .enumerate
      (memberArguments key assembly)
    refine ((hanswer.bind fun answer t _ ht => ht.orderly_once ?_).traced _).map _
    exact ht.sound.drifts_trace t.trace
  | decompile key language assembly =>
    have hcalled := h.called .decompile (decompileArguments key language assembly)
    have hlanguage : (Watched.once (Attempt.ofExcept (languageOf language)) :
        Watched σ Language).Orderly (Watched.called .decompile
          (decompileArguments key language assembly) s) :=
      hcalled.orderly_once (hcalled.sound.drifts_trace _)
    refine ((hlanguage.bind fun l t hl ht => ?_).traced _).map _
    obtain ⟨hparse, hsame⟩ : languageOf language = .ok l ∧
        Watched.called .decompile (decompileArguments key language assembly) s = t := by
      exact ⟨congrArg Prod.fst hl, congrArg Prod.snd hl⟩
    have hanswer := hrequest ht (fun hs => hb ⟨⟨l, hparse⟩, (stumbles_trace _).mp (hsame ▸ hs)⟩)
      .decompile (memberArguments key assembly ++ [("language", .text l.name)])
    refine hanswer.bind fun answer u _ hu => hu.orderly_once ?_
    exact hu.sound.drifts_trace u.trace

/-! ## Operations that stumble -/

/-- An attempt fails and leaves the session as one that is starting. -/
def Stalls (a : Attempt (Session σ) α) (s : Session σ) : Prop :=
  ∃ f t, a.runFrom s = (.error f, t) ∧ t.state = .starting

theorem Stalls.bind {a : Attempt (Session σ) α} (h : Stalls a s)
    (f : α → Attempt (Session σ) β) : Stalls (a >>= f) s := by
  obtain ⟨e, t, ha, ht⟩ := h
  refine ⟨e, t, ?_, ht⟩
  rw [Attempt.runFrom_bind, ha]

theorem Stalls.after {a : Attempt (Session σ) α} {v : α} (ha : a.runFrom s = (.ok v, t))
    {f : α → Attempt (Session σ) β} (h : Stalls (f v) t) : Stalls (a >>= f) s := by
  obtain ⟨e, u, hf, hu⟩ := h
  exact ⟨e, u, (Attempt.runFrom_bind_ok ha f).trans hf, hu⟩

theorem Stalls.map {a : Attempt (Session σ) α} (h : Stalls a s) (f : α → β) :
    Stalls (f <$> a) s := by
  obtain ⟨e, t, ha, ht⟩ := h
  refine ⟨e, t, ?_, ht⟩
  rw [Attempt.runFrom_map, ha]
  rfl

theorem Stalls.traced {op : TracedOperation} {arguments : List String}
    {a : Attempt (Session σ) α} (h : Stalls a (Watched.called op arguments s))
    (shown : α → String) : Stalls (traced op arguments shown a) s := by
  obtain ⟨e, t, ha, ht⟩ := h
  obtain ⟨trace, hr⟩ := Watched.traced_called op arguments shown a s
  refine ⟨e, { t with trace }, ?_, ht⟩
  rw [hr, ha]

theorem Sound.stalls_relaunch (h : s.Sound) (hb : s.Baffled program) :
    Stalls (relaunch program) s := Stalls.bind (h.launch_baffled hb) _

theorem Sound.stalls_ensureRunning (h : s.Sound) (hb : s.Stumbles program) :
    Stalls (ensureRunning program) s := by
  have hcalled : (Watched.called .ensureRunning [] s).Sound := h.of_trace _
  obtain ⟨hnot, hbaffled⟩ := (stumbles_trace _).mpr hb
  refine .traced (Stalls.after (v := false) ?_ (hcalled.isRunning.1.sound.stalls_relaunch hbaffled)) _
  exact Prod.ext (congrArg Except.ok hnot) rfl

theorem Sound.stalls_request (h : s.Sound) (hb : s.Stumbles program) (command : Command)
    (arguments : Fields) : Stalls (request program command arguments) s :=
  (h.stalls_ensureRunning hb).bind _

theorem Sound.stalls_operation (h : s.Sound) {op : Operation} (hb : op.Stumbles program s) :
    Stalls (op.run program) s := by
  have hcalled : ∀ op arguments, (Watched.called op arguments s).Sound := fun _ _ => h.of_trace _
  cases op with
  | ensureRunning => exact (h.stalls_ensureRunning hb).map _
  | restart =>
    have hrelaunch := (hcalled .restart []).stalls_relaunch ((baffled_trace _).mpr hb)
    exact (hrelaunch.traced _).map _
  | stop => exact hb.elim
  | load path =>
    have hrequest := (hcalled .load [Text.quoted path]).stalls_request ((stumbles_trace _).mpr hb)
      .load (loadArguments path)
    exact ((hrequest.bind _).traced _).map _
  | children key assembly =>
    have hrequest := (hcalled .children (Text.quoted key :: assembly.toList.map Text.quoted)
      ).stalls_request ((stumbles_trace _).mpr hb) .enumerate (memberArguments key assembly)
    exact ((hrequest.bind _).traced _).map _
  | decompile key language assembly =>
    obtain ⟨⟨l, hl⟩, hb⟩ := hb
    have hrequest := (hcalled .decompile (decompileArguments key language assembly)
      ).stalls_request ((stumbles_trace _).mpr hb) .decompile
        (memberArguments key assembly ++ [("language", .text l.name)])
    have hlanguage : (Attempt.ofExcept (languageOf language) : Attempt (Session σ) Language).runFrom
        (Watched.called .decompile (decompileArguments key language assembly) s) =
          (.ok l, Watched.called .decompile (decompileArguments key language assembly) s) :=
      Prod.ext hl rfl
    exact ((Stalls.after hlanguage (hrequest.bind _)).traced _).map _

end Session

/-! ## Runs -/

namespace SessionStep

variable {σ : Type} (program : Program σ)

def moments (x : SessionStep) (s : Session σ) : List (Session σ) :=
  match x with
  | .perform op => (Session.Watched.operation program op).moments s
  | .status => [s.isRunning.2]
  | .unload path => [s.unload path]
  | .happen g as =>
    (Supervisor.actMoments Link.listener g as s.supervisor).map fun supervisor =>
      { s with supervisor }

/-- The state changes along the edges of the state machine only, and comes to rest. -/
structure InOrder (x : SessionStep) (s : Session σ) : Prop where
  course : s.Course (x.moments program s) (x.after program s)
  rest : (x.after program s).AtRest

def Stumbles (x : SessionStep) (s : Session σ) : Prop :=
  match x with
  | .perform op => op.Stumbles program s
  | .status | .unload _ | .happen .. => False

/-- A condition holds of each step of a run in the session in which the step is made. -/
def Along (P : SessionStep → Session σ → Prop) : List SessionStep → Session σ → Prop
  | [], _ => True
  | x :: xs, s => P x s ∧ Along P xs (x.after program s)

variable {program} {s : Session σ}

theorem inOrder_of_not_stumbles (h : s.Resting) {x : SessionStep} (hx : ¬x.Stumbles program s) :
    x.InOrder program s ∧ (x.after program s).Resting := by
  cases x with
  | perform op =>
    obtain ⟨hcourse, hrest⟩ := h.operation hx
    rw [Session.Watched.operation_attempt] at hcourse hrest
    exact ⟨⟨hcourse, hrest.rest⟩, hrest⟩
  | status =>
    have hd := h.sound.drifts_isRunning
    exact ⟨⟨.one hd.next, (h.drifts hd).rest⟩, h.drifts hd⟩
  | unload path =>
    have hd := h.sound.drifts_loaded (·.erase path)
    exact ⟨⟨.one hd.next, (h.drifts hd).rest⟩, h.drifts hd⟩
  | happen g as =>
    have hd := h.sound.drifts_happen g as
    exact ⟨⟨Session.course_acts as (.refl _), (h.drifts hd).rest⟩, h.drifts hd⟩

theorem not_inOrder_of_stumbles (h : s.Resting) {x : SessionStep} (hx : x.Stumbles program s) :
    ¬x.InOrder program s := by
  intro hin
  cases x with
  | perform op =>
    obtain ⟨f, t, hrun, ht⟩ := h.sound.stalls_operation hx
    have hstate := hin.rest.state
    simp only [after, hrun, ht] at hstate
    simp at hstate
  | status => exact hx
  | unload path => exact hx
  | happen g as => exact hx

theorem inOrder_iff (h : s.Resting) (x : SessionStep) :
    x.InOrder program s ↔ ¬x.Stumbles program s := by
  constructor
  · intro hin hx
    exact not_inOrder_of_stumbles h hx hin
  · intro hx
    exact (inOrder_of_not_stumbles h hx).1

theorem along_inOrder_iff (h : s.Resting) (xs : List SessionStep) :
    Along program (InOrder program) xs s ↔
      Along program (fun x s => ¬x.Stumbles program s) xs s := by
  induction xs generalizing s with
  | nil => exact Iff.rfl
  | cons x xs ih =>
    simp only [Along, inOrder_iff h x]
    exact and_congr_right fun hx => ih (inOrder_of_not_stumbles h hx).2

end SessionStep

theorem Session.resting_new {σ : Type} (settings : EngineSettings) (locator : Option Locator)
    (environment : OrderedMap String String) (w : σ) (traced : Bool) :
    (Session.new settings locator environment w traced).Resting :=
  resting_of_stopped (sound_new settings locator environment w traced) rfl rfl rfl

namespace SessionStep

/-- An engine that never says anything. -/
def mute : Program Unit where
  launch w := (.started {} [], w)
  react w _ _ := (⟨[], none⟩, w)

/-- An engine is waited for longer than the clock can. -/
def patientSettings : EngineSettings where
  command := some ["engine"]
  startupTimeout := 10000000000
  requestTimeout := 60
  stopGrace := 5

end SessionStep

end AssemblyBrowser
