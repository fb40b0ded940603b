import AssemblyBrowser.Engine.Settings
import AssemblyBrowser.Proofs.Settings
import AssemblyBrowser.Proofs.Text.ShellWords
/-!
The settings of an engine, as the environment, the file of settings and the file system decide them.
Main statements: what is loaded depends on nothing that was remembered; settings are found unless one of
four things stands in the way, and then what cannot be used has fallen back; and arguments mean the same
in the environment and in the file, up to the quotes that the file takes away.
-/
namespace AssemblyBrowser

/-! ## The command line -/

namespace Locator

variable (m : Machine) (l : Locator)

/-- Where the engine is, remembered or found anew. -/
def knownEngine : Except Failure (Option String) :=
  match l.engine with
  | some p => .ok (some p)
  | none => searchEngine m l

def knownHost : Except Failure (Option String) :=
  match l.host with
  | some p => .ok (some p)
  | none => searchHost m l

/-- The words that start the engine. -/
def command (arguments : List String) : Except Failure (Option (List String)) := do
  match ← l.knownEngine m with
  | none => return none
  | some engine =>
    if needsHost engine then
      match ← l.knownHost m with
      | none => return none
      | some host => return some (host :: engine :: arguments)
    else return some (engine :: arguments)

/-- The arguments come last, and decide on nothing else. -/
theorem command_eq (arguments : List String) :
    l.command m arguments = (l.command m []).map (Option.map (· ++ arguments)) := by
  unfold command
  cases l.knownEngine m with
  | error f => rfl
  | ok engine =>
    cases engine with
    | none => rfl
    | some engine =>
      simp only [bind, Except.bind]
      split
      · cases l.knownHost m with
        | error f => rfl
        | ok host => cases host <;> rfl
      · rfl

theorem command_fails_iff (arguments : List String) : Fails (l.command m arguments) ↔
    Fails (l.knownEngine m) ∨ ∃ engine, l.knownEngine m = .ok (some engine) ∧
      needsHost engine = true ∧ Fails (l.knownHost m) := by
  unfold command
  rw [fails_bind_iff]
  refine or_congr_right ?_
  constructor
  · rintro ⟨engine, hengine, hfails⟩
    cases engine with
    | none => exact absurd hfails (not_fails_ok _)
    | some engine =>
      dsimp only at hfails
      split at hfails
      · next hneeds =>
        refine ⟨engine, hengine, hneeds, (fails_bind_iff.mp hfails).elim id ?_⟩
        rintro ⟨host, -, hfails⟩
        cases host <;> exact absurd hfails (not_fails_ok _)
      · exact absurd hfails (not_fails_ok _)
  · rintro ⟨engine, hengine, hneeds, hfails⟩
    refine ⟨some engine, hengine, ?_⟩
    dsimp only
    rw [if_pos hneeds, fails_bind_iff]
    exact .inl hfails

/-- Without the engine, or without the host that it needs, there is no command. -/
theorem command_eq_none {arguments : List String} (h : l.knownEngine m = .ok none ∨
    ∃ engine, l.knownEngine m = .ok (some engine) ∧ needsHost engine = true ∧
      l.knownHost m = .ok none) : l.command m arguments = .ok none := by
  unfold command
  rcases h with hengine | ⟨engine, hengine, hneeds, hhost⟩
  · rw [hengine]
    rfl
  · rw [hengine]
    simp only [bind, Except.bind, if_pos hneeds, hhost]
    rfl

/-- The other locator finds the same. -/
def Same (l' : Locator) : Prop :=
  l'.knownEngine m = l.knownEngine m ∧ l'.knownHost m = l.knownHost m

theorem findEngine_gives : Attempt.Gives (l.Same m) (findEngine m) (l.knownEngine m) := by
  have hrun : ∀ l' : Locator, ((findEngine m).runFrom l').1 = l'.knownEngine m ∧
      l'.Same m ((findEngine m).runFrom l').2 := by
    intro l'
    rw [findEngine_run]
    cases hengine : l'.engine with
    | some p => simp [knownEngine, hengine, Same]
    | none =>
      cases hsearch : searchEngine m l' with
      | error f => simp [knownEngine, hengine, hsearch, Same]
      | ok found =>
        have hfound : searchEngine m { l' with engine := found } = .ok found := hsearch
        cases found <;> simp [knownEngine, knownHost, hengine, hsearch, hfound, Same, searchHost,
          hostPaths, isWindows]
  exact ⟨fun l' h => (hrun l').1.trans h.1,
    fun l' h => ⟨(hrun l').2.1.trans h.1, (hrun l').2.2.trans h.2⟩⟩

theorem findHost_gives : Attempt.Gives (l.Same m) (findHost m) (l.knownHost m) := by
  have hrun : ∀ l' : Locator, ((findHost m).runFrom l').1 = l'.knownHost m ∧
      l'.Same m ((findHost m).runFrom l').2 := by
    intro l'
    rw [findHost_run]
    cases hhost : l'.host with
    | some p => simp [knownHost, hhost, Same]
    | none =>
      cases hsearch : searchHost m l' with
      | error f => simp [knownHost, hhost, hsearch, Same]
      | ok found =>
        have hfound : searchHost m { l' with host := found } = .ok found := hsearch
        cases found <;> simp [knownEngine, knownHost, hhost, hsearch, hfound, Same, searchEngine,
          enginePaths, isWindows]
  exact ⟨fun l' h => (hrun l').1.trans h.2,
    fun l' h => ⟨(hrun l').2.1.trans h.1, (hrun l').2.2.trans h.2⟩⟩

theorem buildCommand_gives (arguments : List String) :
    Attempt.Gives (l.Same m) (buildCommand m arguments) (l.command m arguments) := by
  refine (l.findEngine_gives m).bind fun engine _ => ?_
  cases engine with
  | none => exact .pure _
  | some engine =>
    dsimp only
    split
    · refine (l.findHost_gives m).bind fun host _ => ?_
      cases host <;> exact .pure _
    · exact .pure _

end Locator

namespace EngineSettings

/-! ## What is loaded -/

section

variable (m : Machine) (s : Settings) (l : Locator)

/-- The further words of the command line. -/
def argumentsOf : Except Failure (List String) := do
  let line := (← s.lookUp m "ILSPY_ENGINE_ARGS").getD ""
  (Text.shellWords line).mapError .shell

/-- The settings that a locator completes. -/
def resolved : Except Failure EngineSettings := do
  let arguments ← argumentsOf m s
  let language ← s.lookUp m "ILSPY_LANGUAGE"
  let command ← l.command m arguments
  let startupTimeout ← s.secondsOf m "ILSPY_STARTUP_TIMEOUT" defaultStartupTimeout
  let requestTimeout ← s.secondsOf m "ILSPY_REQUEST_TIMEOUT" defaultRequestTimeout
  let stopGrace ← s.secondsOf m "ILSPY_STOP_GRACE" defaultStopGrace
  return { command, language := languageOf (language.getD Language.csharp.name), startupTimeout,
           requestTimeout, stopGrace }

/-- The settings that a new locator completes. -/
def discovered : Except Failure EngineSettings := do
  let explicit ← s.lookUp m "ILSPY_ENGINE_PATH"
  resolved m s (Locator.new m explicit)

theorem extraArguments_gives :
    Attempt.Gives (s.Same m) (extraArguments m) (argumentsOf m s) :=
  (s.get_gives m _).bind fun _ _ => .ofExcept _

/-- Nothing that was remembered has an effect on what is loaded. -/
theorem load_gives : Attempt.Gives (fun t => s.Same m t.1 ∧ l.Same m t.2) (load m)
    (resolved m s l) := by
  have hsettings : ∀ {α : Type} {a : Attempt Settings α} {r : Except Failure α},
      Attempt.Gives (s.Same m) a r → Attempt.Gives (fun t => s.Same m t.1 ∧ l.Same m t.2)
        (loadWith.inSettings (γ := Locator) a) r :=
    fun ha => ha.within (fun _ h => h.1) fun _ _ hs h => ⟨hs, h.2⟩
  have hcommand : ∀ arguments, Attempt.Gives (fun t => s.Same m t.1 ∧ l.Same m t.2)
      (Attempt.within Prod.snd (fun c t => (t.1, c)) (Locator.buildCommand m arguments))
      (l.command m arguments) :=
    fun arguments => (l.buildCommand_gives m arguments).within (fun _ h => h.2)
      fun _ _ hl h => ⟨h.1, hl⟩
  exact (hsettings (extraArguments_gives m s)).bind fun arguments _ =>
    (hsettings (s.get_gives m _)).bind fun language _ =>
    (hcommand arguments).bind fun command _ =>
    (hsettings (s.getSeconds_gives m _ _)).bind fun startup _ =>
    (hsettings (s.getSeconds_gives m _ _)).bind fun request _ =>
    (hsettings (s.getSeconds_gives m _ _)).bind fun grace _ => .pure _

theorem discover_result : ((discover m).runFrom s).1.map Prod.fst = discovered m s := by
  have hpath := s.get_gives m "ILSPY_ENGINE_PATH"
  have hresult := hpath.result s rfl
  have hkept := hpath.kept s rfl
  unfold discover discovered enginePath
  rw [Attempt.runFrom_bind, ← hresult]
  cases hrun : (Settings.get m "ILSPY_ENGINE_PATH").runFrom s with
  | mk r s' =>
    rw [hrun] at hkept
    cases r with
    | error f => rfl
    | ok explicit =>
      have hload := (load_gives m s (Locator.new m explicit)).result
        (s', Locator.new m explicit) ⟨hkept, rfl, rfl⟩
      simp only [bind, Except.bind]
      rw [← hload]
      simp only [Attempt.runFrom, ExceptT.run]
      cases (load m (s', Locator.new m explicit)).1 <;> rfl

/-! ## What stands in the way -/

/-- A line of arguments is refused unless it renders some words. -/
theorem argumentsOf_fails_iff : Fails (argumentsOf m s) ↔ Fails (s.lookUp m "ILSPY_ENGINE_ARGS") ∨
    ∃ line, s.lookUp m "ILSPY_ENGINE_ARGS" = .ok (some line) ∧
      ∀ words, ¬Text.Renders line words := by
  have hsplit : ∀ line, Fails ((Text.shellWords line).mapError Failure.shell) ↔
      ∀ words, ¬Text.Renders line words := by
    intro line
    simp only [fails_mapError_iff, ← Text.shellWords_eq_ok_iff, ne_eq]
  unfold argumentsOf
  rw [fails_bind_iff]
  refine or_congr_right ?_
  constructor
  · rintro ⟨line, hline, hfails⟩
    cases line with
    | none => exact absurd hfails (not_fails_ok _)
    | some line => exact ⟨line, hline, (hsplit line).mp hfails⟩
  · rintro ⟨line, hline, hnone⟩
    exact ⟨some line, hline, (hsplit line).mpr hnone⟩

theorem resolved_fails_iff : Fails (resolved m s l) ↔
    Fails (argumentsOf m s) ∨ Fails (s.lookUp m "ILSPY_LANGUAGE") ∨ Fails (l.command m []) ∨
      Fails (s.lookUp m "ILSPY_STARTUP_TIMEOUT") ∨ Fails (s.lookUp m "ILSPY_REQUEST_TIMEOUT") ∨
        Fails (s.lookUp m "ILSPY_STOP_GRACE") := by
  unfold resolved
  refine fails_bind_iff_or fun arguments => fails_bind_iff_or fun language => ?_
  rw [l.command_fails_iff m [], ← l.command_fails_iff m arguments]
  refine fails_bind_iff_or fun command => ?_
  rw [← s.secondsOf_fails_iff m "ILSPY_STARTUP_TIMEOUT" defaultStartupTimeout,
    ← s.secondsOf_fails_iff m "ILSPY_REQUEST_TIMEOUT" defaultRequestTimeout,
    ← s.secondsOf_fails_iff m "ILSPY_STOP_GRACE" defaultStopGrace]
  exact fails_bind_iff_or fun startup => fails_bind_iff_or fun request =>
    fails_bind_iff_left fun grace => not_fails_ok _

/-- The settings that are looked up for an engine. -/
def keys : List String :=
  ["ILSPY_ENGINE_PATH", "ILSPY_ENGINE_ARGS", "ILSPY_LANGUAGE", "ILSPY_STARTUP_TIMEOUT",
   "ILSPY_REQUEST_TIMEOUT", "ILSPY_STOP_GRACE"]

/-- What stands in the way of the settings: the file is needed and cannot be read, the arguments are no
words, the engine cannot be searched for, or the host cannot that it needs. -/
inductive Stumbles : Prop
  | file {key : String} (hkey : key ∈ keys) (henv : m.getEnv? key = none) (h : s.Unreadable m)
  | arguments {line : String} (hline : s.lookUp m "ILSPY_ENGINE_ARGS" = .ok (some line))
      (h : ∀ words, ¬Text.Renders line words)
  | engine {explicit : Option String} (hpath : s.lookUp m "ILSPY_ENGINE_PATH" = .ok explicit)
      (h : (Locator.new m explicit).EngineLost m)
  | host {explicit : Option String} {engine : String}
      (hpath : s.lookUp m "ILSPY_ENGINE_PATH" = .ok explicit)
      (hengine : Locator.searchEngine m (Locator.new m explicit) = .ok (some engine))
      (hneeds : Locator.needsHost engine = true) (h : (Locator.new m explicit).HostLost m)

theorem Stumbles.of_lookUp {key : String} (hkey : key ∈ keys) (h : Fails (s.lookUp m key)) :
    Stumbles m s :=
  have hfile := (s.lookUp_fails_iff m key).mp h
  .file hkey hfile.1 hfile.2

theorem discovered_fails_iff : Fails (discovered m s) ↔ Stumbles m s := by
  unfold discovered
  rw [fails_bind_iff]
  simp only [resolved_fails_iff, argumentsOf_fails_iff, Locator.command_fails_iff]
  constructor
  · rintro (hpath | ⟨explicit, hpath, (h | ⟨line, hline, h⟩) | h | (h | ⟨engine, hengine, hneeds, h⟩) |
      h | h | h⟩)
    · exact .of_lookUp m s (by decide) hpath
    · exact .of_lookUp m s (by decide) h
    · exact .arguments hline h
    · exact .of_lookUp m s (by decide) h
    · exact .engine hpath ((Locator.searchEngine_fails_iff m _).mp h)
    · exact .host hpath hengine hneeds ((Locator.searchHost_fails_iff m _).mp h)
    · exact .of_lookUp m s (by decide) h
    · exact .of_lookUp m s (by decide) h
    · exact .of_lookUp m s (by decide) h
  · intro hstumbles
    by_cases hfails : Fails (s.lookUp m "ILSPY_ENGINE_PATH")
    · exact .inl hfails
    obtain ⟨explicit, hpath⟩ := not_fails_iff.mp hfails
    refine .inr ⟨explicit, hpath, ?_⟩
    cases hstumbles with
    | @file key hkey henv h =>
      have hkeyfails : Fails (s.lookUp m key) := (s.lookUp_fails_iff m key).mpr ⟨henv, h⟩
      simp only [keys, List.mem_cons, List.not_mem_nil, or_false] at hkey
      rcases hkey with rfl | rfl | rfl | rfl | rfl | rfl
      · exact absurd hkeyfails hfails
      · exact .inl (.inl hkeyfails)
      · exact .inr (.inl hkeyfails)
      · exact .inr (.inr (.inr (.inl hkeyfails)))
      · exact .inr (.inr (.inr (.inr (.inl hkeyfails))))
      · exact .inr (.inr (.inr (.inr (.inr hkeyfails))))
    | arguments hline h => exact .inl (.inr ⟨_, hline, h⟩)
    | engine hpath' h =>
      cases hpath.symm.trans hpath'
      exact .inr (.inr (.inl (.inl ((Locator.searchEngine_fails_iff m _).mpr h))))
    | host hpath' hengine hneeds h =>
      cases hpath.symm.trans hpath'
      exact .inr (.inr (.inl (.inr ⟨_, hengine, hneeds,
        (Locator.searchHost_fails_iff m _).mpr h⟩)))

/-! ## What has fallen back -/

variable {m s l} {found : EngineSettings}

/-- The parts of the settings, one by one. -/
structure Agrees (m : Machine) (s : Settings) (l : Locator) (found : EngineSettings) : Prop where
  command : ∃ arguments, argumentsOf m s = .ok arguments ∧ l.command m arguments = .ok found.command
  language : ∃ value, s.lookUp m "ILSPY_LANGUAGE" = .ok value ∧
    found.language = languageOf (value.getD Language.csharp.name)
  startupTimeout : s.secondsOf m "ILSPY_STARTUP_TIMEOUT" defaultStartupTimeout = .ok found.startupTimeout
  requestTimeout : s.secondsOf m "ILSPY_REQUEST_TIMEOUT" defaultRequestTimeout = .ok found.requestTimeout
  stopGrace : s.secondsOf m "ILSPY_STOP_GRACE" defaultStopGrace = .ok found.stopGrace

theorem Agrees.of_resolved (h : resolved m s l = .ok found) : Agrees m s l found := by
  obtain ⟨arguments, harguments, h⟩ := ok_of_bind_eq_ok h
  obtain ⟨language, hlanguage, h⟩ := ok_of_bind_eq_ok h
  obtain ⟨command, hcommand, h⟩ := ok_of_bind_eq_ok h
  obtain ⟨startup, hstartup, h⟩ := ok_of_bind_eq_ok h
  obtain ⟨request, hrequest, h⟩ := ok_of_bind_eq_ok h
  obtain ⟨grace, hgrace, h⟩ := ok_of_bind_eq_ok h
  cases h
  exact ⟨⟨arguments, harguments, hcommand⟩, ⟨language, hlanguage, by with_reducible rfl⟩,
    hstartup, hrequest, hgrace⟩

/-- The times to wait, each with its setting and its default. -/
def times : List (String × Number × (EngineSettings → Number)) :=
  [("ILSPY_STARTUP_TIMEOUT", defaultStartupTimeout, startupTimeout),
   ("ILSPY_REQUEST_TIMEOUT", defaultRequestTimeout, requestTimeout),
   ("ILSPY_STOP_GRACE", defaultStopGrace, stopGrace)]

theorem secondsOf_eq_fallback {key : String} {fallback : Number} {value : Option String}
    (hvalue : s.lookUp m key = .ok value) (h : ∀ text ∈ value, Binary64.read? text = none) :
    s.secondsOf m key fallback = .ok fallback := by
  rw [Settings.secondsOf, hvalue]
  cases value with
  | none => rfl
  | some text => simp [bind, Except.bind, pure, Except.pure, h text rfl]

theorem languageOf_eq_first {value : Option String}
    (h : ∀ text ∈ value, ∀ language, Language.parse text ≠ .ok language) :
    languageOf (value.getD Language.csharp.name) = .csharp := by
  cases value with
  | none => decide +kernel
  | some text =>
    rw [Option.getD_some, languageOf]
    cases hparse : Language.parse text with
    | ok language => exact absurd hparse (h text rfl language)
    | error e => rfl

/-- What is missing or cannot be used has its default, and without an engine, or the host that it needs,
there is no command. -/
structure FallsBack (m : Machine) (s : Settings) (found : EngineSettings) : Prop where
  language : ∀ value, s.lookUp m "ILSPY_LANGUAGE" = .ok value →
    (∀ text ∈ value, ∀ language, Language.parse text ≠ .ok language) → found.language = .csharp
  seconds : ∀ x ∈ times, ∀ value, s.lookUp m x.1 = .ok value →
    (∀ text ∈ value, Binary64.read? text = none) → x.2.2 found = x.2.1
  engine : ∀ explicit, s.lookUp m "ILSPY_ENGINE_PATH" = .ok explicit →
    Locator.searchEngine m (Locator.new m explicit) = .ok none → found.command = none
  host : ∀ explicit engine, s.lookUp m "ILSPY_ENGINE_PATH" = .ok explicit →
    Locator.searchEngine m (Locator.new m explicit) = .ok (some engine) →
    Locator.needsHost engine = true → Locator.searchHost m (Locator.new m explicit) = .ok none →
    found.command = none

theorem FallsBack.of_discovered (h : discovered m s = .ok found) : FallsBack m s found := by
  obtain ⟨explicit, hpath, hresolved⟩ := ok_of_bind_eq_ok h
  have hagrees := Agrees.of_resolved hresolved
  obtain ⟨arguments, -, hcommand⟩ := hagrees.command
  constructor
  case language =>
    intro value hvalue hunknown
    obtain ⟨value', hvalue', hlanguage⟩ := hagrees.language
    cases hvalue.symm.trans hvalue'
    rw [hlanguage, languageOf_eq_first hunknown]
  case seconds =>
    intro x hx value hvalue hnone
    have hfallback : s.secondsOf m x.1 x.2.1 = .ok x.2.1 := secondsOf_eq_fallback hvalue hnone
    simp only [times, List.mem_cons, List.not_mem_nil, or_false] at hx
    rcases hx with rfl | rfl | rfl
    · exact Except.ok.inj (hagrees.startupTimeout.symm.trans hfallback)
    · exact Except.ok.inj (hagrees.requestTimeout.symm.trans hfallback)
    · exact Except.ok.inj (hagrees.stopGrace.symm.trans hfallback)
  case engine =>
    intro explicit' hpath' hengine
    cases hpath.symm.trans hpath'
    exact Except.ok.inj (hcommand.symm.trans (Locator.command_eq_none m _ (.inl hengine)))
  case host =>
    intro explicit' engine hpath' hengine hneeds hhost
    cases hpath.symm.trans hpath'
    exact Except.ok.inj (hcommand.symm.trans
      (Locator.command_eq_none m _ (.inr ⟨engine, hengine, hneeds, hhost⟩)))

theorem discover_returns_iff : (∃ locator, ((discover m).runFrom s).1 = .ok (found, locator)) ↔
    discovered m s = .ok found := by
  rw [← discover_result]
  cases ((discover m).runFrom s).1 with
  | error f => simp [Except.map]
  | ok result =>
    obtain ⟨found', locator⟩ := result
    simp [Except.map]

end

/-! ## A machine with an engine -/

/-- The engine stands in the working directory, beside a file of settings. -/
def sampleMachine (environment : List (String × String)) (text : String) : Machine where
  root := .directory [("work", .directory
    [("engine", .file .empty 0o755), (".env", .file (.ofBytes text.toUTF8.toList) 0o644)])]
  workingDirectory := ["work"]
  environment := .ofList (("ILSPY_ENGINE_PATH", "engine") :: environment)
  user := "user"
  homes := [("user", "/work")]
  privileged := false
  platform := "Linux"
  hostReply := .failed

def sampleSettings : Settings := ⟨.ofPosition ["program"], none⟩

end EngineSettings

end AssemblyBrowser
