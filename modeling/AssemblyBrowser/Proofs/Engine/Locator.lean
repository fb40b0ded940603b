import AssemblyBrowser.Proofs.Engine.Settings
/-!
Questions to one locator while environment and files change. Main statement: an engine that has been found
stays, one that has not is searched for again, and one that the user names is found there or nowhere; and
a command is built of the engine and the host that a diagnosis after it reports, exactly unless the
diagnosis fails because the host has not been found and cannot be searched for.
-/
namespace AssemblyBrowser.Locator

/-! ## Runs -/

/-- What a locator can be asked for. -/
inductive Query
  | engine
  | host
  | command (arguments : List String)
  | diagnosis

/-- What is known after a question. -/
def Query.after (m : Machine) (l : Locator) : Query → Locator
  | .engine => ((findEngine m).runFrom l).2
  | .host => ((findHost m).runFrom l).2
  | .command arguments => ((buildCommand m arguments).runFrom l).2
  | .diagnosis => ((diagnose m).runFrom l).2

/-- What is known after a run of questions, each asked on the machine as it is then. -/
def asked (xs : List (Machine × Query)) (l : Locator) : Locator :=
  xs.foldl (fun l x => x.2.after x.1 l) l

theorem asked_append (xs ys : List (Machine × Query)) (l : Locator) :
    asked (xs ++ ys) l = asked ys (asked xs l) :=
  List.foldl_append

/-! ## What a question leaves behind -/

variable {m : Machine} {l l' l'' : Locator}

/-- On one machine something may be found, and nothing is forgotten. -/
structure Learns (m : Machine) (l l' : Locator) : Prop where
  platform : l'.platform = l.platform
  explicit : l'.explicit = l.explicit
  engine : ∀ p ∈ l.engine, p ∈ l'.engine
  host : ∀ p ∈ l.host, p ∈ l'.host
  found : ∀ p ∈ l'.engine, p ∈ l.engine ∨ searchEngine m l = .ok (some p)

theorem searchEngine_congr (hplatform : l'.platform = l.platform)
    (hexplicit : l'.explicit = l.explicit) (m : Machine) :
    searchEngine m l' = searchEngine m l := by
  have hwindows : l'.isWindows = l.isWindows := by rw [isWindows, isWindows, hplatform]
  have hpaths : ∀ home, enginePaths m home l' = enginePaths m home l := fun home => by
    rw [enginePaths, enginePaths, hwindows]
  simp only [searchEngine, hpaths, hexplicit]

namespace Learns

theorem refl (m : Machine) (l : Locator) : Learns m l l :=
  ⟨rfl, rfl, fun _ h => h, fun _ h => h, fun _ h => .inl h⟩

theorem trans (h : Learns m l l') (h' : Learns m l' l'') : Learns m l l'' where
  platform := h'.platform.trans h.platform
  explicit := h'.explicit.trans h.explicit
  engine p hp := h'.engine p (h.engine p hp)
  host p hp := h'.host p (h.host p hp)
  found p hp := by
    rcases h'.found p hp with hp | hp
    · exact h.found p hp
    · exact .inr ((searchEngine_congr h.platform h.explicit m).symm.trans hp)

theorem bind {α β : Type} {a : Attempt Locator α} {f : α → Attempt Locator β}
    (ha : ∀ l, Learns m l (a.runFrom l).2) (hf : ∀ v l, Learns m l ((f v).runFrom l).2)
    (l : Locator) : Learns m l ((a >>= f).runFrom l).2 := by
  have hfirst := ha l
  rw [Attempt.runFrom_bind]
  cases hrun : a.runFrom l with
  | mk r l' =>
    rw [hrun] at hfirst
    cases r with
    | error e => exact hfirst
    | ok v => exact hfirst.trans (hf v l')

end Learns

theorem findEngine_learns (m : Machine) (l : Locator) : Learns m l ((findEngine m).runFrom l).2 := by
  rw [findEngine_run]
  cases hengine : l.engine with
  | some p => exact .refl m l
  | none =>
    cases hsearch : searchEngine m l with
    | error f => exact .refl m l
    | ok found =>
      refine ⟨rfl, rfl, fun p hp => ?_, fun _ h => h, fun p hp => .inr ?_⟩
      · rw [hengine] at hp
        cases hp
      · exact hsearch.trans (congrArg Except.ok hp)

theorem findHost_learns (m : Machine) (l : Locator) : Learns m l ((findHost m).runFrom l).2 := by
  rw [findHost_run]
  cases hhost : l.host with
  | some p => exact .refl m l
  | none =>
    cases hsearch : searchHost m l with
    | error f => exact .refl m l
    | ok found =>
      refine ⟨rfl, rfl, fun _ h => h, fun p hp => ?_, fun _ h => .inl h⟩
      rw [hhost] at hp
      cases hp

theorem buildCommand_learns (m : Machine) (arguments : List String) (l : Locator) :
    Learns m l ((buildCommand m arguments).runFrom l).2 := by
  refine Learns.bind (findEngine_learns m) (fun engine l => ?_) l
  cases engine with
  | none => exact .refl m l
  | some engine =>
    dsimp only
    split
    · refine Learns.bind (findHost_learns m) (fun host l => ?_) l
      cases host <;> exact .refl m l
    · exact .refl m l

theorem diagnose_learns (m : Machine) (l : Locator) : Learns m l ((diagnose m).runFrom l).2 := by
  refine Learns.bind (findEngine_learns m) (fun engine l => ?_) l
  refine Learns.bind (findHost_learns m) (fun host l => ?_) l
  exact Learns.bind (fun l => .refl m l) (fun _ l => .refl m l) l

theorem Query.learns (m : Machine) (l : Locator) (q : Query) : Learns m l (q.after m l) := by
  cases q with
  | engine => exact findEngine_learns m l
  | host => exact findHost_learns m l
  | command arguments => exact buildCommand_learns m arguments l
  | diagnosis => exact diagnose_learns m l

/-- What is known after a run of questions was known before, or has been found in the run. -/
structure Learnt (xs : List (Machine × Query)) (l l' : Locator) : Prop where
  platform : l'.platform = l.platform
  explicit : l'.explicit = l.explicit
  engine : ∀ p ∈ l.engine, p ∈ l'.engine
  host : ∀ p ∈ l.host, p ∈ l'.host
  found : ∀ p ∈ l'.engine, p ∈ l.engine ∨ ∃ x ∈ xs, searchEngine x.1 l = .ok (some p)

theorem asked_learnt (xs : List (Machine × Query)) (l : Locator) : Learnt xs l (asked xs l) := by
  induction xs generalizing l with
  | nil => exact ⟨rfl, rfl, fun _ h => h, fun _ h => h, fun _ h => .inl h⟩
  | cons x xs ih =>
    have hfirst := x.2.learns x.1 l
    have hrest := ih (x.2.after x.1 l)
    refine ⟨hrest.platform.trans hfirst.platform, hrest.explicit.trans hfirst.explicit,
      fun p hp => hrest.engine p (hfirst.engine p hp), fun p hp => hrest.host p (hfirst.host p hp),
      fun p hp => ?_⟩
    rcases hrest.found p hp with hp | ⟨y, hy, hp⟩
    · rcases hfirst.found p hp with hp | hp
      · exact .inl hp
      · exact .inr ⟨x, List.mem_cons_self, hp⟩
    · rw [searchEngine_congr hfirst.platform hfirst.explicit] at hp
      exact .inr ⟨y, List.mem_cons_of_mem _ hy, hp⟩

/-! ## What is known stays -/

variable {p engine : String} {host : Option String} {arguments words : List String}

theorem findEngine_of_known (h : l.engine = some p) : (findEngine m).runFrom l = (.ok (some p), l) := by
  rw [findEngine_run, h]

theorem findEngine_of_unknown (h : l.engine = none) :
    ((findEngine m).runFrom l).1 = searchEngine m l := by
  rw [findEngine_run, h]
  cases searchEngine m l <;> rfl

theorem findHost_of_known (h : l.host = some p) : (findHost m).runFrom l = (.ok (some p), l) := by
  rw [findHost_run, h]

/-- An answer is remembered, or it is found now and remembered from now on. -/
theorem remembered_or_found {known found : Option String}
    {search : Except Failure (Option String)} {keep : Option String → Locator}
    (h : (match known with
      | some p => (.ok (some p), l)
      | none =>
        match search with
        | .ok found => (.ok found, keep found)
        | .error f => (.error f, l)) = ((.ok found : Except Failure (Option String)), l')) :
    known = found ∧ l' = l ∨ search = .ok found ∧ l' = keep found := by
  cases known with
  | some p =>
    cases h
    exact .inl ⟨rfl, rfl⟩
  | none =>
    cases search with
    | error f => cases h
    | ok found' =>
      cases h
      exact .inr ⟨rfl, rfl⟩

theorem findEngine_returns {found : Option String} (h : (findEngine m).runFrom l = (.ok found, l')) :
    l.engine = found ∧ l' = l ∨ searchEngine m l = .ok found ∧ l' = { l with engine := found } :=
  remembered_or_found ((findEngine_run m l).symm.trans h)

theorem findHost_returns {found : Option String} (h : (findHost m).runFrom l = (.ok found, l')) :
    l.host = found ∧ l' = l ∨ searchHost m l = .ok found ∧ l' = { l with host := found } :=
  remembered_or_found ((findHost_run m l).symm.trans h)

theorem engine_of_findEngine {found : Option String}
    (h : (findEngine m).runFrom l = (.ok found, l')) : l'.engine = found := by
  rcases findEngine_returns h with ⟨hengine, rfl⟩ | ⟨-, rfl⟩
  · exact hengine
  · rfl

theorem host_of_findHost {found : Option String}
    (h : (findHost m).runFrom l = (.ok found, l')) : l'.host = found := by
  rcases findHost_returns h with ⟨hhost, rfl⟩ | ⟨-, rfl⟩
  · exact hhost
  · rfl

/-! ## Commands -/

/-- The name ends in `.dll`, in whatever case. -/
def IsLibrary (engine : String) : Prop :=
  ∃ before tail, engine.toList = before ++ tail ∧ tail.map Char.toLower = ".dll".toList

theorem needsHost_iff : needsHost engine = true ↔ IsLibrary engine := by
  have hlower : (Text.lower engine).toList = engine.toList.map Char.toLower := String.toList_ofList
  have hsuffix : needsHost engine = true ↔ ".dll".toList <:+ engine.toList.map Char.toLower := by
    rw [needsHost, Discovery.endsWith, List.isPrefixOf_iff_prefix, List.reverse_prefix, hlower]
  rw [hsuffix]
  constructor
  · rintro ⟨before, h⟩
    obtain ⟨before', tail, hname, -, htail⟩ := List.map_eq_append_iff.mp h.symm
    exact ⟨before', tail, hname, htail⟩
  · rintro ⟨before, tail, hname, htail⟩
    exact ⟨before.map Char.toLower, by rw [hname, List.map_append, htail]⟩

/-- A command names the engine first, or the host before the engine if that is in a library file. -/
inductive IsCommand (engine : String) (host : Option String) (arguments : List String) :
    List String → Prop
  | alone (h : ¬IsLibrary engine) : IsCommand engine host arguments (engine :: arguments)
  | hosted {program : String} (h : IsLibrary engine) (hhost : host = some program) :
      IsCommand engine host arguments (program :: engine :: arguments)

theorem IsCommand.of_host {host' : Option String} (h : IsCommand engine host arguments words)
    (hhost : ∀ program, host = some program → host' = some program) :
    IsCommand engine host' arguments words := by
  cases h with
  | alone h => exact .alone h
  | hosted h hprogram => exact .hosted h (hhost _ hprogram)

/-- A command is built of what is known afterwards. -/
theorem buildCommand_returns (h : (buildCommand m arguments).runFrom l = (.ok (some words), l')) :
    ∃ engine, l'.engine = some engine ∧ IsCommand engine l'.host arguments words := by
  obtain ⟨found, l₁, hfound, h⟩ := Attempt.bind_returns h
  cases found with
  | none => cases h
  | some engine =>
    have hengine := engine_of_findEngine hfound
    refine ⟨engine, ?_⟩
    dsimp only at h
    split at h
    · next hneeds =>
      obtain ⟨found, l₂, hhost, h⟩ := Attempt.bind_returns h
      have hkept := (findHost_learns m l₁).engine engine hengine
      rw [hhost] at hkept
      cases found with
      | none => cases h
      | some program =>
        cases h
        exact ⟨hkept, .hosted (needsHost_iff.mp hneeds) (host_of_findHost hhost)⟩
    · next hneeds =>
      cases h
      exact ⟨hengine, .alone (fun hlibrary => hneeds (needsHost_iff.mpr hlibrary))⟩

/-- From now on the engine is this one: so says every search, and every command is built of it. -/
structure Stays (l : Locator) (p : String) : Prop where
  answer : ∀ xs m, ((findEngine m).runFrom (asked xs l)).1 = .ok (some p)
  command : ∀ xs m arguments words,
    ((buildCommand m arguments).runFrom (asked xs l)).1 = .ok (some words) →
      ∃ host, IsCommand p host arguments words

theorem Stays.of_known (h : l.engine = some p) : Stays l p := by
  have hknown : ∀ xs, (asked xs l).engine = some p := fun xs => (asked_learnt xs l).engine p h
  constructor
  case answer =>
    intro xs m
    rw [findEngine_of_known (hknown xs)]
  case command =>
    intro xs m arguments words hwords
    obtain ⟨engine, hengine, hcommand⟩ := buildCommand_returns (Prod.ext hwords rfl)
    have hkept := (buildCommand_learns m arguments (asked xs l)).engine p (hknown xs)
    cases hengine.symm.trans hkept
    exact ⟨_, hcommand⟩

/-! ## Diagnoses -/

/-- A command is built of the engine and of the host that a diagnosis reports. -/
def AsDiagnosed (m : Machine) (l : Locator) (arguments words : List String) : Prop :=
  ∃ facts engine host, ((diagnose m).runFrom l).1 = .ok facts ∧
    Assoc.find? "engine_path" facts = some (.text engine) ∧
    Assoc.find? "dotnet_path" facts = some (.ofText? host) ∧
    IsCommand engine host arguments words

/-- What a diagnosis reports, if the engine is known. -/
theorem diagnose_returns {facts : List (String × Json)} (hengine : l.engine = some engine)
    (h : ((diagnose m).runFrom l).1 = .ok facts) :
    Assoc.find? "engine_path" facts = some (.text engine) ∧
      ∃ host, Assoc.find? "dotnet_path" facts = some (.ofText? host) ∧
        ∀ program, l.host = some program → host = some program := by
  obtain ⟨l', hrun⟩ : ∃ l', (diagnose m).runFrom l = (.ok facts, l') := ⟨_, Prod.ext h rfl⟩
  obtain ⟨found, l₁, hfound, h⟩ := Attempt.bind_returns hrun
  cases (findEngine_of_known hengine).symm.trans hfound
  obtain ⟨host, l₂, hhost, h⟩ := Attempt.bind_returns h
  cases h
  refine ⟨rfl, host, rfl, fun program hprogram => ?_⟩
  cases (findHost_of_known hprogram).symm.trans hhost
  rfl

theorem asDiagnosed_iff (hengine : l.engine = some engine)
    (hcommand : IsCommand engine l.host arguments words) :
    AsDiagnosed m l arguments words ↔ ¬(l.host = none ∧ l.HostLost m) := by
  have hlost : Fails ((diagnose m).runFrom l).1 ↔ l.host = none ∧ l.HostLost m := by
    rw [diagnose_fails_iff, Lost, hengine]
    simp
  rw [← hlost, not_fails_iff]
  constructor
  · rintro ⟨facts, _, _, hfacts, -⟩
    exact ⟨facts, hfacts⟩
  · rintro ⟨facts, hfacts⟩
    -- the diagnosis may come to know a host that the command does without
    obtain ⟨hpath, host, hhost, hsame⟩ := diagnose_returns hengine hfacts
    exact ⟨facts, engine, host, hfacts, hpath, hhost, hcommand.of_host hsame⟩

/-! ## Runs from the beginning -/

section

variable {m₀ : Machine} {explicit : Option String} {xs : List (Machine × Query)}

/-- What is known has been found on some machine of the run. -/
theorem searched_of_known (h : (asked xs (new m₀ explicit)).engine = some p) :
    ∃ x ∈ xs, searchEngine x.1 (new m₀ explicit) = .ok (some p) := by
  rcases (asked_learnt xs (new m₀ explicit)).found p h with hnew | hsearch
  · cases hnew
  · exact hsearch

/-- What is not known is searched for as if for the first time. -/
theorem findEngine_as_new (h : (asked xs (new m₀ explicit)).engine = none) :
    ((findEngine m).runFrom (asked xs (new m₀ explicit))).1 =
      ((findEngine m).runFrom (new m₀ explicit)).1 := by
  have hrun := asked_learnt xs (new m₀ explicit)
  rw [findEngine_of_unknown h, findEngine_of_unknown rfl,
    searchEngine_congr hrun.platform hrun.explicit]

end

/-- A text names a path, and there something is. -/
def Leads (m : Machine) (text p : String) : Prop :=
  ∃ path, m.expandHome (.ofString text) = .ok path ∧ m.pathExists path = .ok true ∧ p = path.text

theorem leads_of_searchEngine {text : String} (hexplicit : l.explicit = some text) (hne : text ≠ "")
    (h : searchEngine m l = .ok (some p)) : Leads m text p := by
  have hgiven : given? l.explicit = some text := by
    rw [hexplicit, given?]
    exact fun h => hne (Option.some.inj h)
  unfold searchEngine at h
  rw [hgiven] at h
  obtain ⟨path, hpath, h⟩ := ok_of_bind_eq_ok h
  obtain ⟨there, hthere, h⟩ := ok_of_bind_eq_ok h
  cases there with
  | false => cases h
  | true =>
    cases h
    exact ⟨path, hpath, hthere, rfl⟩

/-- The engine is on the search path, and the home directory is called as nobody is. -/
def homelessMachine : Machine where
  root := .directory [("bin", .directory [("ilspy-backend", .file .empty 0o755)])]
  workingDirectory := []
  environment := .ofList [("HOME", "~"), ("PATH", "/bin")]
  user := "user"
  homes := [("user", "/")]
  privileged := false
  platform := "Linux"
  hostReply := .failed

end AssemblyBrowser.Locator
