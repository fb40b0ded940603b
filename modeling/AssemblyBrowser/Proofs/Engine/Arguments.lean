import AssemblyBrowser.Proofs.Engine.Settings
/-!
The arguments of an engine, from the environment and from the file of settings. Main statement: a line
stands for the same arguments in both, unless the whole of it is quoted, since the quotes around a value
belong to the file.
-/
namespace AssemblyBrowser.EngineSettings

variable {m : Machine} {s : Settings} {engine words : List String} {line : String}

/-- The settings that are loaded have the command. -/
def Starts (m : Machine) (s : Settings) (command : List String) : Prop :=
  ∃ found locator, ((discover m).runFrom s).1 = .ok (found, locator) ∧ found.command = some command

theorem starts_iff {command : List String} : Starts m s command ↔
    (discovered m s).map (·.command) = .ok (some command) := by
  have hreturns : ∀ {found}, (∃ locator, ((discover m).runFrom s).1 = .ok (found, locator)) ↔
      discovered m s = .ok found := discover_returns_iff
  constructor
  · rintro ⟨found, locator, hrun, hcommand⟩
    rw [hreturns.mp ⟨locator, hrun⟩]
    exact congrArg Except.ok hcommand
  · intro h
    cases hfound : discovered m s with
    | error f =>
      rw [hfound] at h
      cases h
    | ok found =>
      rw [hfound] at h
      obtain ⟨locator, hrun⟩ := hreturns.mpr hfound
      exact ⟨found, locator, hrun, Except.ok.inj h⟩

instance {command : List String} : Decidable (Starts m s command) := decidable_of_iff' _ starts_iff

/-- The words that start the engine are found where the settings say. -/
def Finds (m : Machine) (s : Settings) (engine : List String) : Prop :=
  ∃ explicit, s.lookUp m "ILSPY_ENGINE_PATH" = .ok explicit ∧
    (Locator.new m explicit).command m [] = .ok (some engine)

/-- The arguments that a line renders follow the words that start the engine. -/
theorem Finds.starts (hengine : Finds m s engine) (hreadable : ¬s.Unreadable m)
    (hline : s.lookUp m "ILSPY_ENGINE_ARGS" = .ok (some line)) (hwords : Text.Renders line words) :
    Starts m s (engine ++ words) := by
  obtain ⟨explicit, hpath, hcommand⟩ := hengine
  have harguments : argumentsOf m s = .ok words := by
    rw [argumentsOf, hline]
    simp only [bind, Except.bind, Option.getD_some, Text.shellWords_eq_ok_iff.mpr hwords]
    rfl
  have hfound : ¬Fails (resolved m s (Locator.new m explicit)) := by
    rw [resolved_fails_iff]
    simp only [Settings.lookUp_fails_iff, hreadable, and_false, harguments, hcommand, not_fails_ok,
      or_false, not_false_eq_true]
  obtain ⟨found, hfound⟩ := not_fails_iff.mp hfound
  obtain ⟨arguments, harguments', hstart⟩ := (Agrees.of_resolved hfound).command
  cases harguments.symm.trans harguments'
  rw [Locator.command_eq, hcommand] at hstart
  rw [starts_iff, discovered, hpath]
  simp only [bind, Except.bind, hfound]
  exact congrArg Except.ok (Except.ok.inj hstart).symm

theorem isKey_arguments : EnvFile.IsKey "ILSPY_ENGINE_ARGS" where
  bare := by decide
  nonempty := by decide
  notComment := by decide
  uncut := by decide

/-- A line that renders some arguments, in the environment of one machine and in the file of another:
the engine is started with these arguments on both, if the line is not in quotes. From a line in quotes
the file takes them away first, so the arguments are those that the text between them renders. -/
theorem same_arguments_unless_quoted {line : String} {arguments engine : List String}
    (hrenders : Text.Renders line arguments) (hbare : Text.Bare Text.isBlank line.toList)
    {m₁ : Machine} {s₁ : Settings} (hengine₁ : Finds m₁ s₁ engine) (hreadable : ¬s₁.Unreadable m₁)
    (hset : m₁.getEnv? "ILSPY_ENGINE_ARGS" = some line)
    {m₂ : Machine} {s₂ : Settings} (hengine₂ : Finds m₂ s₂ engine)
    (hunset : m₂.getEnv? "ILSPY_ENGINE_ARGS" = none) {text : String} (hfile : s₂.FileIs m₂ text)
    {before after : List String}
    (hlines : Text.lines text = before ++ ("ILSPY_ENGINE_ARGS" ++ "=" ++ line) :: after)
    (hafter : ∀ later ∈ after, ¬EnvFile.Sets "ILSPY_ENGINE_ARGS" later) :
    Starts m₁ s₁ (engine ++ arguments) ∧
      (¬EnvFile.Quoted line.toList → Starts m₂ s₂ (engine ++ arguments)) ∧
      ∀ q inside words, q = '"' ∨ q = '\'' → line.toList = q :: (inside ++ [q]) → q ∉ inside →
        Text.Renders (String.ofList inside) words → Starts m₂ s₂ (engine ++ words) := by
  have hvalue := hfile.lookUp hunset isKey_arguments hbare hlines hafter
  refine ⟨?_, fun hquoted => ?_, fun q inside words hq hline _ hwords => ?_⟩
  · refine hengine₁.starts hreadable ?_ hrenders
    rw [Settings.lookUp, hset]
    rfl
  · rw [EnvFile.unquoteList_of_not_quoted hquoted, String.ofList_toList] at hvalue
    exact hengine₂.starts hfile.readable hvalue hrenders
  · rw [hline, EnvFile.unquoteList_quoted hq] at hvalue
    exact hengine₂.starts hfile.readable hvalue hwords

/-! ## One line on two machines -/

theorem same_arguments_of_sample :
    Starts (sampleMachine [("ILSPY_ENGINE_ARGS", "--threads 2 'a b'")] "") sampleSettings
        ["engine", "--threads", "2", "a b"] ∧
      Starts (sampleMachine [] "ILSPY_ENGINE_ARGS=--threads 2 'a b'\n") sampleSettings
        ["engine", "--threads", "2", "a b"] := by
  have hrenders : Text.Renders "--threads 2 'a b'" ["--threads", "2", "a b"] :=
    Text.shellWords_eq_ok_iff.mp (by decide +kernel)
  have hengine : ∀ m ∈ [sampleMachine [("ILSPY_ENGINE_ARGS", "--threads 2 'a b'")] "",
      sampleMachine [] "ILSPY_ENGINE_ARGS=--threads 2 'a b'\n"], Finds m sampleSettings ["engine"] := by
    simp only [List.forall_mem_cons, List.not_mem_nil, false_implies, implies_true, and_true]
    exact ⟨⟨some "engine", by decide +kernel, by decide +kernel⟩,
      ⟨some "engine", by decide +kernel, by decide +kernel⟩⟩
  have hempty : sampleSettings.FileIs
      (sampleMachine [("ILSPY_ENGINE_ARGS", "--threads 2 'a b'")] "") "" :=
    ⟨rfl, .ofPosition ["work", ".env"], .ofBytes [], by decide +kernel, by decide +kernel,
      by decide +kernel⟩
  have hfile : sampleSettings.FileIs
      (sampleMachine [] "ILSPY_ENGINE_ARGS=--threads 2 'a b'\n")
      "ILSPY_ENGINE_ARGS=--threads 2 'a b'\n" :=
    ⟨rfl, .ofPosition ["work", ".env"],
      .ofBytes "ILSPY_ENGINE_ARGS=--threads 2 'a b'\n".toUTF8.toList, by decide +kernel,
      by decide +kernel, by decide +kernel⟩
  have hquoted : ¬EnvFile.Quoted "--threads 2 'a b'".toList := by
    rintro ⟨q, inside, hq, h⟩
    obtain rfl : '-' = q := Option.some.inj (congrArg List.head? h)
    revert hq
    decide
  have hlines : Text.lines "ILSPY_ENGINE_ARGS=--threads 2 'a b'\n" =
      [] ++ ("ILSPY_ENGINE_ARGS" ++ "=" ++ "--threads 2 'a b'") :: [] := by decide +kernel
  have hsame := same_arguments_unless_quoted hrenders (by decide)
    (hengine _ (by simp)) hempty.readable (by decide +kernel) (hengine _ (by simp))
    (by decide +kernel) hfile hlines (fun _ h => by cases h)
  exact ⟨hsame.1, hsame.2.1 hquoted⟩

/-- One argument with a blank in it, in quotes: the environment keeps it whole, and the file splits it. -/
theorem quoted_argument_split_by_file :
    Text.Renders "\"a b\"" ["a b"] ∧ Text.Bare Text.isBlank "\"a b\"".toList ∧
      Starts (sampleMachine [("ILSPY_ENGINE_ARGS", "\"a b\"")] "") sampleSettings ["engine", "a b"] ∧
      Text.lines "ILSPY_ENGINE_ARGS=\"a b\"\n" = ["ILSPY_ENGINE_ARGS" ++ "=" ++ "\"a b\""] ∧
      Starts (sampleMachine [] "ILSPY_ENGINE_ARGS=\"a b\"\n") sampleSettings ["engine", "a", "b"] ∧
      ¬Starts (sampleMachine [] "ILSPY_ENGINE_ARGS=\"a b\"\n") sampleSettings ["engine", "a b"] :=
  ⟨Text.shellWords_eq_ok_iff.mp (by decide +kernel), by decide, by decide +kernel,
    by decide +kernel, by decide +kernel, by decide +kernel⟩

end AssemblyBrowser.EngineSettings
