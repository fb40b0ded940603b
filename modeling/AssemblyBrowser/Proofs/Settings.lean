import AssemblyBrowser.Proofs.EnvFile
import AssemblyBrowser.Proofs.Lookup
/-!
What the settings say. Main statements: a setting is looked up with the same result whether or not the file
has been read before, and the lookup fails only for the file, when the environment does not have the
setting.
-/
namespace AssemblyBrowser.Settings

variable (m : Machine) (s : Settings)

/-- What the file holds, remembered or read anew. -/
def known : Except Failure (OrderedMap String String) :=
  match s.cache with
  | some values => .ok values
  | none => readFile m s

theorem known_fails_iff : Fails (s.known m) ↔ s.Unreadable m := by
  unfold known Unreadable
  rw [← readFile_fails_iff]
  cases s.cache <;> simp

/-- The value of a setting. -/
def lookUp (key : String) : Except Failure (Option String) :=
  match m.getEnv? key with
  | some value => pure (some value)
  | none => do return (← s.known m).find? key

theorem lookUp_fails_iff (key : String) :
    Fails (s.lookUp m key) ↔ m.getEnv? key = none ∧ s.Unreadable m := by
  unfold lookUp
  cases m.getEnv? key with
  | some value => simp [pure, Except.pure]
  | none => simp [fails_bind_iff, known_fails_iff, pure, Except.pure]

/-- A setting that is a number of seconds. -/
def secondsOf (key : String) (fallback : Number) : Except Failure Number := do
  match ← s.lookUp m key with
  | some value => return (((Binary64.read? value).map .real).getD fallback)
  | none => return fallback

theorem secondsOf_fails_iff (key : String) (fallback : Number) :
    Fails (s.secondsOf m key fallback) ↔ Fails (s.lookUp m key) := by
  refine fails_bind_iff_left fun value => ?_
  cases value <;> exact not_fails_ok _

/-! ## What is remembered has no effect -/

/-- The other settings hold the same. -/
def Same (s' : Settings) : Prop := s'.known m = s.known m

theorem fileValues_gives : Attempt.Gives (s.Same m) (fileValues m) (s.known m) := by
  have hrun : ∀ s' : Settings, ((fileValues m).runFrom s').1 = s'.known m ∧
      ((fileValues m).runFrom s').2.known m = s'.known m := by
    intro s'
    rw [fileValues_run]
    cases hcache : s'.cache with
    | some values => simp [known, hcache]
    | none => cases hread : readFile m s' <;> simp [known, hcache, hread]
  exact ⟨fun s' h => (hrun s').1.trans h, fun s' h => (hrun s').2.trans h⟩

theorem get_gives (key : String) : Attempt.Gives (s.Same m) (get m key) (s.lookUp m key) := by
  unfold get lookUp
  cases m.getEnv? key with
  | some value => exact .pure _
  | none => exact (s.fileValues_gives m).bind fun values _ => .pure _

theorem getSeconds_gives (key : String) (fallback : Number) :
    Attempt.Gives (s.Same m) (getSeconds m key fallback) (s.secondsOf m key fallback) := by
  refine (s.get_gives m key).bind fun value _ => ?_
  cases value <;> exact .pure _

/-! ## A text as the file -/

/-- The file has not been read yet, and it holds the text. -/
def FileIs (text : String) : Prop :=
  s.cache = none ∧ ∃ p data, findFile m s = .ok (some p) ∧ m.fileAt p = .ok data ∧
    decodeUtf8? data.bytes = some text

variable {m s} {text : String}

theorem FileIs.known (h : s.FileIs m text) : s.known m = .ok (EnvFile.parse text) := by
  obtain ⟨hcache, p, data, hfind, hdata, htext⟩ := h
  simp only [Settings.known, hcache, readFile, hfind, bind, Except.bind, valuesIn, hdata, htext]

theorem FileIs.readable (h : s.FileIs m text) : ¬s.Unreadable m := by
  rw [← known_fails_iff, h.known]
  exact not_fails_ok _

/-- A line of the file decides on a setting that the environment does not have and that no later line
sets. -/
theorem FileIs.lookUp (h : s.FileIs m text) {key value : String} (henv : m.getEnv? key = none)
    (hkey : EnvFile.IsKey key) (hvalue : Text.Bare Text.isBlank value.toList)
    {before after : List String} (hlines : Text.lines text = before ++ (key ++ "=" ++ value) :: after)
    (hafter : ∀ line ∈ after, ¬EnvFile.Sets key line) :
    s.lookUp m key = .ok (some (String.ofList (EnvFile.unquoteList value.toList))) := by
  have hfound := EnvFile.find?_parse hkey hvalue hlines hafter
  rw [Settings.lookUp, henv, h.known]
  exact congrArg Except.ok hfound

end AssemblyBrowser.Settings
