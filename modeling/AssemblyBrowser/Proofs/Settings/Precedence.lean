import Mathlib.Data.List.DropRight
import Mathlib.Data.List.Induction
import AssemblyBrowser.Proofs.Settings
/-!
Where settings come from while environment and files change. Main statement: at every moment of a run all
looks at the settings go by the same answer, that of the environment, and where it says nothing, that of
the first file at the time when it was first read since it was last forgotten; unless it cannot be found
out what the file holds.
-/
namespace AssemblyBrowser

/-- What comes after leaves the state as it is. -/
theorem Attempt.runFrom_bind_state {σ α β : Type} {a : Attempt σ α} {f : α → Attempt σ β}
    (h : ∀ v t, ((f v).runFrom t).2 = t) (s : σ) :
    ((a >>= f).runFrom s).2 = (a.runFrom s).2 := by
  rw [runFrom_bind]
  cases a.runFrom s with
  | mk r t =>
    cases r with
    | error e => rfl
    | ok v => exact h v t

namespace Settings

/-! ## Runs -/

/-- A look at the settings. -/
inductive Look
  | value (key : String)
  | truth (key : String) (fallback : Bool)
  | seconds (key : String) (fallback : Number)
  | overview

/-- What is known of the settings after a look. -/
def Look.after (m : Machine) (s : Settings) : Look → Settings
  | .value key => ((get m key).runFrom s).2
  | .truth key fallback => ((getBool m key fallback).runFrom s).2
  | .seconds key fallback => ((getSeconds m key fallback).runFrom s).2
  | .overview => ((status m).runFrom s).2

/-- Whether a look is also one at the file: the environment does not have the setting, or all settings
are looked at. -/
def Look.reads (m : Machine) : Look → Bool
  | .value key | .truth key _ | .seconds key _ => (m.getEnv? key).isNone
  | .overview => true

/-- What happens in a run: the environment changes, files are written or deleted, what the file held is
forgotten, or settings are looked at. -/
inductive Step
  | setEnv (key value : String)
  | clearEnv (key : String)
  | files (root : AssemblyBrowser.Entry)
  | reset
  | look (l : Look)

namespace Step

def machine (m : Machine) : Step → Machine
  | .setEnv key value => m.setEnv key value
  | .clearEnv key => m.clearEnv key
  | .files root => { m with root }
  | .reset | .look _ => m

def after (m : Machine) (s : Settings) : Step → Settings
  | .reset => s.reset
  | .look l => l.after m s
  | .setEnv .. | .clearEnv _ | .files _ => s

/-- Whether the file may be read in a step. -/
def reads (m : Machine) : Step → Bool
  | .look l => l.reads m
  | _ => false

def forgets : Step → Bool
  | .reset => true
  | _ => false

end Step

/-- The machine and what is known of the settings after a run. -/
def run (xs : List Step) (b : Machine × Settings) : Machine × Settings :=
  xs.foldl (fun b x => (x.machine b.1, x.after b.1 b.2)) b

/-- The steps of a run, each with the machine that it finds. -/
def trail : Machine → List Step → List (Machine × Step)
  | _, [] => []
  | m, x :: xs => (m, x) :: trail (x.machine m) xs

/-! ## What the file held -/

/-- The first file on the way holds the values; one that may not be read holds none, and so does no
file at all. -/
def FileHolds (m : Machine) (home : Path) (values : OrderedMap String String) : Prop :=
  ∃ pos, m.resolve home = .ok pos ∧
    ((∃ p, m.ComesTo Entry.isFile (candidates m pos) p ∧ m.isFile p = .ok true ∧
        valuesIn m p = .ok values) ∨
      (∀ p ∈ candidates m pos, m.isFile p = .ok false) ∧ values = .empty)

/-- What has happened since the file was last forgotten. -/
def sinceReset (history : List (Machine × Step)) : List (Machine × Step) :=
  history.rtakeWhile fun e => !e.2.forgets

/-- The file held the values when it was first read since it was last forgotten. -/
def Held (home : Path) (history : List (Machine × Step)) (values : OrderedMap String String) : Prop :=
  ∃ before m x after, sinceReset history = before ++ (m, x) :: after ∧ x.reads m = true ∧
    FileHolds m home values ∧
    ∀ e ∈ before, e.2.reads e.1 = true → ∀ values', ¬FileHolds e.1 home values'

/-- The same, found by going through the history. -/
def recalled (home : Path) (history : List (Machine × Step)) : Option (OrderedMap String String) :=
  (sinceReset history).findSome? fun e =>
    if e.2.reads e.1 then (readFile e.1 ⟨home, none⟩).toOption else none

theorem firstFile_none_iff (m : Machine) (paths : List Path) :
    firstFile m paths = .ok none ↔ ∀ p ∈ paths, m.isFile p = .ok false := by
  induction paths with
  | nil => simp [firstFile]
  | cons q paths ih =>
    rw [firstFile, List.forall_mem_cons, ← ih]
    cases m.isFile q with
    | error f => simp [bind, Except.bind]
    | ok there => cases there <;> simp [bind, Except.bind]

theorem readFile_ok_iff (m : Machine) (home : Path) {values : OrderedMap String String} :
    readFile m ⟨home, none⟩ = .ok values ↔ FileHolds m home values := by
  have hholds : FileHolds m home values ↔ ∃ pos, m.resolve home = .ok pos ∧
      ((∃ p, firstFile m (candidates m pos) = .ok (some p) ∧ valuesIn m p = .ok values) ∨
        firstFile m (candidates m pos) = .ok none ∧ values = .empty) := by
    simp only [FileHolds, firstFile_some_iff, firstFile_none_iff, and_assoc]
  rw [hholds]
  unfold readFile findFile
  cases m.resolve home with
  | error f => simp [bind, Except.bind]
  | ok pos =>
    simp only [bind, Except.bind, Except.ok.injEq, exists_eq_left']
    cases firstFile m (candidates m pos) with
    | error f => simp
    | ok found =>
      cases found with
      | none => simp [eq_comm]
      | some p => simp

theorem recalled_eq_some_iff (home : Path) (history : List (Machine × Step))
    {values : OrderedMap String String} :
    recalled home history = some values ↔ Held home history values := by
  have hread : ∀ e : Machine × Step, ∀ values : OrderedMap String String,
      (if e.2.reads e.1 then (readFile e.1 ⟨home, none⟩).toOption else none) = some values ↔
        e.2.reads e.1 = true ∧ FileHolds e.1 home values := by
    intro e values
    rw [← readFile_ok_iff]
    cases e.2.reads e.1 with
    | false => simp
    | true => cases readFile e.1 ⟨home, none⟩ <;> simp [Except.toOption]
  have hunread : ∀ e : Machine × Step,
      (if e.2.reads e.1 then (readFile e.1 ⟨home, none⟩).toOption else none) = none ↔
        (e.2.reads e.1 = true → ∀ values', ¬FileHolds e.1 home values') := by
    intro e
    rw [Option.eq_none_iff_forall_ne_some]
    simp only [ne_eq, hread, not_and]
    exact ⟨fun h hreads values => h values hreads, fun h values hreads => h hreads values⟩
  unfold recalled Held
  rw [List.findSome?_eq_some_iff]
  constructor
  · rintro ⟨before, ⟨m, x⟩, after, hsplit, hfound, hbefore⟩
    obtain ⟨hreads, hholds⟩ := (hread (m, x) values).mp hfound
    exact ⟨before, m, x, after, hsplit, hreads, hholds, fun e he => (hunread e).mp (hbefore e he)⟩
  · rintro ⟨before, m, x, after, hsplit, hreads, hholds, hbefore⟩
    exact ⟨before, (m, x), after, hsplit, (hread (m, x) values).mpr ⟨hreads, hholds⟩, fun e he =>
      (hunread e).mpr (hbefore e he)⟩

/-! ## One step, and a run -/

theorem fileValues_state (m : Machine) (s : Settings) :
    ((fileValues m).runFrom s).2 = ⟨s.home, (s.known m).toOption⟩ := by
  obtain ⟨home, cache⟩ := s
  rw [fileValues_run, known]
  cases cache with
  | some values => rfl
  | none => cases readFile m ⟨home, none⟩ <;> rfl

/-- After a look at the file it is known what it holds, if that can be found out. -/
theorem Look.after_eq (m : Machine) (s : Settings) (l : Look) : l.after m s =
    ⟨s.home, if l.reads m then (s.known m).toOption else s.cache⟩ := by
  have hget : ∀ key, ((get m key).runFrom s).2 =
      ⟨s.home, if (m.getEnv? key).isNone then (s.known m).toOption else s.cache⟩ := by
    intro key
    unfold get
    cases m.getEnv? key with
    | some value => rfl
    | none =>
      rw [Attempt.runFrom_bind_state fun _ _ => rfl, fileValues_state]
      rfl
  cases l with
  | value key => exact hget key
  | truth key fallback =>
    have hstate : ((getBool m key fallback).runFrom s).2 = ((get m key).runFrom s).2 := by
      apply Attempt.runFrom_bind_state
      intro value t
      cases value <;> rfl
    exact hstate.trans (hget key)
  | seconds key fallback =>
    have hstate : ((getSeconds m key fallback).runFrom s).2 = ((get m key).runFrom s).2 := by
      apply Attempt.runFrom_bind_state
      intro value t
      cases value <;> rfl
    exact hstate.trans (hget key)
  | overview =>
    have hstate : ((status m).runFrom s).2 = ((fileValues m).runFrom s).2 :=
      Attempt.runFrom_bind_state (fun _ _ => rfl) s
    exact hstate.trans (fileValues_state m s)

theorem trail_concat (m : Machine) (s : Settings) (xs : List Step) (x : Step) :
    trail m (xs ++ [x]) = trail m xs ++ [((run xs (m, s)).1, x)] := by
  induction xs generalizing m s with
  | nil => rfl
  | cons y ys ih =>
    rw [List.cons_append, trail, ih (y.machine m) (y.after m s)]
    rfl

theorem recalled_concat (home : Path) (history : List (Machine × Step)) (m : Machine) (x : Step) :
    recalled home (history ++ [(m, x)]) = if x.forgets then none
      else (recalled home history).or
        (if x.reads m then (readFile m ⟨home, none⟩).toOption else none) := by
  unfold recalled sinceReset
  rw [List.rtakeWhile_concat]
  cases x.forgets with
  | true => rfl
  | false => simp [List.findSome?_append]

/-- What is remembered after a run is what the file held when it was first read since it was last
forgotten. -/
theorem run_settings (m : Machine) (home : Path) (xs : List Step) :
    (run xs (m, ⟨home, none⟩)).2 = ⟨home, recalled home (trail m xs)⟩ := by
  -- from the end, since the last step decides whether the rest of the history counts
  induction xs using List.reverseRecOn with
  | nil => rfl
  | append_singleton xs x ih =>
    have hlast : (run (xs ++ [x]) (m, ⟨home, none⟩)).2 =
        x.after (run xs (m, ⟨home, none⟩)).1 (run xs (m, ⟨home, none⟩)).2 := by
      rw [run, List.foldl_append]
      rfl
    rw [hlast, ih, trail_concat m ⟨home, none⟩, recalled_concat]
    cases x with
    | setEnv key value => simp [Step.after, Step.forgets, Step.reads]
    | clearEnv key => simp [Step.after, Step.forgets, Step.reads]
    | files root => simp [Step.after, Step.forgets, Step.reads]
    | reset => rfl
    | look l =>
      change l.after (run xs (m, ⟨home, none⟩)).1 ⟨home, recalled home (trail m xs)⟩ =
        ⟨home, (recalled home (trail m xs)).or (if l.reads (run xs (m, ⟨home, none⟩)).1 then
          (readFile (run xs (m, ⟨home, none⟩)).1 ⟨home, none⟩).toOption else none)⟩
      rw [l.after_eq]
      by_cases hreads : l.reads (run xs (m, ⟨home, none⟩)).1 = true
      · rw [if_pos hreads, if_pos hreads]
        cases recalled home (trail m xs) <;> rfl
      · rw [if_neg hreads, if_neg hreads, Option.or_none]

/-! ## All looks at one moment -/

/-- Where a setting comes from, and its value: the environment comes first. -/
def deciding (m : Machine) (values : OrderedMap String String) (key : String) :
    Option (Source × String) :=
  ((m.getEnv? key).map fun value => (.environment, value)).or
    ((values.find? key).map fun value => (.file, value))

/-- All looks at the settings go by the same answers. -/
structure Uniform (m : Machine) (values : OrderedMap String String) (s : Settings) : Prop where
  value : ∀ key fallback, ((get m key).runFrom s).1.map (·.or fallback) =
    .ok (((deciding m values key).map Prod.snd).or fallback)
  truth : ∀ key fallback, ((getBool m key fallback).runFrom s).1 =
    .ok (((deciding m values key).map fun found => isTrue found.2).getD fallback)
  seconds : ∀ key fallback, ((getSeconds m key fallback).runFrom s).1 =
    .ok (((deciding m values key).bind fun found =>
      (Binary64.read? found.2).map .real).getD fallback)
  overview : ((status m).runFrom s).1 =
    .ok (knownKeys.map fun key => (key, deciding m values key))

section

variable {m : Machine} {s : Settings} {values : OrderedMap String String}

theorem sourceOf_eq_deciding (m : Machine) (values : OrderedMap String String) (key : String) :
    sourceOf m values key = deciding m values key := by
  unfold sourceOf deciding
  cases m.getEnv? key <;> rfl

theorem lookUp_eq_deciding (h : s.known m = .ok values) (key : String) :
    s.lookUp m key = .ok ((deciding m values key).map Prod.snd) := by
  unfold lookUp deciding
  rw [h]
  cases m.getEnv? key with
  | some value => rfl
  | none => cases hfound : values.find? key <;> simp [hfound, bind, Except.bind, pure, Except.pure]

theorem uniform_of_known (h : s.known m = .ok values) : Uniform m values s := by
  have hget : ∀ key, ∃ t,
      (get m key).runFrom s = (.ok ((deciding m values key).map Prod.snd), t) := fun key =>
    ⟨_, Prod.ext (((s.get_gives m key).result s rfl).trans (lookUp_eq_deciding h key)) rfl⟩
  constructor
  · intro key fallback
    obtain ⟨t, hkey⟩ := hget key
    rw [hkey]
    rfl
  · intro key fallback
    obtain ⟨t, hkey⟩ := hget key
    rw [getBool, Attempt.runFrom_bind_ok hkey]
    cases deciding m values key with
    | none => rfl
    | some found => simp only [Option.map_some, Attempt.runFrom_pure, Option.getD_some]
  · intro key fallback
    obtain ⟨t, hkey⟩ := hget key
    rw [getSeconds, Attempt.runFrom_bind_ok hkey]
    cases deciding m values key with
    | none => rfl
    | some found => simp only [Option.map_some, Attempt.runFrom_pure, Option.bind_some]
  · obtain ⟨t, hread⟩ : ∃ t, (fileValues m).runFrom s = (.ok values, t) :=
      ⟨_, Prod.ext (((s.fileValues_gives m).result s rfl).trans h) rfl⟩
    rw [status, Attempt.runFrom_bind_ok hread, Attempt.runFrom_pure]
    simp only [sourceOf_eq_deciding]

/-- A look changes nothing about what is known. -/
theorem Look.known_after (l : Look) : (l.after m s).known m = s.known m := by
  rw [l.after_eq]
  obtain ⟨home, cache⟩ := s
  cases l.reads m with
  | false => rfl
  | true =>
    cases hknown : (⟨home, cache⟩ : Settings).known m with
    | ok values => simp [known, Except.toOption]
    | error f =>
      cases cache with
      | some values => cases hknown
      | none => exact hknown

theorem known_looks (ls : List Look) :
    (ls.foldl (fun s l => l.after m s) s).known m = s.known m := by
  induction ls generalizing s with
  | nil => rfl
  | cons l ls ih => exact ih.trans l.known_after

/-- What is known is what the file held when it was first read, be it now. -/
theorem known_eq_ok_iff (home : Path) (history : List (Machine × Step)) :
    known m ⟨home, recalled home history⟩ = .ok values ↔
      Held home (history ++ [(m, .look .overview)]) values := by
  rw [← recalled_eq_some_iff, recalled_concat]
  simp only [Step.forgets, Step.reads, Look.reads, if_true, Bool.false_eq_true, if_false]
  cases recalled home history with
  | some values' => simp [known]
  | none =>
    simp only [known, Option.none_or]
    cases readFile m ⟨home, none⟩ <;> simp [Except.toOption]

end

/-- A machine whose user works in a directory that may not be searched. -/
def closedMachine : Machine where
  root := .directory [("closed", .directory [])]
  workingDirectory := ["closed"]
  environment := ∅
  user := "user"
  homes := [("user", "/")]
  privileged := false
  platform := "Linux"
  hostReply := .failed
  directoryModes := [(["closed"], 0o600)]

end Settings

end AssemblyBrowser
