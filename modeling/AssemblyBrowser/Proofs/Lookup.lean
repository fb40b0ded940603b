import AssemblyBrowser.Engine.Settings
import AssemblyBrowser.Proofs.Attempt
import AssemblyBrowser.Proofs.FileSystem
/-!
When a look at the installation or at the settings fails. Main statements: `Locator.diagnose` fails if
what is searched for is not known yet and the search comes to a path that is barred, or needs a home
directory that nobody has; `Settings.status` fails if the file of settings has not been read yet and
the search for it comes to such a path, or it is found and is not in UTF-8.
-/
namespace AssemblyBrowser

theorem Attempt.runFrom_pure {σ α : Type} (v : α) (s : σ) :
    (pure v : Attempt σ α).runFrom s = (.ok v, s) := rfl

theorem Attempt.fails_bind_iff {σ α β : Type} {a : Attempt σ α} {f : α → Attempt σ β} {s : σ} :
    Fails ((a >>= f).runFrom s).1 ↔ Fails (a.runFrom s).1 ∨
      ∃ v s', a.runFrom s = (.ok v, s') ∧ Fails ((f v).runFrom s').1 := by
  rw [runFrom_bind]
  cases a.runFrom s with
  | mk r s' =>
    cases r with
    | error e => simp
    | ok v =>
      constructor
      · exact fun h => .inr ⟨v, s', rfl, h⟩
      · rintro (h | ⟨v, s', hrun, h⟩)
        · exact absurd h (not_fails_ok _)
        · cases hrun
          exact h

/-- A search that goes along the paths, and ends with what is first there, fails at a path that is
barred. -/
theorem Machine.first_fails_iff (m : Machine) {kind : Entry → Bool} {α : Type}
    (search : List Path → Except Failure (Option α)) (found : Path → α) (hnil : search [] = .ok none)
    (hcons : ∀ q paths, search (q :: paths) = do
      if ← m.leadsTo kind q then .ok (some (found q)) else search paths) (paths : List Path) :
    Fails (search paths) ↔ ∃ p, m.ComesTo kind paths p ∧ m.Barred p := by
  induction paths with
  | nil => simp [hnil, ComesTo]
  | cons q paths ih =>
    simp only [hcons, fails_bind_iff, m.leadsTo_fails_iff, m.comesTo_cons]
    constructor
    · rintro (hbars | ⟨there, hthere, hfails⟩)
      · exact ⟨q, .inl rfl, hbars⟩
      · cases there with
        | true => exact absurd hfails (not_fails_ok _)
        | false =>
          obtain ⟨p, hp, hbars⟩ := ih.mp hfails
          exact ⟨p, .inr ⟨hthere, hp⟩, hbars⟩
    · rintro ⟨p, rfl | ⟨hq, hp⟩, hbars⟩
      · exact .inl hbars
      · exact .inr ⟨false, hq, ih.mpr ⟨p, hp, hbars⟩⟩

namespace Locator

variable (m : Machine) (l : Locator)

theorem firstPresent_fails_iff (paths : List Path) : Fails (firstPresent m paths) ↔
    ∃ p, m.ComesTo (fun _ => true) paths p ∧ m.Barred p :=
  m.first_fails_iff (firstPresent m) Path.text rfl (fun _ _ => rfl) paths

/-- Where the engine is cannot be found out. -/
def EngineLost : Prop :=
  match given? l.explicit with
  | some text => Fails (m.expandHome (.ofString text)) ∨
      ∃ p, m.expandHome (.ofString text) = .ok p ∧ m.Barred p
  | none => m.findProgram? engineName = none ∧ (Fails m.home ∨
      ∃ home, m.home = .ok home ∧
        ∃ p, m.ComesTo (fun _ => true) (enginePaths m home l) p ∧ m.Barred p)

/-- Where the host is cannot be found out. -/
def HostLost : Prop :=
  m.findProgram? hostName = none ∧ (Fails (hostPaths m l) ∨
    ∃ paths, hostPaths m l = .ok paths ∧
      ∃ p, m.ComesTo (fun _ => true) paths p ∧ m.Barred p)

theorem searchEngine_fails_iff : Fails (searchEngine m l) ↔ l.EngineLost m := by
  unfold searchEngine EngineLost
  cases given? l.explicit with
  | some text =>
    dsimp only
    rw [fails_bind_iff]
    refine or_congr_right (exists_congr fun p => and_congr_right fun _ => ?_)
    rw [fails_bind_iff, Machine.pathExists, m.leadsTo_fails_iff]
    refine ⟨fun h => h.elim id ?_, .inl⟩
    rintro ⟨there, -, hfails⟩
    cases there <;> exact absurd hfails (not_fails_ok _)
  | none =>
    dsimp only
    cases m.findProgram? engineName with
    | some p => simp
    | none => simp only [fails_bind_iff, firstPresent_fails_iff, true_and]

theorem searchHost_fails_iff : Fails (searchHost m l) ↔ l.HostLost m := by
  unfold searchHost HostLost
  cases m.findProgram? hostName with
  | some p => simp
  | none => simp only [fails_bind_iff, firstPresent_fails_iff, true_and]

/-- Something is not known and cannot be found out. -/
def Lost : Prop := l.engine = none ∧ l.EngineLost m ∨ l.host = none ∧ l.HostLost m

theorem findEngine_run : (findEngine m).runFrom l =
    match l.engine with
    | some p => (.ok (some p), l)
    | none =>
      match searchEngine m l with
      | .ok found => (.ok found, { l with engine := found })
      | .error f => (.error f, l) := by
  unfold findEngine
  rw [Attempt.runFrom_bind_ok (Attempt.runFrom_get l)]
  cases l.engine with
  | some p => rfl
  | none =>
    simp only [Attempt.runFrom_bind, Attempt.runFrom_ofExcept]
    cases searchEngine m l <;> rfl

theorem findHost_run : (findHost m).runFrom l =
    match l.host with
    | some p => (.ok (some p), l)
    | none =>
      match searchHost m l with
      | .ok found => (.ok found, { l with host := found })
      | .error f => (.error f, l) := by
  unfold findHost
  rw [Attempt.runFrom_bind_ok (Attempt.runFrom_get l)]
  cases l.host with
  | some p => rfl
  | none =>
    simp only [Attempt.runFrom_bind, Attempt.runFrom_ofExcept]
    cases searchHost m l <;> rfl

theorem findEngine_fails_iff :
    Fails ((findEngine m).runFrom l).1 ↔ l.engine = none ∧ l.EngineLost m := by
  rw [findEngine_run, ← searchEngine_fails_iff]
  cases l.engine with
  | some p => simp
  | none => cases searchEngine m l <;> simp

/-- The search for the engine has no effect on the search for the host. -/
theorem findHost_fails_iff {l' : Locator} {found : Option String}
    (h : (findEngine m).runFrom l = (.ok found, l')) :
    Fails ((findHost m).runFrom l').1 ↔ l.host = none ∧ l.HostLost m := by
  have hsame : l'.host = l.host ∧ searchHost m l' = searchHost m l := by
    rw [findEngine_run] at h
    split at h
    · cases h
      exact ⟨rfl, rfl⟩
    · split at h
      · cases h
        exact ⟨rfl, rfl⟩
      · cases h
  rw [findHost_run, ← searchHost_fails_iff, hsame.1, hsame.2]
  cases l.host with
  | some p => simp
  | none => cases searchHost m l <;> simp

theorem diagnose_fails_iff : Fails ((diagnose m).runFrom l).1 ↔ l.Lost m := by
  unfold diagnose Lost
  rw [Attempt.fails_bind_iff, findEngine_fails_iff]
  constructor
  · rintro (h | ⟨found, l', hfound, hfails⟩)
    · exact .inl h
    · obtain hhost | ⟨host, l'', -, hfails⟩ := Attempt.fails_bind_iff.mp hfails
      · exact .inr ((findHost_fails_iff m l hfound).mp hhost)
      · rw [Attempt.runFrom_bind_ok (Attempt.runFrom_get l''), Attempt.runFrom_pure] at hfails
        exact absurd hfails (not_fails_ok _)
  · rintro (h | hhost)
    · exact .inl h
    · cases hfound : (findEngine m).runFrom l with
      | mk r l' =>
        cases r with
        | error f => exact .inl ((findEngine_fails_iff m l).mp (hfound ▸ fails_error f))
        | ok found =>
          exact .inr ⟨found, l', rfl,
            Attempt.fails_bind_iff.mpr (.inl ((findHost_fails_iff m l hfound).mpr hhost))⟩

end Locator

namespace Settings

variable (m : Machine)

theorem firstFile_fails_iff (paths : List Path) : Fails (firstFile m paths) ↔
    ∃ p, m.ComesTo Entry.isFile paths p ∧ m.Barred p :=
  m.first_fails_iff (firstFile m) id rfl (fun _ _ => rfl) paths

theorem firstFile_some_iff (paths : List Path) {p : Path} : firstFile m paths = .ok (some p) ↔
    m.ComesTo Entry.isFile paths p ∧ m.isFile p = .ok true := by
  induction paths with
  | nil => simp [firstFile, Machine.ComesTo]
  | cons q paths ih =>
    rw [m.comesTo_cons]
    unfold firstFile
    cases hq : m.isFile q with
    | error f =>
      have hnot : m.leadsTo Entry.isFile q ≠ .ok false := fun h => by
        rw [Machine.isFile, h] at hq
        cases hq
      simp only [bind, Except.bind, reduceCtorEq, hnot, false_and, or_false, false_iff, not_and]
      rintro rfl hp
      rw [hq] at hp
      cases hp
    | ok there =>
      have hq' : m.leadsTo Entry.isFile q = .ok there := hq
      cases there with
      | true =>
        simp only [bind, Except.bind, hq', Except.ok.injEq, Option.some.injEq, reduceCtorEq,
          false_and, or_false, if_true]
        constructor
        · rintro rfl
          exact ⟨rfl, hq⟩
        · exact fun h => h.1.symm
      | false =>
        simp only [bind, Except.bind, hq', true_and, ih, Bool.false_eq_true, if_false]
        constructor
        · exact fun h => ⟨.inr h.1, h.2⟩
        · rintro ⟨rfl | h, hp⟩
          · rw [hq] at hp
            cases hp
          · exact ⟨h, hp⟩

/-- A file that can be read is not in UTF-8. -/
def Garbled (p : Path) : Prop := ∃ data, m.fileAt p = .ok data ∧ decodeUtf8? data.bytes = none

theorem valuesIn_fails_iff {p : Path} (h : m.isFile p = .ok true) :
    Fails (valuesIn m p) ↔ Garbled m p := by
  obtain ⟨pos, e, hs, -⟩ := m.leadsTo_ok_true h
  have hfile : ∀ f, m.fileAt p = .error f → f ≠ .nullCharacter := by
    rintro f hf rfl
    simp only [Machine.fileAt, hs] at hf
    split at hf
    · rename_i he
      cases he
    · split at hf <;> cases hf
    · cases hf
  unfold valuesIn Garbled
  cases hd : m.fileAt p with
  | ok data => cases hu : decodeUtf8? data.bytes <;> simp [hu]
  | error f =>
    have hne := hfile f hd
    cases f with
    | nullCharacter => exact absurd rfl hne
    | _ => simp

variable (s : Settings)

/-- The file of settings has not been read, and it cannot be found out what it holds. -/
def Unreadable : Prop :=
  s.cache = none ∧ (m.HoldsNull s.home ∨ m.Circles s.home ∨
    ∃ home, m.resolve s.home = .ok home ∧
      ∃ p, m.ComesTo Entry.isFile (candidates m home) p ∧
        (m.Barred p ∨ m.isFile p = .ok true ∧ Garbled m p))

/-- What the file holds, read anew. -/
def readFile : Except Failure (OrderedMap String String) := do
  match ← findFile m s with
  | some p => valuesIn m p
  | none => .ok .empty

theorem fileValues_run : (fileValues m).runFrom s =
    match s.cache with
    | some values => (.ok values, s)
    | none =>
      match readFile m s with
      | .error f => (.error f, s)
      | .ok values => (.ok values, { s with cache := some values }) := by
  simp only [Attempt.runFrom, ExceptT.run, fileValues]
  cases s.cache <;> rfl

theorem readFile_fails_iff : Fails (readFile m s) ↔ m.HoldsNull s.home ∨ m.Circles s.home ∨
    ∃ home, m.resolve s.home = .ok home ∧
      ∃ p, m.ComesTo Entry.isFile (candidates m home) p ∧
        (m.Barred p ∨ m.isFile p = .ok true ∧ Garbled m p) := by
  unfold readFile findFile
  rw [fails_bind_iff, fails_bind_iff, m.resolve_fails_iff, or_assoc, or_assoc]
  refine or_congr_right (or_congr_right ?_)
  constructor
  · rintro (⟨home, hhome, hfails⟩ | ⟨found, hfound, hfails⟩)
    · obtain ⟨p, hp, hbars⟩ := (firstFile_fails_iff m _).mp hfails
      exact ⟨home, hhome, p, hp, .inl hbars⟩
    · cases found with
      | none => exact absurd hfails (not_fails_ok _)
      | some p =>
        cases hhome : m.resolve s.home with
        | error f =>
          rw [hhome] at hfound
          cases hfound
        | ok home =>
          rw [hhome] at hfound
          obtain ⟨hp, hthere⟩ := (firstFile_some_iff m _).mp hfound
          exact ⟨home, rfl, p, hp, .inr ⟨hthere, (valuesIn_fails_iff m hthere).mp hfails⟩⟩
  · rintro ⟨home, hhome, p, hp, hbars | ⟨hthere, hgarbled⟩⟩
    · exact .inl ⟨home, hhome, (firstFile_fails_iff m _).mpr ⟨p, hp, hbars⟩⟩
    · refine .inr ⟨some p, ?_, (valuesIn_fails_iff m hthere).mpr hgarbled⟩
      rw [hhome]
      exact (firstFile_some_iff m _).mpr ⟨hp, hthere⟩

theorem status_fails_iff : Fails ((status m).runFrom s).1 ↔ s.Unreadable m := by
  unfold status Unreadable
  rw [Attempt.fails_bind_iff, ← readFile_fails_iff, fileValues_run]
  cases s.cache with
  | some values => simp [Attempt.runFrom_pure]
  | none => cases readFile m s <;> simp [Attempt.runFrom_pure]

end Settings

end AssemblyBrowser
