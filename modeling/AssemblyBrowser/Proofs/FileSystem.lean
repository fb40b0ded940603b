import AssemblyBrowser.FileSystem.Discovery
import AssemblyBrowser.FileSystem.SafePath
/-!
When looking at the file system fails. A path that leads nowhere is no failure, unless it is barred: it
or one of its names is too long, or a directory on its way is closed. Main statements: a path typed by a
user is refused as such, except that a path which holds NUL or leads to a barred place is a failure of
another kind; and a search for assemblies fails if its root is barred or if one of the files found cannot
be resolved.
-/
namespace AssemblyBrowser

variable {α β : Type}

/-- There is no result. -/
def Fails (r : Except Failure α) : Prop := ∃ f, r = .error f

@[simp] theorem not_fails_ok (v : α) : ¬Fails (.ok v : Except Failure α) := by
  rintro ⟨f, hf⟩
  cases hf

@[simp] theorem fails_error (f : Failure) : Fails (.error f : Except Failure α) := ⟨f, rfl⟩

theorem not_fails_iff {r : Except Failure α} : ¬Fails r ↔ ∃ v, r = .ok v := by
  cases r with
  | ok v => simp
  | error f => simp

theorem fails_bind_iff {r : Except Failure α} {f : α → Except Failure β} :
    Fails (r >>= f) ↔ Fails r ∨ ∃ v, r = .ok v ∧ Fails (f v) := by
  cases r with
  | error e => simp [bind, Except.bind]
  | ok v => simp [bind, Except.bind]

/-- What comes first does not decide whether what comes after it fails. -/
theorem fails_bind_iff_or {r : Except Failure α} {f : α → Except Failure β} {P : Prop}
    (h : ∀ v, Fails (f v) ↔ P) : Fails (r >>= f) ↔ Fails r ∨ P := by
  rw [fails_bind_iff]
  cases r with
  | error e => simp
  | ok v => simp [h]

/-- What comes after does not fail. -/
theorem fails_bind_iff_left {r : Except Failure α} {f : α → Except Failure β}
    (h : ∀ v, ¬Fails (f v)) : Fails (r >>= f) ↔ Fails r :=
  (fails_bind_iff_or fun v => iff_false_intro (h v)).trans (iff_of_eq (or_false _))

theorem fails_mapError_iff {ε : Type} {r : Except ε α} {f : ε → Failure} :
    Fails (r.mapError f) ↔ ∀ v, r ≠ .ok v := by
  cases r with
  | error e => exact iff_of_true (fails_error _) fun v h => by cases h
  | ok v => exact iff_of_false (not_fails_ok v) fun h => h v rfl

theorem ok_of_bind_eq_ok {r : Except Failure α} {f : α → Except Failure β} {w : β}
    (h : r >>= f = .ok w) : ∃ v, r = .ok v ∧ f v = .ok w := by
  cases r with
  | error e => cases h
  | ok v => exact ⟨v, rfl, h⟩

theorem fails_mapM_iff {f : α → Except Failure β} {xs : List α} :
    Fails (xs.mapM f) ↔ ∃ x ∈ xs, Fails (f x) := by
  induction xs with
  | nil => simp [pure, Except.pure]
  | cons x xs ih =>
    have hrest : ∀ v, Fails (xs.mapM f >>= fun vs => (pure (v :: vs) : Except Failure (List β))) ↔
        Fails (xs.mapM f) := fun v => fails_bind_iff_left fun vs => not_fails_ok (v :: vs)
    simp only [List.mapM_cons, fails_bind_iff (r := f x), hrest, ih, List.mem_cons,
      exists_eq_or_imp]
    constructor
    · rintro (h | ⟨v, -, h⟩)
      · exact .inl h
      · exact .inr h
    · intro h
      by_cases hx : Fails (f x)
      · exact .inl hx
      · obtain ⟨v, hv⟩ := not_fails_iff.mp hx
        exact .inr ⟨v, hv, h.resolve_left hx⟩

/-- A failure that is about the path a user has given. -/
def Failure.IsPath (f : Failure) : Prop := ∃ e, f = .path e

namespace Machine

/-! ## Looking at a path -/

variable (m : Machine) {p : Path}

/-- Names along which there is no link lead to nothing, to too long a name or to a closed directory, if
not to an end. -/
theorem advance_error {e : Errno} (names : List String) : ∀ {pos : Position},
    m.advance pos names = .error e →
    e = .nameTooLong ∨ e = .accessDenied ∨ e = .notFound ∨ e = .notDirectory := by
  induction names with
  | nil => exact fun h => by cases h
  | cons n rest ih =>
    intro pos h
    simp only [advance] at h
    split at h
    · split at h
      · cases h
        exact .inr (.inl rfl)
      · split at h
        · exact ih h
        · split at h
          · cases h
            exact .inl rfl
          · split at h
            · cases h
              exact .inr (.inr (.inl rfl))
            · cases h
            · exact ih h
    · cases h
      exact .inr (.inr (.inr rfl))
    · cases h
      exact .inr (.inr (.inl rfl))

/-- A walk that does not arrive finds nothing, too long a name or a closed directory. -/
theorem walk_error {e : Errno} (links : Nat) : ∀ {pos : Position} {names : List String},
    m.walk links pos names = .error e →
    e = .nameTooLong ∨ e = .accessDenied ∨ e.saysAbsent = true := by
  have hadvance : ∀ {pos : Position} {names : List String}, m.advance pos names = .error e →
      e = .nameTooLong ∨ e = .accessDenied ∨ e.saysAbsent = true := by
    intro pos names h
    rcases m.advance_error names h with rfl | rfl | rfl | rfl
    · exact .inl rfl
    · exact .inr (.inl rfl)
    · exact .inr (.inr rfl)
    · exact .inr (.inr rfl)
  induction links with
  | zero =>
    intro pos names h
    rw [walk] at h
    split at h
    · rename_i ha
      cases h
      exact hadvance ha
    · cases h
    · cases h
      exact .inr (.inr rfl)
  | succ links ih =>
    intro pos names h
    rw [walk] at h
    split at h
    · rename_i ha
      cases h
      exact hadvance ha
    · cases h
    · exact ih h

theorem stat_ok_iff {pos : Position} {e : Entry} : m.stat p = .ok (pos, e) ↔ p.hasNull = false ∧
    p.text.utf8ByteSize < pathLimit ∧ m.walk linkLimit (m.start p) p.parts = .ok pos ∧
      m.root.find? pos = some e := by
  unfold stat
  cases p.hasNull with
  | true => simp
  | false =>
    by_cases hlong : pathLimit ≤ p.text.utf8ByteSize
    · simp [hlong, Nat.not_lt.mpr hlong]
    · cases hwalk : m.walk linkLimit (m.start p) p.parts with
      | error e' => simp [hlong]
      | ok pos' =>
        simp only [Bool.false_eq_true, if_false, hlong, Nat.not_le.mp hlong, Except.ok.injEq,
          true_and]
        cases hfind : m.root.find? pos' with
        | none =>
          refine iff_of_false (fun h => by cases h) fun ⟨heq, h⟩ => ?_
          rw [← heq, hfind] at h
          cases h
        | some e' =>
          simp only [Except.ok.injEq, Prod.mk.injEq]
          refine and_congr_right fun heq => ?_
          rw [← heq, hfind, Option.some.injEq]

theorem stat_null_iff : m.stat p = .error .nullCharacter ↔ p.hasNull = true := by
  unfold stat
  cases p.hasNull with
  | true => simp
  | false =>
    simp only [Bool.false_eq_true, if_false, iff_false]
    split
    · simp
    · split
      · simp
      · split <;> simp

theorem stat_errno {e : Errno} (h : m.stat p = .error (.errno e)) :
    e = .nameTooLong ∨ e = .notFound ∨ m.walk linkLimit (m.start p) p.parts = .error e := by
  unfold stat at h
  split at h
  · cases h
  · split at h
    · cases h
      exact .inl rfl
    · split at h
      · rename_i hwalk
        cases h
        exact .inr (.inr hwalk)
      · split at h
        · cases h
        · cases h
          exact .inr (.inl rfl)

/-- What is at the end of a path cannot be told. -/
def Barred (p : Path) : Prop := ∃ e, m.stat p = .error (.errno e) ∧ e.saysAbsent = false

/-- A path is barred by its length, by the length of a name on its way, or by a directory on its way
that may not be searched. -/
theorem barred_iff : m.Barred p ↔
    m.stat p = .error (.errno .nameTooLong) ∨ m.stat p = .error (.errno .accessDenied) := by
  constructor
  · rintro ⟨e, hs, hbars⟩
    rcases m.stat_errno hs with rfl | rfl | hwalk
    · exact .inl hs
    · cases hbars
    · rcases m.walk_error linkLimit hwalk with rfl | rfl | habsent
      · exact .inl hs
      · exact .inr hs
      · rw [habsent] at hbars
        cases hbars
  · rintro (hs | hs)
    · exact ⟨_, hs, rfl⟩
    · exact ⟨_, hs, rfl⟩

/-- Whether something is there can be told unless the path is barred. -/
theorem leadsTo_error_iff {kind : Entry → Bool} {f : Failure} : m.leadsTo kind p = .error f ↔
    ∃ e, m.stat p = .error (.errno e) ∧ e.saysAbsent = false ∧ f = e.failure p := by
  unfold leadsTo
  cases hs : m.stat p with
  | ok found => simp
  | error e =>
    cases e with
    | nullCharacter => simp
    | errno e =>
      cases habsent : e.saysAbsent with
      | true => simp [habsent]
      | false =>
        simp only [Bool.false_eq_true, if_false, Except.error.injEq, StatError.errno.injEq,
          exists_eq_left', habsent, true_and]
        exact eq_comm

theorem leadsTo_fails_iff (kind : Entry → Bool) : Fails (m.leadsTo kind p) ↔ m.Barred p := by
  unfold Fails Barred
  simp only [m.leadsTo_error_iff]
  constructor
  · rintro ⟨f, e, hs, hbars, -⟩
    exact ⟨e, hs, hbars⟩
  · rintro ⟨e, hs, hbars⟩
    exact ⟨_, e, hs, hbars, rfl⟩

theorem leadsTo_ok_true {kind : Entry → Bool} (h : m.leadsTo kind p = .ok true) :
    ∃ pos e, m.stat p = .ok (pos, e) ∧ kind e = true := by
  unfold leadsTo at h
  split at h
  · rename_i pos e hs
    exact ⟨pos, e, hs, Except.ok.inj h⟩
  · cases h
  · split at h <;> cases h

/-! ## Paths of a user -/

theorem expandHome_error {f : Failure} (h : m.expandHome p = .error f) :
    f = .nullCharacter ∨ f = .noHome := by
  unfold expandHome at h
  split at h
  · split at h
    · split at h
      · cases h
        exact .inl rfl
      · split at h
        · cases h
          exact .inr rfl
        · dsimp only at h
          split at h
          · cases h
            exact .inr rfl
          · cases h
    · cases h
  · cases h

/-- A path holds NUL, or a link on its way does. -/
def HoldsNull (p : Path) : Prop :=
  p.hasNull = true ∨ m.stat (.ofPosition (m.canonical p)) = .error .nullCharacter

/-- Links on the way of a path lead around in a circle. -/
def Circles (p : Path) : Prop := m.stat (.ofPosition (m.canonical p)) = .error (.errno .linkLoop)

theorem resolve_ok {pos : Position} (h : m.resolve p = .ok pos) : pos = m.canonical p := by
  unfold resolve at h
  split at h
  · cases h
  · dsimp only at h
    split at h <;> cases h
    rfl

theorem resolve_null_iff : m.resolve p = .error .nullCharacter ↔ m.HoldsNull p := by
  unfold resolve HoldsNull
  cases p.hasNull with
  | true => simp
  | false =>
    simp only [Bool.false_eq_true, if_false, false_or]
    split <;> simp_all

theorem resolve_fails_iff : Fails (m.resolve p) ↔ m.HoldsNull p ∨ m.Circles p := by
  unfold resolve HoldsNull Circles
  cases p.hasNull with
  | true => simp
  | false =>
    simp only [Bool.false_eq_true, if_false, false_or]
    split <;> simp_all

/-- A path as typed that cannot be looked at: there is NUL in it, or it leads to a barred place. -/
def Impossible (typed : String) : Prop :=
  let cleaned := SafePath.stripQuotes typed
  cleaned ≠ "" ∧ (m.expandHome (.ofString cleaned) = .error .nullCharacter ∨
    ∃ p, m.expandHome (.ofString cleaned) = .ok p ∧
      (m.HoldsNull p ∨ ∃ pos, m.resolve p = .ok pos ∧ m.Barred (.ofPosition pos)))

theorem resolveTyped_ok_iff (typed : String) {cleaned : String} {pos : Position} :
    m.resolveTyped typed cleaned = .ok pos ↔
      ∃ p, m.expandHome (.ofString cleaned) = .ok p ∧ m.resolve p = .ok pos := by
  unfold resolveTyped
  cases hx : m.expandHome (.ofString cleaned) with
  | error f =>
    rcases m.expandHome_error hx with rfl | rfl <;> simp [Except.bind]
  | ok p =>
    cases hr : m.resolve p with
    | ok pos' => simp [Except.bind, hr]
    | error f => cases f <;> simp [Except.bind, hr]

/-- A path that cannot be resolved is unreadable, unless there is NUL in it. -/
theorem resolveTyped_escapes_iff (typed cleaned : String) :
    (∃ f, m.resolveTyped typed cleaned = .error f ∧ ¬f.IsPath) ↔
      m.expandHome (.ofString cleaned) = .error .nullCharacter ∨
        ∃ p, m.expandHome (.ofString cleaned) = .ok p ∧ m.HoldsNull p := by
  unfold resolveTyped
  cases hx : m.expandHome (.ofString cleaned) with
  | error f =>
    rcases m.expandHome_error hx with rfl | rfl <;> simp [Except.bind, Failure.IsPath]
  | ok p =>
    simp only [Except.bind, Except.ok.injEq, exists_eq_left', reduceCtorEq, false_or,
      ← m.resolve_null_iff]
    cases hr : m.resolve p with
    | ok pos => simp
    | error f => cases f <;> simp [Failure.IsPath]

theorem readableFile_escapes_iff (typed : String) (pos : Position) :
    (∃ f, m.readableFile typed pos = .error f ∧ ¬f.IsPath) ↔ m.Barred (.ofPosition pos) := by
  unfold readableFile isFile
  cases hfile : m.leadsTo Entry.isFile (.ofPosition pos) with
  | error f =>
    obtain ⟨e, hs, habsent, rfl⟩ := m.leadsTo_error_iff.mp hfile
    have hbars : m.Barred (.ofPosition pos) := ⟨e, hs, habsent⟩
    have hf : ¬(e.failure (.ofPosition pos)).IsPath := by
      rintro ⟨e', he⟩
      cases he
    simp [bind, Except.bind, hf, hbars]
  | ok there =>
    have hopen : ¬m.Barred (.ofPosition pos) := fun h => by
      obtain ⟨f, hf⟩ := (m.leadsTo_fails_iff Entry.isFile).mpr h
      rw [hf] at hfile
      cases hfile
    have hpath : ∀ e, (Failure.path e).IsPath := fun e => ⟨e, rfl⟩
    simp only [bind, Except.bind, hopen, iff_false]
    rintro ⟨f, hf, hnot⟩
    refine hnot ?_
    split at hf
    · cases hf
      exact hpath _
    · split at hf
      · split at hf
        · cases hf
        · cases hf
          exact hpath _
      · cases hf
        exact hpath _

/-- A path typed by a user is accepted or refused as a path, unless it is impossible. -/
theorem checkPath_escapes_iff (typed : String) (allowed : Option (List String)) (limit : Int) :
    (∃ f, m.checkPath typed allowed limit = .error f ∧ ¬f.IsPath) ↔ m.Impossible typed := by
  unfold checkPath Impossible
  dsimp only
  split
  · rename_i hempty
    have hpath : (Failure.path .empty).IsPath := ⟨_, rfl⟩
    simp [hempty, hpath]
  · rename_i hne
    have hescapes := m.resolveTyped_escapes_iff typed (SafePath.stripQuotes typed)
    cases hresolved : m.resolveTyped typed (SafePath.stripQuotes typed) with
    | error f =>
      rw [hresolved] at hescapes
      have hnot : ∀ p, m.expandHome (.ofString (SafePath.stripQuotes typed)) = .ok p →
          ∀ pos, m.resolve p ≠ .ok pos := fun p hp pos hpos => by
        have := (m.resolveTyped_ok_iff typed).mpr ⟨p, hp, hpos⟩
        rw [hresolved] at this
        cases this
      simp only [bind, Except.bind]
      rw [hescapes]
      constructor
      · rintro (h | ⟨p, hp, hnull⟩)
        · exact ⟨hne, .inl h⟩
        · exact ⟨hne, .inr ⟨p, hp, .inl hnull⟩⟩
      · rintro ⟨-, h | ⟨p, hp, hnull | ⟨pos, hpos, -⟩⟩⟩
        · exact .inl h
        · exact .inr ⟨p, hp, hnull⟩
        · exact absurd hpos (hnot p hp pos)
    | ok pos =>
      rw [hresolved] at hescapes
      obtain ⟨p, hp, hpos⟩ := (m.resolveTyped_ok_iff typed).mp hresolved
      have hnull : ¬m.HoldsNull p := fun h => by
        rw [← m.resolve_null_iff, hpos] at h
        cases h
      have hread := m.readableFile_escapes_iff typed pos
      simp only [bind, Except.bind, hp, Except.ok.injEq, exists_eq_left', hnull, false_or,
        reduceCtorEq, hpos, hne, ne_eq, not_false_eq_true, true_and, ← hread]
      cases hdata : m.readableFile typed pos with
      | error f => simp
      | ok data =>
        have hpath : ∀ e, (Failure.path e).IsPath := fun e => ⟨e, rfl⟩
        dsimp only
        split
        · simp [hpath]
        · split <;> simp [hpath]

/-! ## Searching for assemblies -/

/-- A directory as given by a user cannot be searched: there is no such home directory, its path is
barred, or one of the assembly files below it cannot be resolved. -/
def Unsearchable (directory : String) : Prop :=
  directory ≠ "" ∧ (Fails (m.expandHome (.ofString directory)) ∨
    ∃ p, m.expandHome (.ofString directory) = .ok p ∧ (m.Barred p ∨
      ∃ es, m.listing? p = some es ∧
        ∃ q ∈ Discovery.inEntries m p es, m.HoldsNull q ∨ m.Circles q))

theorem listing?_eq_some_iff {es : List (String × Entry)} : m.listing? p = some es ↔
    ∃ pos, m.stat p = .ok (pos, .directory es) ∧ m.mayRead (m.directoryMode pos) = true := by
  unfold listing?
  split
  · rename_i pos es' hs
    simp only [hs, Except.ok.injEq, Prod.mk.injEq, Entry.directory.injEq]
    split
    · rename_i hread
      exact ⟨fun h => ⟨pos, ⟨rfl, Option.some.inj h⟩, hread⟩, fun ⟨_, h, _⟩ => congrArg some h.2⟩
    · rename_i hread
      refine ⟨nofun, fun ⟨pos', h, hread'⟩ => ?_⟩
      cases h.1
      exact absurd hread' hread
  · rename_i hnot
    simp only [reduceCtorEq, false_iff, not_exists, not_and]
    exact fun pos hs => absurd hs (hnot pos es)

theorem findAssemblies_fails_iff (directory : String) :
    Fails (m.findAssemblies (some directory)) ↔ m.Unsearchable directory := by
  unfold Unsearchable findAssemblies
  split
  · simp_all
  · rename_i h
    simp_all
  · rename_i text hne h
    cases h
    have hne : directory ≠ "" := fun he => hne he
    rw [fails_bind_iff]
    simp only [hne, ne_eq, not_false_eq_true, true_and]
    refine or_congr_right (exists_congr fun p => and_congr_right fun _ => ?_)
    rw [fails_bind_iff]
    unfold isDirectory
    rw [m.leadsTo_fails_iff]
    refine or_congr_right ?_
    constructor
    · rintro ⟨there, hthere, hfails⟩
      cases there with
      | false => exact absurd hfails (not_fails_ok _)
      | true =>
        simp only [Bool.not_true, Bool.false_eq_true, if_false, fails_bind_iff, fails_mapM_iff,
          m.resolve_fails_iff] at hfails
        obtain ⟨q, hq, hlost⟩ := hfails.resolve_right fun ⟨_, _, h⟩ => not_fails_ok _ h
        cases hlist : m.listing? p with
        | none =>
          rw [hlist] at hq
          cases hq
        | some es =>
          rw [hlist] at hq
          exact ⟨es, rfl, q, hq, hlost⟩
    · rintro ⟨es, hlist, hq⟩
      obtain ⟨pos, hs, -⟩ := m.listing?_eq_some_iff.mp hlist
      have hthere : m.leadsTo Entry.isDirectory p = .ok true := by
        simp only [leadsTo, hs, Entry.isDirectory]
      refine ⟨true, hthere, ?_⟩
      simp only [Bool.not_true, Bool.false_eq_true, if_false, hlist, Option.getD_some,
        fails_bind_iff, fails_mapM_iff, m.resolve_fails_iff]
      exact .inl hq

/-! ## The first of several paths -/

/-- A search among paths for an entry of some kind comes to one of them. -/
def ComesTo (kind : Entry → Bool) (paths : List Path) (p : Path) : Prop :=
  ∃ before after, paths = before ++ p :: after ∧ ∀ q ∈ before, m.leadsTo kind q = .ok false

theorem comesTo_cons {kind : Entry → Bool} {q : Path} {paths : List Path} :
    m.ComesTo kind (q :: paths) p ↔
      p = q ∨ m.leadsTo kind q = .ok false ∧ m.ComesTo kind paths p := by
  constructor
  · rintro ⟨before, after, hsplit, hbefore⟩
    cases before with
    | nil =>
      cases hsplit
      exact .inl rfl
    | cons q' before =>
      cases hsplit
      exact .inr ⟨hbefore _ List.mem_cons_self, before, after, rfl, fun r hr =>
        hbefore r (List.mem_cons_of_mem _ hr)⟩
  · rintro (rfl | ⟨hq, before, after, rfl, hbefore⟩)
    · exact ⟨[], paths, rfl, fun r hr => by cases hr⟩
    · refine ⟨q :: before, after, rfl, fun r hr => ?_⟩
      rcases List.mem_cons.mp hr with rfl | hr
      · exact hq
      · exact hbefore r hr

end Machine

end AssemblyBrowser
