import AssemblyBrowser.Proofs.FileSystem.Canonical
/-!
Which paths of a user are accepted, and how the others are refused. Main statements: an accepted path is
confined unless the list of directories is empty, or a link has been left in it; and what is refused is
refused for its own reason, unless the path is impossible, or the list of directories is empty.
-/
namespace AssemblyBrowser.Machine

variable (m : Machine) {typed : String} {allowed : Option (List String)} {limit : Int}
  {pos : Position} {data : FileData}

/-! ## What decides about a path -/

/-- A path as typed is resolved to a place. -/
def Names (typed : String) (pos : Position) : Prop :=
  SafePath.stripQuotes typed ≠ "" ∧
    ∃ p, m.expandHome (.ofString (SafePath.stripQuotes typed)) = .ok p ∧ m.resolve p = .ok pos

/-- The path to a place leads to a file that may be read. -/
def Readable (pos : Position) (data : FileData) : Prop :=
  ∃ dest mode, m.stat (.ofPosition pos) = .ok (dest, .file data mode) ∧ m.mayRead mode = true

/-- A place lies in one of the directories, component by component, if a list of them is given. -/
def Inside (allowed : Option (List String)) (pos : Position) : Prop :=
  ∀ directories, allowed = some directories →
    ∃ d ∈ directories, ∃ base, m.resolve (.ofString d) = .ok base ∧ base <+: pos

theorem insideAny_iff {directories : List String} :
    m.insideAny directories pos = true ↔ m.Inside (some directories) pos := by
  unfold insideAny Inside
  simp only [List.any_eq_true, Option.some.injEq, forall_eq']
  refine exists_congr fun d => and_congr_right fun _ => ?_
  cases m.resolve (.ofString d) with
  | error f => simp
  | ok base => simp

theorem not_inside_empty (pos : Position) : ¬m.Inside (some []) pos := by
  intro h
  obtain ⟨d, hd, -⟩ := h [] rfl
  cases hd

theorem readableFile_ok_iff : m.readableFile typed pos = .ok data ↔ m.Readable pos data := by
  unfold readableFile Readable isFile
  constructor
  · intro h
    obtain ⟨there, -, h⟩ := ok_of_bind_eq_ok h
    split at h
    · cases h
    · split at h
      · rename_i dest data' mode hs
        split at h
        · rename_i hread
          cases h
          exact ⟨dest, mode, hs, hread⟩
        · cases h
      · cases h
  · rintro ⟨dest, mode, hs, hread⟩
    have hthere : m.leadsTo Entry.isFile (.ofPosition pos) = .ok true := by
      simp only [leadsTo, hs, Entry.isFile]
    simp [hthere, hs, hread, bind, Except.bind]

/-- A file that may not be read is refused for that, if it can be told. -/
theorem readableFile_error {f : Failure} (h : m.readableFile typed pos = .error f) (hf : f.IsPath) :
    f = .path (.unreadable typed none) := by
  unfold readableFile isFile at h
  cases hfile : m.leadsTo Entry.isFile (.ofPosition pos) with
  | error f' =>
    rw [hfile] at h
    cases h
    obtain ⟨e, -, -, rfl⟩ := m.leadsTo_error_iff.mp hfile
    obtain ⟨e', he⟩ := hf
    cases he
  | ok there =>
    rw [hfile] at h
    simp only [bind, Except.bind] at h
    split at h
    · cases h
      rfl
    · split at h
      · split at h
        · cases h
        · cases h
          rfl
      · cases h
        rfl

/-- A readable file is accepted or refused for where it is, or for its size. An empty list of
directories is passed over. -/
theorem checkPath_of_readable (allowed : Option (List String)) (limit : Int)
    (hnames : m.Names typed pos) (hread : m.Readable pos data) :
    (m.checkPath typed allowed limit = .ok pos ∧ (m.Inside allowed pos ∨ allowed = some []) ∧
      (data.size : Int) ≤ limit) ∨
    (m.checkPath typed allowed limit = .error (.path (.outside typed)) ∧
      ¬(m.Inside allowed pos ∨ allowed = some [])) ∨
    (m.checkPath typed allowed limit = .error (.path (.tooLarge data.size limit)) ∧
      (m.Inside allowed pos ∨ allowed = some []) ∧ limit < data.size) := by
  obtain ⟨hne, hp⟩ := hnames
  have hresolved := (m.resolveTyped_ok_iff typed).mpr hp
  have hdata : m.readableFile typed pos = .ok data := m.readableFile_ok_iff.mpr hread
  have hguard : (!(allowed.getD []).isEmpty && !m.insideAny (allowed.getD []) pos) = true ↔
      ¬(m.Inside allowed pos ∨ allowed = some []) := by
    cases allowed with
    | none => simp [Inside]
    | some directories =>
      rw [← m.insideAny_iff]
      cases directories with
      | nil => simp
      | cons d ds => simp
  unfold checkPath
  simp only [hne, if_false, hresolved, hdata, bind, Except.bind]
  split
  · rename_i hout
    exact .inr (.inl ⟨rfl, hguard.mp hout⟩)
  · rename_i hin
    rw [hguard, not_not] at hin
    split
    · rename_i hlarge
      exact .inr (.inr ⟨rfl, hin, hlarge⟩)
    · rename_i hsmall
      exact .inl ⟨rfl, hin, not_lt.mp hsmall⟩

/-- What is not resolved to a readable file is not accepted, and is refused as unreadable if it is
refused as a path. -/
theorem checkPath_of_unreadable (allowed : Option (List String)) (limit : Int)
    (h : ∀ pos data, m.Names typed pos → ¬m.Readable pos data) :
    ∃ f, m.checkPath typed allowed limit = .error f ∧
      ∀ e, f = .path e → e.kind = "UnreadableFileError" := by
  unfold checkPath
  dsimp only
  split
  · exact ⟨_, rfl, fun e he => by cases he; rfl⟩
  · rename_i hne
    cases hresolved : m.resolveTyped typed (SafePath.stripQuotes typed) with
    | error f =>
      refine ⟨f, rfl, ?_⟩
      rintro e rfl
      unfold resolveTyped at hresolved
      split at hresolved <;> cases hresolved
      rfl
    | ok pos =>
      have hnames : m.Names typed pos := ⟨hne, (m.resolveTyped_ok_iff typed).mp hresolved⟩
      cases hdata : m.readableFile typed pos with
      | ok data => exact absurd (m.readableFile_ok_iff.mp hdata) (h pos data hnames)
      | error f =>
        simp only [bind, Except.bind, hdata]
        refine ⟨f, rfl, fun e he => ?_⟩
        have := m.readableFile_error hdata ⟨e, he⟩
        cases he.symm.trans this
        rfl

/-- Readable files of at most the allowed size are accepted, and nothing else is: those inside the
directories, or all where the list of these is empty. -/
theorem checkPath_ok_iff : m.checkPath typed allowed limit = .ok pos ↔
    m.Names typed pos ∧ (m.Inside allowed pos ∨ allowed = some []) ∧
      ∃ data, m.Readable pos data ∧ data.size ≤ limit := by
  constructor
  · intro h
    by_cases hfile : ∃ pos data, m.Names typed pos ∧ m.Readable pos data
    · obtain ⟨pos', data, hnames, hread⟩ := hfile
      rcases m.checkPath_of_readable allowed limit hnames hread with
        ⟨hok, hin, hsize⟩ | ⟨hout, -⟩ | ⟨hlarge, -⟩
      · cases hok.symm.trans h
        exact ⟨hnames, hin, data, hread, hsize⟩
      · cases hout.symm.trans h
      · cases hlarge.symm.trans h
    · obtain ⟨f, hf, -⟩ := m.checkPath_of_unreadable allowed limit fun pos data hnames hread =>
        hfile ⟨pos, data, hnames, hread⟩
      cases hf.symm.trans h
  · rintro ⟨hnames, hin, data, hread, hsize⟩
    rcases m.checkPath_of_readable allowed limit hnames hread with
      ⟨hok, -⟩ | ⟨-, hout⟩ | ⟨-, -, hlarge⟩
    · exact hok
    · exact absurd hin hout
    · exact absurd hsize (not_le.mpr hlarge)

/-! ## Accepted paths -/

/-- What an accepted path promises: no link stands on the way to its place, a readable file of at most
the allowed size is there, and it lies in one of the directories. -/
structure Confined (allowed : Option (List String)) (limit : Int) (pos : Position) : Prop where
  linkFree : m.LinkFree pos
  readable : ∃ data, m.Readable pos data ∧ data.size ≤ limit
  inside : m.Inside allowed pos

/-- A link stands on the way to the place, since one on the way of the path as typed leads back to
itself or cannot be looked at. -/
def LeavesLink (typed : String) (pos : Position) : Prop :=
  (∃ q target, q <+: pos ∧ m.root.find? q = some (.link target)) ∧
    ∃ p, m.expandHome (.ofString (SafePath.stripQuotes typed)) = .ok p ∧
      (m.TurnsBack p ∨ m.Overlooks p)

variable {m}

/-- An accepted path is confined unless the list of directories is empty or a link has been left in
it. -/
theorem confined_iff (hm : m.Sound) (h : m.checkPath typed allowed limit = .ok pos) :
    m.Confined allowed limit pos ↔ allowed ≠ some [] ∧ ¬m.LeavesLink typed pos := by
  obtain ⟨⟨-, p, hp, hpos⟩, hin, hread⟩ := m.checkPath_ok_iff.mp h
  constructor
  · rintro ⟨hfree, -, hinside⟩
    refine ⟨fun hempty => m.not_inside_empty pos (hempty ▸ hinside), ?_⟩
    exact fun ⟨⟨q, target, hq, hlink⟩, _⟩ => hfree q hq target hlink
  · rintro ⟨hsome, hleaves⟩
    refine ⟨fun q hq target hlink => hleaves ⟨⟨q, target, hq, hlink⟩, p, hp, ?_⟩, hread,
      hin.resolve_right hsome⟩
    by_contra hnone
    rw [not_or] at hnone
    have hfree := hm.linkFree_canonical hnone.2 hnone.1
    rw [← m.resolve_ok hpos] at hfree
    exact hfree q hq target hlink

/-- A machine with one file. -/
def oneFile : Machine := .inRoot [("Lib.dll", .file (.ofBytes [77, 90]) 0o644)]

/-- An empty list of directories lets every file pass. -/
theorem not_confined_of_empty_list : oneFile.checkPath "/Lib.dll" (some []) 100 = .ok ["Lib.dll"] ∧
    ¬oneFile.Confined (some []) 100 ["Lib.dll"] := by
  have hcheck : oneFile.checkPath "/Lib.dll" (some []) 100 = .ok ["Lib.dll"] := by decide +kernel
  have hsound : oneFile.Sound := sound_inRoot ⟨by decide, by decide, trivial, trivial⟩
  exact ⟨hcheck, fun h => ((confined_iff hsound hcheck).mp h).1 rfl⟩

-- behind a link that leads back to itself, the link out of the allowed directory is left standing
example : (inRoot [("loop", .link "loop"), ("ok", .directory [("evil", .link "../secret")]),
    ("secret", .directory [("S.dll", .file .empty 0o644)])]).checkPath
      "/loop/../ok/evil/S.dll" (some ["/ok"]) 100 = .ok ["ok", "evil", "S.dll"] := by
  decide +kernel

variable (m)

/-! ## Refused paths -/

/-- A path is accepted or refused as a path, and for its own reason: as unreadable wherever it is not
resolved to a readable file, as outside only where such a file is outside, and as too large only where
such a file is inside. -/
structure Classified (typed : String) (allowed : Option (List String)) (limit : Int) : Prop where
  refused : ∀ f, m.checkPath typed allowed limit = .error f → f.IsPath
  unreadable : (∀ pos data, m.Names typed pos → ¬m.Readable pos data) →
    ∃ e, m.checkPath typed allowed limit = .error (.path e) ∧ e.kind = "UnreadableFileError"
  outside : ∀ e, m.checkPath typed allowed limit = .error (.path e) →
    e.kind = "PathTraversalError" →
    ∃ pos data, m.Names typed pos ∧ m.Readable pos data ∧ ¬m.Inside allowed pos
  tooLarge : ∀ e, m.checkPath typed allowed limit = .error (.path e) → e.kind = "FileSizeError" →
    ∃ pos data, m.Names typed pos ∧ m.Readable pos data ∧ m.Inside allowed pos ∧ limit < data.size

/-- Every path is classified, but for impossible ones, and but for files that are too large where the
list of directories is empty. -/
theorem classified_iff (typed : String) (allowed : Option (List String)) (limit : Int) :
    m.Classified typed allowed limit ↔ ¬m.Impossible typed ∧
      ¬(allowed = some [] ∧
        ∃ pos data, m.Names typed pos ∧ m.Readable pos data ∧ limit < data.size) := by
  rw [← m.checkPath_escapes_iff typed allowed limit]
  constructor
  · intro h
    refine ⟨fun ⟨f, hf, hnot⟩ => hnot (h.refused f hf), ?_⟩
    rintro ⟨rfl, pos, data, hnames, hread, hlarge⟩
    rcases m.checkPath_of_readable (some []) limit hnames hread with
      ⟨-, -, hsmall⟩ | ⟨-, hnot⟩ | ⟨hrefused, -⟩
    · omega
    · exact hnot (.inr rfl)
    · obtain ⟨pos', -, -, -, hin, -⟩ := h.tooLarge _ hrefused rfl
      exact m.not_inside_empty pos' hin
  · rintro ⟨hpath, hempty⟩
    have hrefused : ∀ f, m.checkPath typed allowed limit = .error f → f.IsPath := fun f hf =>
      not_not.mp fun hnot => hpath ⟨f, hf, hnot⟩
    by_cases hfile : ∃ pos data, m.Names typed pos ∧ m.Readable pos data
    · obtain ⟨pos, data, hnames, hread⟩ := hfile
      have hcheck := m.checkPath_of_readable allowed limit hnames hread
      refine ⟨hrefused, fun h => absurd hread (h pos data hnames), fun e he hkind => ?_,
        fun e he hkind => ?_⟩
      · rcases hcheck with ⟨hok, -⟩ | ⟨-, hnot⟩ | ⟨hlarge, -⟩
        · cases hok.symm.trans he
        · exact ⟨pos, data, hnames, hread, fun h => hnot (.inl h)⟩
        · cases hlarge.symm.trans he
          simp [PathError.kind] at hkind
      · rcases hcheck with ⟨hok, -⟩ | ⟨hout, -⟩ | ⟨-, hin, hsize⟩
        · cases hok.symm.trans he
        · cases hout.symm.trans he
          simp [PathError.kind] at hkind
        · have hsome : allowed ≠ some [] := fun h => hempty ⟨h, pos, data, hnames, hread, hsize⟩
          exact ⟨pos, data, hnames, hread, hin.resolve_right hsome, hsize⟩
    · obtain ⟨f, hf, hunreadable⟩ := m.checkPath_of_unreadable allowed limit
        fun pos data hnames hread => hfile ⟨pos, data, hnames, hread⟩
      have hkinds : ∀ e, m.checkPath typed allowed limit = .error (.path e) →
          e.kind = "UnreadableFileError" := fun e he =>
        hunreadable e (Except.error.inj (hf.symm.trans he))
      refine ⟨hrefused, fun _ => ?_, fun e he hkind => ?_, fun e he hkind => ?_⟩
      · obtain ⟨e, rfl⟩ := hrefused f hf
        exact ⟨e, hf, hkinds e hf⟩
      · rw [hkinds e he] at hkind
        simp at hkind
      · rw [hkinds e he] at hkind
        simp at hkind

/-- A path that holds NUL is refused for another reason than any that a path is refused for. -/
theorem not_classified_of_null :
    ¬(Machine.inRoot []).Classified "a\x00b" none SafePath.defaultLimit := by
  rw [classified_iff, not_and_or, not_not]
  refine .inl ⟨by decide, .inr ⟨.ofString "a\x00b", by decide +kernel, .inl (.inl ?_)⟩⟩
  decide +kernel

end AssemblyBrowser.Machine
