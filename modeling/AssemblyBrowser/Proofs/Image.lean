import AssemblyBrowser.Image.Inspection
import Mathlib.Data.Nat.Bitwise
/-!
What an inspection finds out about a file. Main statement: whatever the file holds and a reader of images
makes of it, the facts fit together, and they say of the runtime header what its bytes say.
-/
namespace AssemblyBrowser.Image

/-- The runtime header of an image stands in this directory: it is there, with an address and a size. -/
def HasHeader (image : Parsed) (dir : DataDirectory) : Prop :=
  ∃ table, image.directories = some table ∧ table[runtimeDirectory]? = some dir ∧
    dir.address ≠ 0 ∧ dir.size ≠ 0

/-- So many bytes of the runtime header can be read that they say something. -/
def ReadsHeader (image : Parsed) (bytes : List Byte) : Prop :=
  ∃ dir, HasHeader image dir ∧ image.read dir.address (min dir.size runtimeHeaderSize) = .ok bytes ∧
    runtimeHeaderLeast ≤ bytes.length

section

variable {image : Parsed} {dir : DataDirectory} {bytes : List Byte}

theorem runtimeHeader?_eq_some_iff : runtimeHeader? image = some dir ↔ HasHeader image dir := by
  simp only [runtimeHeader?, HasHeader, Option.filter_eq_some_iff, Option.bind_eq_some_iff,
    Bool.and_eq_true, decide_eq_true_eq]
  constructor
  · rintro ⟨⟨table, htable, hdir⟩, haddress, hsize⟩
    exact ⟨table, htable, hdir, haddress, hsize⟩
  · rintro ⟨table, htable, hdir, haddress, hsize⟩
    exact ⟨⟨table, htable, hdir⟩, haddress, hsize⟩

theorem HasHeader.unique {dir' : DataDirectory} (h : HasHeader image dir) (h' : HasHeader image dir') :
    dir = dir' := by
  rw [← runtimeHeader?_eq_some_iff] at h h'
  exact Option.some.inj (h.symm.trans h')

theorem ReadsHeader.unique {bytes' : List Byte} (h : ReadsHeader image bytes)
    (h' : ReadsHeader image bytes') : bytes = bytes' := by
  obtain ⟨dir, hdir, hread, -⟩ := h
  obtain ⟨dir', hdir', hread', -⟩ := h'
  obtain rfl := hdir.unique hdir'
  exact Except.ok.inj (hread.symm.trans hread')

theorem hasFlag_two_pow (flags k : Nat) : hasFlag flags (2 ^ k) = flags.testBit k := by
  unfold hasFlag
  rw [Nat.and_two_pow]
  cases flags.testBit k <;> simp

/-- The facts say of the header what its flags say. -/
theorem flags_withRuntimeHeader {facts : Facts} (h : facts.warnings = []) (bytes : List Byte) :
    let found := withRuntimeHeader facts bytes
    found.flags = field bytes 16 4 ∧ found.ilOnly = found.flags.testBit 0 ∧
      found.strongNamed = found.flags.testBit 3 ∧
      found.warnings = (if found.flags.testBit 0 then [] else [Warning.mixed]) ++
        (if found.flags.testBit 4 then [Warning.nativeEntry] else []) := by
  have hilOnly : ∀ flags, hasFlag flags flagILOnly = flags.testBit 0 := fun flags =>
    hasFlag_two_pow flags 0
  have hnamed : ∀ flags, hasFlag flags flagStrongNamed = flags.testBit 3 := fun flags =>
    hasFlag_two_pow flags 3
  have hnative : ∀ flags, hasFlag flags flagNativeEntry = flags.testBit 4 := fun flags =>
    hasFlag_two_pow flags 4
  simp only [withRuntimeHeader, hilOnly, hnamed, hnative, h, List.nil_append, and_self]

/-- What an image is found to be: native, managed with a header that says nothing, or managed with a
header that is read. -/
theorem examine_cases (facts : Facts) (image : Parsed) :
    let known := { facts with isImage := true, architecture := architectureOf image.machine }
    ((∀ dir, ¬HasHeader image dir) ∧ examine facts image = warn known Warning.native) ∨
    ((∃ dir, HasHeader image dir) ∧ (∀ bytes, ¬ReadsHeader image bytes) ∧
      ∃ text, examine facts image = warn { known with isManaged := true } text) ∨
    ∃ bytes, ReadsHeader image bytes ∧
      examine facts image = withRuntimeHeader { known with isManaged := true } bytes := by
  intro known
  unfold examine
  cases hheader : runtimeHeader? image with
  | none =>
    refine .inl ⟨fun dir hdir => ?_, rfl⟩
    rw [runtimeHeader?_eq_some_iff.mpr hdir] at hheader
    cases hheader
  | some dir =>
    have hdir := runtimeHeader?_eq_some_iff.mp hheader
    dsimp only
    cases hread : image.read dir.address (min dir.size runtimeHeaderSize) with
    | error text =>
      refine .inr (.inl ⟨⟨dir, hdir⟩, ?_, _, rfl⟩)
      rintro bytes ⟨dir', hdir', hread', -⟩
      obtain rfl := hdir.unique hdir'
      rw [hread] at hread'
      cases hread'
    | ok bytes =>
      dsimp only
      split
      · next hshort =>
        refine .inr (.inl ⟨⟨dir, hdir⟩, ?_, _, rfl⟩)
        rintro bytes' ⟨dir', hdir', hread', hlong⟩
        obtain rfl := hdir.unique hdir'
        obtain rfl := Except.ok.inj (hread.symm.trans hread')
        omega
      · next hlong => exact .inr (.inr ⟨bytes, ⟨dir, hdir, hread, by omega⟩, rfl⟩)

end

/-! ## Inspections -/

variable (parse : FileData → Except String Parsed) (d : FileData)

/-- The file begins like an image, and the reader makes one of it. -/
def Holds (image : Parsed) : Prop := d.read 0 2 = magic ∧ parse d = .ok image

/-- The facts about a file fit together, and with what the reader makes of it. -/
structure Coherent (i : Inspection) : Prop where
  image_of_managed : i.facts.isManaged = true → i.facts.isImage = true
  managed_iff : i.facts.isManaged = true ↔ ∃ image dir, Holds parse d image ∧ HasHeader image dir
  unmanaged : i.facts.isManaged = false → (∃ warning, i.facts.warnings = [warning]) ∧
    i.facts.runtimeVersion = "" ∧ i.facts.flags = 0
  version_iff : i.facts.runtimeVersion ≠ "" ↔
    ∃ image bytes, Holds parse d image ∧ ReadsHeader image bytes
  header : ∀ image bytes, Holds parse d image → ReadsHeader image bytes →
    i.facts.runtimeVersion = toString (field bytes 4 2) ++ "." ++ toString (field bytes 6 2) ∧
    i.facts.flags = field bytes 16 4 ∧
    i.facts.ilOnly = i.facts.flags.testBit 0 ∧
    i.facts.strongNamed = i.facts.flags.testBit 3 ∧
    i.facts.warnings = (if i.facts.flags.testBit 0 then [] else [Warning.mixed]) ++
      (if i.facts.flags.testBit 4 then [Warning.nativeEntry] else [])
  closed : i.closed = i.opened
  opened : i.opened = 1 ∧ (∃ image, Holds parse d image) ∨
    i.opened = 0 ∧ ∀ image, ¬Holds parse d image

theorem inspectWith_cases :
    ((∀ image, ¬Holds parse d image) ∧
      ∃ text, inspectWith parse d = ⟨warn { size := d.size } text, 0, 0⟩) ∨
    ∃ image, Holds parse d image ∧ inspectWith parse d = ⟨examine { size := d.size } image, 1, 1⟩ := by
  unfold inspectWith
  dsimp only
  split
  · next hmagic => exact .inl ⟨fun image h => hmagic h.1, _, rfl⟩
  · next hmagic =>
    cases hparse : parse d with
    | error text =>
      refine .inl ⟨fun image h => ?_, _, rfl⟩
      cases hparse.symm.trans h.2
    | ok image => exact .inr ⟨image, ⟨not_not.mp hmagic, hparse⟩, rfl⟩

variable {parse d}

theorem Holds.unique {image image' : Parsed} (h : Holds parse d image) (h' : Holds parse d image') :
    image = image' :=
  Except.ok.inj (h.2.symm.trans h'.2)

/-- What is asked of any image that the file holds is asked of this one. -/
theorem Holds.exists_iff {image : Parsed} {α : Type} {p : Parsed → α → Prop}
    (h : Holds parse d image) :
    (∃ image' a, Holds parse d image' ∧ p image' a) ↔ ∃ a, p image a :=
  ⟨fun ⟨_, a, h', hp⟩ => ⟨a, h.unique h' ▸ hp⟩, fun ⟨a, hp⟩ => ⟨image, a, h, hp⟩⟩

theorem coherent_of_no_image (h : ∀ image, ¬Holds parse d image) (text : String) :
    Coherent parse d ⟨warn { size := d.size } text, 0, 0⟩ where
  image_of_managed := nofun
  managed_iff := by
    refine iff_of_false nofun ?_
    rintro ⟨image, dir, hholds, -⟩
    exact h image hholds
  unmanaged _ := ⟨⟨text, rfl⟩, rfl, rfl⟩
  version_iff := by
    refine iff_of_false (fun hne => hne rfl) ?_
    rintro ⟨image, bytes, hholds, -⟩
    exact h image hholds
  header image _ hholds := absurd hholds (h image)
  closed := rfl
  opened := .inr ⟨rfl, h⟩

/-- A version has a point in it. -/
theorem version_ne_empty (major minor : Nat) :
    toString major ++ "." ++ toString minor ≠ "" := by
  intro h
  have hlist := congrArg String.toList h
  simp at hlist

theorem coherent_of_image {image : Parsed} (h : Holds parse d image) (size : Nat) :
    Coherent parse d ⟨examine { size } image, 1, 1⟩ := by
  rcases examine_cases { size } image with
    ⟨hnone, hfacts⟩ | ⟨hdir, hnone, text, hfacts⟩ | ⟨bytes, hreads, hfacts⟩
  case inl =>
    rw [hfacts]
    refine ⟨nofun, ?_, fun _ => ⟨⟨_, rfl⟩, rfl, rfl⟩, ?_, ?_, rfl, .inl ⟨rfl, image, h⟩⟩
    · rw [h.exists_iff]
      exact iff_of_false nofun fun ⟨dir, hdir⟩ => hnone dir hdir
    · rw [h.exists_iff]
      exact iff_of_false (fun hne => hne rfl) fun ⟨_, dir, hdir, _⟩ => hnone dir hdir
    · rintro image' bytes hholds ⟨dir, hdir, -⟩
      exact absurd (h.unique hholds ▸ hdir) (hnone dir)
  case inr.inl =>
    rw [hfacts]
    refine ⟨fun _ => rfl, ?_, nofun, ?_, ?_, rfl, .inl ⟨rfl, image, h⟩⟩
    · rw [h.exists_iff]
      exact iff_of_true rfl hdir
    · rw [h.exists_iff]
      exact iff_of_false (fun hne => hne rfl) fun ⟨bytes, hreads⟩ => hnone bytes hreads
    · intro image' bytes hholds hreads
      exact absurd (h.unique hholds ▸ hreads) (hnone bytes)
  case inr.inr =>
    rw [hfacts]
    refine ⟨fun _ => rfl, ?_, nofun, ?_, ?_, rfl, .inl ⟨rfl, image, h⟩⟩
    · rw [h.exists_iff]
      exact iff_of_true rfl (hreads.imp fun _ h => h.1)
    · rw [h.exists_iff]
      exact iff_of_true (version_ne_empty _ _) ⟨bytes, hreads⟩
    · intro image' bytes' hholds hreads'
      obtain rfl := h.unique hholds
      obtain rfl := hreads.unique hreads'
      exact ⟨rfl, flags_withRuntimeHeader rfl bytes⟩

/-- Whatever a file holds and the reader makes of it, the facts about it are coherent. -/
theorem coherent_inspectWith (parse : FileData → Except String Parsed) (d : FileData) :
    Coherent parse d (inspectWith parse d) := by
  rcases inspectWith_cases parse d with ⟨hnone, text, hinspect⟩ | ⟨image, hholds, hinspect⟩
  · rw [hinspect]
    exact coherent_of_no_image hnone text
  · rw [hinspect]
    exact coherent_of_image hholds d.size

end AssemblyBrowser.Image
