import AssemblyBrowser.Proofs.Browser.Calls
import AssemblyBrowser.Proofs.Image
/-!
The inspection of a file before the engine is asked for it. Main statement: the facts that an inspection
finds fit together, and a file that is no managed assembly by them is refused with their one warning
before anything is done.
-/
namespace AssemblyBrowser.Browser

variable {σ : Type} (program : Program σ) {b : Browser σ} {typed : String} {pos : Position}
  {d : FileData}

/-- A user may name a file by a path, and the file holds the data. -/
structure Opens (b : Browser σ) (typed : String) (pos : Position) (d : FileData) : Prop where
  accepted : b.machine.checkPath typed none SafePath.defaultLimit = .ok pos
  data : b.machine.fileAt (.ofPosition pos) = .ok d

/-- What is done with a managed assembly. -/
def addManaged (path : String) : Attempt (Browser σ) (Bool × String) := do
  onSession (Session.ensureRunning program)
  return (← onForest (Forest.add (Session.engine program) path), path)

theorem addInspected_opened (inspect : FileData → Image.Inspection) (h : b.Opens typed pos d) :
    (addInspected program inspect typed).runFrom b =
      if (inspect d).facts.isManaged then (addManaged program pos.text).runFrom b
      else (.error (notManaged pos.text (inspect d).facts), b) := by
  have hsanitize : (sanitize typed).runFrom b = (.ok pos, b) := Prod.ext h.accepted rfl
  have hfile : (onMachine (·.fileAt (.ofPosition pos)) : Attempt (Browser σ) FileData).runFrom b =
      (.ok d, b) := Prod.ext h.data rfl
  unfold addInspected
  rw [Attempt.runFrom_bind_ok hsanitize, Attempt.runFrom_bind_ok hfile]
  cases hmanaged : (inspect d).facts.isManaged with
  | false =>
    simp only [hmanaged, Bool.not_false, if_true, Bool.false_eq_true, if_false]
    rfl
  | true =>
    simp only [hmanaged, Bool.not_true, Bool.false_eq_true, if_false, if_true]
    rfl

/-- A path at which no file may be named is refused. -/
theorem addInspected_unopened (inspect : FileData → Image.Inspection)
    (h : ∀ pos d, ¬b.Opens typed pos d) :
    ∃ f, (addInspected program inspect typed).runFrom b = (.error f, b) := by
  have hsanitize : (sanitize typed).runFrom b =
      (b.machine.checkPath typed none SafePath.defaultLimit, b) := rfl
  unfold addInspected
  rw [Attempt.runFrom_bind, hsanitize]
  cases hcheck : b.machine.checkPath typed none SafePath.defaultLimit with
  | error f => exact ⟨f, rfl⟩
  | ok pos =>
    have hfile : (onMachine (·.fileAt (.ofPosition pos)) : Attempt (Browser σ) FileData).runFrom b =
        (b.machine.fileAt (.ofPosition pos), b) := rfl
    dsimp only
    rw [Attempt.runFrom_bind, hfile]
    cases hdata : b.machine.fileAt (.ofPosition pos) with
    | error f => exact ⟨f, rfl⟩
    | ok d => exact absurd ⟨hcheck, hdata⟩ (h pos d)

/-- What is no managed assembly is refused before the engine is asked for anything. -/
theorem addInspected_refused {inspect : FileData → Image.Inspection}
    (h : ∀ pos d, b.Opens typed pos d → (inspect d).facts.isManaged = false) :
    ∃ f, (addInspected program inspect typed).runFrom b = (.error f, b) := by
  by_cases hopens : ∃ pos d, b.Opens typed pos d
  · obtain ⟨pos, d, hopens⟩ := hopens
    rw [addInspected_opened program inspect hopens, h pos d hopens]
    exact ⟨_, rfl⟩
  · exact addInspected_unopened program inspect fun pos d hopened => hopens ⟨pos, d, hopened⟩

theorem tellAdded_error {a : Attempt (Browser σ) (Bool × String)} {f : Failure} {t : Browser σ}
    (h : a.runFrom b = (.error f, t)) : (tellAdded a).runFrom b = (.ok (pathFailure f), t) := by
  unfold tellAdded tell
  rw [Attempt.runFrom_outcome_bind, Attempt.runFrom_bind, h]
  rfl

/-- The failure of an assembly that cannot be loaded for a reason of its own. -/
def unloadable (path reason : String) : Failure := .engine (.load path reason (some "NotManaged"))

theorem notManaged_eq {facts : Image.Facts} {warning : String} (h : facts.warnings = [warning])
    (path : String) : notManaged path facts = unloadable path warning := by
  rw [notManaged, h]
  rfl

/-- Whatever a file holds and the reader of images makes of it, the facts are coherent. If the file is no
managed assembly by them, then adding it changes nothing at all, neither the tree nor the session with its
processes and what has been written to them: there is one warning, and it is the reason of the failure
that is told. The same goes for a path at which nothing is a managed assembly. The tool goes by the facts
that the usual reader of images leads to. -/
theorem coherent_and_unmanaged_refused (parse : FileData → Except String Image.Parsed)
    (d : FileData) :
    Image.Coherent parse d (Image.inspectWith parse d) ∧
    ∀ {σ : Type} (program : Program σ) (b : Browser σ) (typed : String),
      (∀ pos, b.Opens typed pos d → (Image.inspectWith parse d).facts.isManaged = false →
        ∃ warning, (Image.inspectWith parse d).facts.warnings = [warning] ∧
          (addInspected program (Image.inspectWith parse) typed).runFrom b =
            (.error (unloadable pos.text warning), b) ∧
          (tellAdded (addInspected program (Image.inspectWith parse) typed)).runFrom b =
            (.ok (unloadable pos.text warning).userMessage, b)) ∧
      ((∀ pos d, b.Opens typed pos d → (Image.inspectWith parse d).facts.isManaged = false) →
        ∃ text, (tellAdded (addInspected program (Image.inspectWith parse) typed)).runFrom b =
          (.ok text, b)) ∧
      call program (.addAssembly typed) = tellAdded (addInspected program (Image.inspectWith fun d =>
        (Image.ofFile d).mapError Image.HeaderError.message) typed) := by
  have hcoherent := Image.coherent_inspectWith parse d
  refine ⟨hcoherent, fun program b typed => ⟨fun pos hopens hunmanaged => ?_, fun h => ?_, rfl⟩⟩
  · obtain ⟨⟨warning, hwarnings⟩, -, -⟩ := hcoherent.unmanaged hunmanaged
    have hadd : (addInspected program (Image.inspectWith parse) typed).runFrom b =
        (.error (unloadable pos.text warning), b) := by
      rw [addInspected_opened program _ hopens, hunmanaged, notManaged_eq hwarnings]
      rfl
    exact ⟨warning, hwarnings, hadd, tellAdded_error hadd⟩
  · obtain ⟨f, hadd⟩ := addInspected_refused program h
    exact ⟨_, tellAdded_error hadd⟩

/-- A text in a file that has the name of a library. -/
theorem coherent_and_unmanaged_refused_text :
    let d : FileData := .ofBytes [0x68, 0x69]
    let b : Browser Nat := { smallBrowser with machine := { bareMachine with
      root := .directory [("work", .directory [("a.dll", .file d 0o644)])] } }
    b.Opens "a.dll" ["work", "a.dll"] d ∧ (Image.inspect d).facts.isManaged = false ∧
      (call smallProgram (.addAssembly "a.dll")).runFrom b =
        (.ok (unloadable "/work/a.dll" "Not a PE file (missing MZ header)").userMessage, b) := by
  intro d b
  have hopens : b.Opens "a.dll" ["work", "a.dll"] d := ⟨by decide +kernel, by decide +kernel⟩
  have hunmanaged : (Image.inspect d).facts.isManaged = false := by decide +kernel
  obtain ⟨-, hrefused⟩ := coherent_and_unmanaged_refused
    (fun d => (Image.ofFile d).mapError Image.HeaderError.message) d
  obtain ⟨hreported, -, hcall⟩ := hrefused smallProgram b "a.dll"
  obtain ⟨warning, hwarnings, -, htold⟩ := hreported _ hopens hunmanaged
  have htext : (Image.inspect d).facts.warnings = ["Not a PE file (missing MZ header)"] := by
    decide +kernel
  obtain rfl : warning = _ := (List.cons.inj (hwarnings.symm.trans htext)).1
  rw [hcall]
  exact ⟨hopens, hunmanaged, htold⟩

end AssemblyBrowser.Browser
