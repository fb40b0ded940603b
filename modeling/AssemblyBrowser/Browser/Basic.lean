import AssemblyBrowser.FileSystem.Discovery
import AssemblyBrowser.FileSystem.SafePath
import AssemblyBrowser.Image.Inspection
import AssemblyBrowser.Selection
import AssemblyBrowser.Settings.Lookup
import AssemblyBrowser.Tree.Forest
/-!
What stands behind the tools: the machine with its files, the settings, the tree over its session,
and the member that was shown last.
-/
namespace AssemblyBrowser

structure Browser (σ : Type) where
  machine : Machine
  settings : Settings
  forest : Forest (Session σ)
  selection : Selection := {}

namespace Browser

variable {σ α : Type}

/-- The selection listens to the tree. -/
def selectionListener : Listening := 0

def new (machine : Machine) (settings : Settings) (session : Session σ) (language : Language) :
    Browser σ where
  machine
  settings
  forest := ⟨({ language } : Tree).subscribe selectionListener, session⟩

def tree (b : Browser σ) : Tree := b.forest.tree

def session (b : Browser σ) : Session σ := b.forest.world

/-- Runs on the tree. When the selection is told of a change, it forgets what it knows. -/
def onForest (a : Attempt (Forest (Session σ)) α) : Attempt (Browser σ) α := fun b =>
  let (r, forest) := a.runFrom b.forest
  let told := (forest.tree.deliveries.drop b.tree.deliveries.length).any fun d =>
    d.1 = selectionListener
  (r, { b with forest, selection := if told then .forget else b.selection })

def onSession (a : Attempt (Session σ) α) : Attempt (Browser σ) α := onForest (Forest.lift a)

def onSettings (a : Attempt Settings α) : Attempt (Browser σ) α :=
  Attempt.within settings (fun settings b => { b with settings }) a

def onMachine (f : Machine → Except Failure α) : Attempt (Browser σ) α := fun b => (f b.machine, b)

/-- The place of a readable file that a user names. -/
def sanitize (path : String) : Attempt (Browser σ) Position :=
  onMachine (·.checkPath path none SafePath.defaultLimit)

/-- Why an image is not accepted. -/
def notManaged (path : String) (facts : Image.Facts) : Failure :=
  .engine (.load path (facts.warnings.headD "No CLR header found") (some "NotManaged"))

section Program

variable (program : Program σ)

/-- Adds the assembly in a file that a user names. The engine is not asked about a file that is no
managed assembly by the inspection. -/
def addInspected (inspect : FileData → Image.Inspection) (typed : String) :
    Attempt (Browser σ) (Bool × String) := do
  let pos ← sanitize typed
  let data ← onMachine (·.fileAt (.ofPosition pos))
  let facts := (inspect data).facts
  if !facts.isManaged then Attempt.fail (notManaged pos.text facts)
  else
    onSession (Session.ensureRunning program)
    return (← onForest (Forest.add (Session.engine program) pos.text), pos.text)

def addAssembly (typed : String) : Attempt (Browser σ) (Bool × String) :=
  addInspected program Image.inspect typed

end Program

/-- The path in the tree that a user means: the one typed, or the one it leads to. -/
def matchLoaded (typed : String) : Attempt (Browser σ) (Option String) := do
  let paths := (← get).tree.paths
  if typed ∈ paths then return some typed
  else
    match ← (sanitize typed).outcome with
    | .ok pos => return if pos.text ∈ paths then some pos.text else none
    | .error (.path _) => return none
    | .error f => Attempt.fail f

def parameterInvalid (name : String) (value : Json) (expected : String) : Failure :=
  .report (.parameterInvalid name value expected)

def oneOf (choices : List String) : String := "one of: " ++ ", ".intercalate choices

/-- The node that a user means by a key and perhaps an assembly. -/
def resolve (key : String) (assembly : Option String) : Attempt (Browser σ) NodeId := do
  let owner ← match assembly with
    | none => pure none
    | some typed =>
      match ← matchLoaded typed with
      | some path => pure (some path)
      | none =>
        Attempt.fail (parameterInvalid "assembly" (.text typed) "the path of a loaded assembly")
  match (← get).tree.getNode key owner with
  | .ok (some id) => return id
  | .ok none =>
    Attempt.fail (parameterInvalid "key" (.text key) "a member key returned by list_members()")
  | .error (.ambiguousKey _ paths) =>
    Attempt.fail (parameterInvalid "assembly" .null (oneOf paths))
  | .error f => Attempt.fail f

end Browser

end AssemblyBrowser
