import AssemblyBrowser.Browser.Basic
import AssemblyBrowser.Browser.Call
/-!
What each tool does and the text that it answers with. Most failures are told in the answer; a
failure that leaves a tool is one that it does not expect.
-/
namespace AssemblyBrowser.Browser

variable {σ : Type}

/-- Tells a failure in the answer. -/
def tell (told : Failure → String) (a : Attempt (Browser σ) String) :
    Attempt (Browser σ) String := do
  match ← a.outcome with
  | .ok text => return text
  | .error f => return told f

def pathFailure : Failure → String
  | .path e => "Error: " ++ e.message
  | f => f.userMessage

def staleFailure : Failure → String
  | .staleNode key =>
    "Error: " ++ (Failure.staleNode key).message ++
      ". Call list_members() to browse from the roots again."
  | f => f.userMessage

/-- The answer for an assembly that was added, or was there before. -/
def addedText (t : Tree) (added : Bool) (path : String) : String :=
  match added, (t.roots.find? path).map Root.member with
  | true, some m =>
    "Added assembly **" ++ m.name ++ "**\n\n- Key: `" ++ m.key ++ "`\n\nNext: `list_members(\"" ++
      m.key ++ "\")` to browse its namespaces."
  | _, _ => "Assembly already loaded: " ++ path

/-- Tells whether an assembly was added. -/
def tellAdded (a : Attempt (Browser σ) (Bool × String)) : Attempt (Browser σ) String :=
  tell pathFailure do
    let (added, resolved) ← a
    return addedText (← get).tree added resolved

def foundText (directory : String) (paths : List String) : String :=
  if paths.isEmpty then "No assemblies found under " ++ directory
  else Format.ofLines (["**Assemblies: " ++ toString paths.length ++ " found**", ""] ++
    paths.map fun path => "- `" ++ path ++ "`")

def entry (n : Node) : Format.Entry := ⟨n.key, n.member.name, n.member.kind, n.isPopulated⟩

def entries (t : Tree) (ids : List NodeId) : List Format.Entry := (ids.filterMap t.node?).map entry

def membersText (t : Tree) (id : NodeId) (ids : List NodeId) (limit : Int) : String :=
  match t.node? id with
  | none => ""
  | some n => Format.memberList (n.member.name ++ " (" ++ n.member.kind.name ++ ")") (entries t ids)
      limit (some n.assembly)

def codeText (t : Tree) (id : NodeId) (code : String) : String :=
  match t.node? id with
  | none => ""
  | some n => Format.codeBlock n.member.name n.member.kind n.key code t.language.name

def settingLine (key : String) : Option (Source × String) → String
  | some (source, value) => "- " ++ key ++ ": `" ++ value ++ "` (" ++ source.name ++ ")"
  | none => "- " ++ key ++ ": (default)"

def statusText (facts : Fields) (settings : List (String × Option (Source × String))) : String :=
  Format.diagnostics facts ++ Format.ofLines (["", "**Configuration**", ""] ++
    settings.map fun (key, found) => settingLine key found)

def diagnose : Attempt (Browser σ) Fields := do
  onSession (Session.diagnose (← get).machine)

section Program

variable (program : Program σ)

def listMembers (key : String) (assembly : Option String) (limit : Int) :
    Attempt (Browser σ) String := do
  let id ← resolve key assembly
  let ids ← onForest (Forest.children (Session.engine program) id)
  return membersText (← get).tree id ids limit

def forgetSelection : Attempt (Browser σ) Unit := modify fun b => { b with selection := .forget }

/-- Selects a node; the answer tells whether it is another one than before. -/
def select (id : NodeId) : Attempt (Browser σ) Bool := fun b =>
  match b.tree.node? id with
  | none => (.ok true, b)
  | some n =>
    let (changed, selection) := b.selection.select n.slot
    (.ok changed, { b with selection })

/-- Shows the text of a node. After a failure nothing counts as shown. -/
def showCode (id : NodeId) : Attempt (Browser σ) String := do
  match ← (onForest (Forest.code (Session.engine program) id)).outcome with
  | .ok code => return codeText (← get).tree id code
  | .error f => forgetSelection; return staleFailure f

def getCode (key : String) (assembly : Option String) (onlyIfChanged : Bool) :
    Attempt (Browser σ) String := do
  match ← (resolve key assembly).outcome with
  | .error f => if f.ownReport?.isSome then return f.userMessage else Attempt.fail f
  | .ok id =>
    let changed ← select id
    if onlyIfChanged && !changed then return "Member `" ++ key ++ "` is already shown."
    else showCode program id

def removeAssembly (typed : String) : Attempt (Browser σ) String := do
  match ← matchLoaded typed with
  | some path =>
    if ← onForest (Forest.remove (Session.engine program) path) then
      return "Removed assembly: " ++ path
    else return "Assembly not loaded: " ++ typed
  | none => return "Assembly not loaded: " ++ typed

def setLanguage (language : Json) : Attempt (Browser σ) String := do
  match ← (onForest (Forest.setLanguage language.plain)).outcome with
  | .ok changed =>
    let name := (← get).tree.language.name
    return if changed then "Language set to " ++ name ++ "; cached code cleared."
      else "Language already set to " ++ name ++ "."
  | .error _ =>
    let choices := Language.all.map Language.name
    return (parameterInvalid "language" language (oneOf choices)).userMessage

def engineStatus : Attempt (Browser σ) String := do
  let facts ← diagnose
  let facts := facts ++ [("tree_language", .text (← get).tree.language.name)]
  return statusText facts (← onSettings (Settings.status (← get).machine))

def restartEngine : Attempt (Browser σ) String := do
  match ← (onSession (Session.restart program)).outcome with
  | .ok () => return Format.diagnostics (← diagnose)
  | .error f => return f.userMessage

/-- Calls a tool. -/
def call : ToolCall → Attempt (Browser σ) String
  | .addAssembly path => tellAdded (addAssembly program path)
  | .findAssemblies directory => do
    return foundText directory (← onMachine (·.findAssemblies (some directory)))
  | .listMembers none _ limit => do
    let t := (← get).tree
    return Format.memberList "Assemblies" (entries t t.rootNodes) limit none
  | .listMembers (some key) assembly limit =>
    tell staleFailure (listMembers program key assembly limit)
  | .getCode key assembly onlyIfChanged => getCode program key assembly onlyIfChanged
  | .refreshTree => do
    onForest Forest.refresh
    return "Tree refreshed (" ++ toString (← get).tree.paths.length ++ " assemblies loaded)."
  | .removeAssembly path => removeAssembly program path
  | .setLanguage language => setLanguage language
  | .engineStatus => engineStatus
  | .restartEngine => restartEngine program

end Program

end AssemblyBrowser.Browser
