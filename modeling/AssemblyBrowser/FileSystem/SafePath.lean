import AssemblyBrowser.FileSystem.Resolve
import AssemblyBrowser.Text.Blank
/-!
Paths typed by a user. `Machine.checkPath` resolves one and lets it pass only if it leads to a
readable file, inside the allowed directories, of at most the allowed size.
-/
namespace AssemblyBrowser

namespace SafePath

/-- Removes the blanks around a path and one pair of double quotes. -/
def stripQuotesList (cs : List Char) : List Char :=
  match Text.trimList cs with
  | '"' :: rest =>
    if rest.getLast? = some '"' then rest.dropLast else '"' :: rest
  | cs => cs

def stripQuotes (s : String) : String := String.ofList (stripQuotesList s.toList)

/-- The largest file that is accepted unless another limit is given. -/
def defaultLimit : Int := 500 * 1024 * 1024

end SafePath

namespace Machine

variable (m : Machine)

/-- Resolves a path as typed; a failure to do so makes the path unreadable. -/
def resolveTyped (typed cleaned : String) : Except Failure Position :=
  match (m.expandHome (.ofString cleaned)).bind m.resolve with
  | .ok pos => .ok pos
  | .error .nullCharacter => .error .nullCharacter
  | .error f => .error (.path (.unreadable typed (some f.message)))

/-- Whether the place lies in one of the directories, component by component. A directory that
cannot be resolved allows nothing. -/
def insideAny (directories : List String) (pos : Position) : Bool :=
  directories.any fun d =>
    match m.resolve (.ofString d) with
    | .ok base => base.isPrefixOf pos
    | .error _ => false

/-- The readable file at a place. -/
def readableFile (typed : String) (pos : Position) : Except Failure FileData := do
  let refused : Failure := .path (.unreadable typed none)
  if !(← m.isFile (.ofPosition pos)) then .error refused
  else match m.stat (.ofPosition pos) with
    | .ok (_, .file data mode) => if m.mayRead mode then .ok data else .error refused
    | _ => .error refused

/-- The place of the file that a user names. No list of directories, or an empty one, allows any
place. -/
def checkPath (typed : String) (allowed : Option (List String)) (limit : Int) :
    Except Failure Position := do
  let cleaned := SafePath.stripQuotes typed
  if cleaned = "" then .error (.path .empty)
  else
    let pos ← m.resolveTyped typed cleaned
    let data ← m.readableFile typed pos
    let directories := allowed.getD []
    if !directories.isEmpty && !m.insideAny directories pos then
      .error (.path (.outside typed))
    else if limit < data.size then .error (.path (.tooLarge data.size limit))
    else .ok pos

end Machine

end AssemblyBrowser
