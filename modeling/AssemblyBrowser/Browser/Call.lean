import AssemblyBrowser.Format
import AssemblyBrowser.Protocol.Message
/-!
The tools that a client can call, by their names and the names of their arguments.
-/
namespace AssemblyBrowser

inductive ToolCall
  | addAssembly (path : String)
  | findAssemblies (directory : String)
  | listMembers (key assembly : Option String) (limit : Int)
  | getCode (key : String) (assembly : Option String) (onlyIfChanged : Bool)
  | refreshTree
  | removeAssembly (path : String)
  | setLanguage (language : Json)
  | engineStatus
  | restartEngine
deriving DecidableEq, Repr

namespace ToolCall

def name : ToolCall → String
  | .addAssembly _ => "add_assembly"
  | .findAssemblies _ => "find_assemblies"
  | .listMembers .. => "list_members"
  | .getCode .. => "get_code"
  | .refreshTree => "refresh_tree"
  | .removeAssembly _ => "remove_assembly"
  | .setLanguage _ => "set_language"
  | .engineStatus => "engine_status"
  | .restartEngine => "restart_engine"

/-- The names of the tools, in alphabetical order. -/
def names : List String :=
  ["add_assembly", "engine_status", "find_assemblies", "get_code", "list_members", "refresh_tree",
   "remove_assembly", "restart_engine", "set_language"]

def text? (arguments : Fields) (key : String) : Option String :=
  match Assoc.find? key arguments with
  | some (.text s) => some s
  | _ => none

def integer? (arguments : Fields) (key : String) : Option Int :=
  match Assoc.find? key arguments with
  | some (.number (.integer n)) => some n
  | _ => none

/-- The call of a tool by its name. Arguments that are left out have their usual values; a call that
lacks an argument which has none is no call. -/
def ofName? (name : String) (arguments : Fields) : Option ToolCall :=
  match name with
  | "add_assembly" => (text? arguments "assembly_path").map .addAssembly
  | "find_assemblies" => (text? arguments "root_dir").map .findAssemblies
  | "list_members" =>
    some (.listMembers (text? arguments "key") (text? arguments "assembly")
      ((integer? arguments "limit").getD Format.defaultLimit))
  | "get_code" => (text? arguments "key").map fun key =>
    .getCode key (text? arguments "assembly")
      (Assoc.find? "only_if_changed" arguments = some (.bool true))
  | "refresh_tree" => some .refreshTree
  | "remove_assembly" => (text? arguments "assembly_path").map .removeAssembly
  | "set_language" => (Assoc.find? "language" arguments).map .setLanguage
  | "engine_status" => some .engineStatus
  | "restart_engine" => some .restartEngine
  | _ => none

end ToolCall

end AssemblyBrowser
