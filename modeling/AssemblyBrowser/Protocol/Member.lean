import AssemblyBrowser.Json.Display
import AssemblyBrowser.Text.Case
/-!
Members of assemblies as the engine describes them, and the ways in which what the engine sends can
break the protocol.
-/
namespace AssemblyBrowser

inductive MemberKind
  | assembly
  | nameSpace
  | type
  | method
  | field
  | property
  | event
deriving DecidableEq, Repr

namespace MemberKind

def name : MemberKind → String
  | .assembly => "assembly"
  | .nameSpace => "namespace"
  | .type => "type"
  | .method => "method"
  | .field => "field"
  | .property => "property"
  | .event => "event"

def all : List MemberKind := [.assembly, .nameSpace, .type, .method, .field, .property, .event]

def ofName? (s : String) : Option MemberKind := all.find? fun k => k.name = s

/-- Whether members of the kind can have children. -/
def isContainer : MemberKind → Bool
  | .assembly | .nameSpace | .type => true
  | _ => false

end MemberKind

/-- A member: its key identifies it within its assembly. -/
structure Member where
  key : String
  name : String
  kind : MemberKind
  token : Option Int
deriving DecidableEq, Repr

/-- A line or payload that does not follow the protocol. -/
inductive ProtocolError
  | notJson (fault : String)
  | notObject (typeName : String)
  | noId
  | noSuccess
  | bodyNotObject
  | noErrorObject
  | memberNotObject
  | noKey
  | noName (key : String)
  | unknownKind (key : String) (kind : Json)
  | tokenNotInteger (key : String)
  | notAssembly (kind : MemberKind)
  | noMembers
  | noCode
deriving DecidableEq, Repr

def ProtocolError.message : ProtocolError → String
  | .notJson fault => "not valid JSON: " ++ fault
  | .notObject typeName => "expected a JSON object, got " ++ typeName
  | .noId => "response has no integer 'id'"
  | .noSuccess => "response has no boolean 'success'"
  | .bodyNotObject => "response 'body' is not an object"
  | .noErrorObject => "failed response has no 'error' object"
  | .memberNotObject => "descriptor is not an object"
  | .noKey => "descriptor has no 'key'"
  | .noName key => "descriptor " ++ Text.quoted key ++ " has no 'name'"
  | .unknownKind key kind =>
    "descriptor " ++ Text.quoted key ++ " has unknown kind " ++ kind.display
  | .tokenNotInteger key => "descriptor " ++ Text.quoted key ++ " has a non-integer 'token'"
  | .notAssembly kind => "load returned a " ++ kind.name ++ ", not an assembly"
  | .noMembers => "enumerate response has no 'members' list"
  | .noCode => "decompile response has no 'code' string"

namespace Member

def kindOf? : Option Json → Option MemberKind
  | some (.text s) => MemberKind.ofName? s
  | _ => none

/-- A token: absent, null or an integer. -/
def tokenOf? : Option Json → Option (Option Int)
  | none | some .null => some none
  | some (.number (.integer n)) => some (some n)
  | _ => none

/-- Reads a description; fields that are not known are ignored. -/
def ofJson (v : Json) : Except ProtocolError Member :=
  match v with
  | .object fields =>
    match Assoc.find? "key" fields with
    | some (.text key) =>
      if key = "" then .error .noKey
      else
        match Assoc.find? "name" fields with
        | some (.text name) =>
          match kindOf? (Assoc.find? "kind" fields) with
          | none => .error (.unknownKind key ((Assoc.find? "kind" fields).getD .null))
          | some kind =>
            match tokenOf? (Assoc.find? "token" fields) with
            | none => .error (.tokenNotInteger key)
            | some token => .ok ⟨key, name, kind, token⟩
        | _ => .error (.noName key)
    | _ => .error .noKey
  | _ => .error .memberNotObject

/-- The assembly in the answer to a load. -/
def ofLoadBody (body : List (String × Json)) : Except ProtocolError Member := do
  let m ← ofJson ((Assoc.find? "assembly" body).getD .null)
  if m.kind = .assembly then .ok m else .error (.notAssembly m.kind)

/-- The members in the answer to an enumeration, in their order. -/
def listOfBody (body : List (String × Json)) : Except ProtocolError (List Member) :=
  match Assoc.find? "members" body with
  | some (.array xs) => xs.mapM ofJson
  | _ => .error .noMembers

/-- The text in the answer to a decompilation. -/
def codeOfBody (body : List (String × Json)) : Except ProtocolError String :=
  match Assoc.find? "code" body with
  | some (.text code) => .ok code
  | _ => .error .noCode

/-- A member as it is shown in a trace. -/
def display (m : Member) : String :=
  "MemberDescriptor(key=" ++ Text.quoted m.key ++ ", name=" ++ Text.quoted m.name ++
    ", kind=<MemberKind." ++ Text.upperAscii m.kind.name ++ ": " ++ Text.quoted m.kind.name ++
    ">, token=" ++ (Json.ofInteger? m.token).display ++ ")"

end Member

end AssemblyBrowser
