import AssemblyBrowser.Json.Display
import AssemblyBrowser.Protocol.Member
import AssemblyBrowser.Text.Case
/-!
The texts of answers to a user: member lists, code blocks and diagnostics. Each is built from lines.
-/
namespace AssemblyBrowser.Format

/-- What a member list shows of a member. -/
structure Entry where
  key : String
  name : String
  kind : MemberKind
  /-- Whether the children have been fetched. -/
  populated : Bool
deriving DecidableEq, Repr

def ofLines (lines : List String) : String := String.join (lines.map (· ++ "\n"))

def icon : MemberKind → String
  | .assembly => "📚"
  | .nameSpace => "🗂️"
  | .type => "📦"
  | .method => "🔧"
  | .field => "🔹"
  | .property => "🔸"
  | .event => "⚡"

/-- Marks a member that can have children: an arrow that points down once they are fetched. -/
def arrow (e : Entry) : String :=
  if e.kind.isContainer then if e.populated then " ▾" else " ▸" else ""

def headline (e : Entry) : String :=
  "- " ++ icon e.kind ++ " **" ++ e.name ++ "** (" ++ e.kind.name ++ ")" ++ arrow e

/-- What stands before a key on its line. -/
def keyMark : String := "  - Key: `"

def keyLine (key : String) : String := keyMark ++ key ++ "`"

def entryLines (e : Entry) : List String := [headline e, keyLine e.key]

/-- The first `limit` elements; a negative limit leaves out as many at the end. -/
def takeLimit {α : Type} (limit : Int) (xs : List α) : List α :=
  xs.take (if limit < 0 then xs.length + limit else limit).toNat

def defaultLimit : Int := 200

/-- What the line on members that are left out begins with. -/
def footerMark : String := "*Showing "

def footer (shown : Int) (total : Nat) : String :=
  footerMark ++ toString shown ++ " of " ++ toString total ++ " members*"

def memberLines (title : String) (entries : List Entry) (limit : Int) (assembly : Option String) :
    List String :=
  ["**" ++ title ++ ": " ++ toString entries.length ++ " total**", ""] ++
  (match assembly with
    | some path => ["Assembly: `" ++ path ++ "`", ""]
    | none => []) ++
  (if entries.isEmpty then ["*(no members)*"]
    else (takeLimit limit entries).flatMap entryLines ++
      (if limit < entries.length then ["", footer limit entries.length] else []))

/-- A list of members under a title, of which at most `limit` are shown. -/
def memberList (title : String) (entries : List Entry) (limit : Int) (assembly : Option String) :
    String :=
  ofLines (memberLines title entries limit assembly)

/-- What opens and closes a block of code. -/
def fence : String := "```"

/-- The word behind the opening fence. -/
def fenceWord (language : String) : String := if language = "csharp" then "csharp" else "il"

def codeBlock (name : String) (kind : MemberKind) (key code language : String) : String :=
  ofLines ["**" ++ name ++ "** (" ++ kind.name ++ ") - `" ++ key ++ "`", "",
    fence ++ fenceWord language, code, fence]

/-- A key in words: underscores become blanks and each word begins with a capital. -/
def label (key : String) : String :=
  Text.titleCase (String.ofList (key.toList.map fun c => if c = '_' then ' ' else c))

def diagnosticLines (key : String) (v : Json) : List String :=
  match v with
  | .array [] => ["- " ++ label key ++ ": (none)"]
  | .array items =>
    ("- " ++ label key ++ ":") :: items.map fun item => "  - `" ++ item.plain ++ "`"
  | v => ["- " ++ label key ++ ": `" ++ v.plain ++ "`"]

def diagnostics (facts : List (String × Json)) : String :=
  ofLines (["**Decompiler Engine Status**", ""] ++
    facts.flatMap fun (key, v) => diagnosticLines key v)

end AssemblyBrowser.Format
