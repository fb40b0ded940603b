import AssemblyBrowser.Text.Blank
import AssemblyBrowser.Text.Case
/-!
The languages that decompiled text is written in.
-/
namespace AssemblyBrowser

inductive Language
  | csharp
  | il
deriving DecidableEq, Repr

/-- A text that names no language. -/
structure UnknownLanguage where
  text : String
deriving DecidableEq, Repr

namespace Language

instance : Inhabited Language := ⟨.csharp⟩

def name : Language → String
  | .csharp => "csharp"
  | .il => "il"

def all : List Language := [.csharp, .il]

/-- The names of the languages, as they are listed for a person. -/
def choices : String := ", ".intercalate (all.map name)

/-- Other spellings that are accepted. -/
def aliases : List (String × Language) :=
  [("c#", .csharp), ("cs", .csharp), ("msil", .il), ("cil", .il)]

def ofName? (s : String) : Option Language := all.find? fun l => l.name = s

/-- The language that a text names, in any case and with blanks around it. -/
def parse (s : String) : Except UnknownLanguage Language :=
  let word := Text.lower (Text.trim s)
  match aliases.lookup word with
  | some l => .ok l
  | none =>
    match ofName? word with
    | some l => .ok l
    | none => .error ⟨s⟩

end Language

def UnknownLanguage.message (e : UnknownLanguage) : String :=
  "Unknown language '" ++ e.text ++ "' (expected one of: " ++ Language.choices ++ ")"

end AssemblyBrowser
