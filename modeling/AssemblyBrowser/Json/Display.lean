import AssemblyBrowser.Json.Basic
import AssemblyBrowser.Text.Quoted
/-!
How a JSON value is shown to a person: null as `None`, truth values with a capital, texts quoted,
brackets with a blank behind commas and colons. `plain` shows a text that stands alone as it is.
-/
namespace AssemblyBrowser.Json

mutual
def display : Json → String
  | .null => "None"
  | .bool true => "True"
  | .bool false => "False"
  | .number n => n.text
  | .text s => Text.quoted s
  | .array xs => "[" ++ ", ".intercalate (displayList xs) ++ "]"
  | .object fields => "\x7b" ++ ", ".intercalate (displayFields fields) ++ "\x7d"

def displayList : List Json → List String
  | [] => []
  | x :: xs => display x :: displayList xs

def displayFields : List (String × Json) → List String
  | [] => []
  | (k, x) :: fields => (Text.quoted k ++ ": " ++ display x) :: displayFields fields
end

def plain : Json → String
  | .text s => s
  | v => v.display

/-- The name of the type of a value. -/
def typeName : Json → String
  | .null => "NoneType"
  | .bool _ => "bool"
  | .number (.integer _) => "int"
  | .number (.real _) => "float"
  | .text _ => "str"
  | .array _ => "list"
  | .object _ => "dict"

end AssemblyBrowser.Json
