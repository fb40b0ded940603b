import AssemblyBrowser.OrderedMap
import AssemblyBrowser.Text.Blank
import AssemblyBrowser.Text.Split
/-!
Files of settings, one `KEY=value` a line. Blanks around keys and values do not count, nor does one
pair of quotes around a value; lines that begin with `#`, or have no key, are skipped. A key given
twice keeps the last value.
-/
namespace AssemblyBrowser.EnvFile

/-- Removes one pair of equal quotes. -/
def unquoteList (cs : List Char) : List Char :=
  match cs with
  | q :: rest =>
    if (q = '"' || q = '\'') && rest.getLast? = some q then rest.dropLast else cs
  | [] => []

/-- The setting on a line. -/
def settingList? (line : List Char) : Option (List Char × List Char) :=
  let line := Text.trimList line
  if line.head? = some '#' then none
  else match Text.cutList? '=' line with
    | none => none
    | some (key, value) =>
      let key := Text.trimList key
      if key.isEmpty then none else some (key, unquoteList (Text.trimList value))

def settings (cs : List Char) : List (String × String) :=
  ((Text.linesList cs).filterMap settingList?).map fun (k, v) => (String.ofList k, String.ofList v)

def parse (text : String) : OrderedMap String String := .ofList (settings text.toList)

end AssemblyBrowser.EnvFile
