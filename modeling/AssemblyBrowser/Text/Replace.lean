/-!
Replacing every occurrence of a text, from left to right; what is put in is not searched again.
-/
namespace AssemblyBrowser.Text

/-- `skip` more characters belong to an occurrence that has been replaced. -/
def replaceList (old new : List Char) : (skip : Nat) → List Char → List Char
  | _, [] => []
  | skip + 1, _ :: cs => replaceList old new skip cs
  | 0, c :: cs =>
    if old.isPrefixOf (c :: cs) then new ++ replaceList old new (old.length - 1) cs
    else c :: replaceList old new 0 cs

/-- An empty text does not occur. -/
def replace (old new s : String) : String :=
  if old = "" then s else String.ofList (replaceList old.toList new.toList 0 s.toList)

end AssemblyBrowser.Text
