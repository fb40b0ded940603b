/-!
Splitting texts at a character. The pieces, joined again by that character, are the text.
-/
namespace AssemblyBrowser.Text

def splitList (separator : Char) : List Char → List (List Char)
  | [] => [[]]
  | c :: cs =>
    if c = separator then [] :: splitList separator cs
    else match splitList separator cs with
      | [] => [[c]]
      | piece :: pieces => (c :: piece) :: pieces

def split (separator : Char) (s : String) : List String :=
  (splitList separator s.toList).map String.ofList

/-- The text before the first separator and the text behind it, if there is one. -/
def cutList? (separator : Char) : List Char → Option (List Char × List Char)
  | [] => none
  | c :: cs =>
    if c = separator then some ([], cs)
    else (cutList? separator cs).map fun (before, after) => (c :: before, after)

end AssemblyBrowser.Text
