/-!
The member whose code was shown last, by its assembly and its key.
-/
namespace AssemblyBrowser

structure Selection where
  last : Option (String × String) := none
deriving DecidableEq, Repr

namespace Selection

/-- Selects a member; the answer tells whether it is another one than before. -/
def select (s : Selection) (member : String × String) : Bool × Selection :=
  if s.last = some member then (false, s) else (true, ⟨some member⟩)

/-- Keys shown before a change of the tree may name other members now. -/
def forget : Selection := ⟨none⟩

end Selection

end AssemblyBrowser
