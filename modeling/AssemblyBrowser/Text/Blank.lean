/-!
Blanks and line breaks. `trim` removes the blanks at both ends of a text and `lines` splits it at
its line breaks; a carriage return followed by a line feed is one break.
-/
namespace AssemblyBrowser.Text

/-- White space, and the four separators U+001C to U+001F. -/
def isBlank (c : Char) : Bool :=
  let n := c.toNat
  (9 ≤ n && n ≤ 13) || (0x1C ≤ n && n ≤ 0x20) || n == 0x85 || n == 0xA0 || n == 0x1680 ||
    (0x2000 ≤ n && n ≤ 0x200A) || n == 0x2028 || n == 0x2029 || n == 0x202F || n == 0x205F ||
    n == 0x3000

/-- Characters at which a text breaks into lines. -/
def isLineBreak (c : Char) : Bool :=
  let n := c.toNat
  (10 ≤ n && n ≤ 13) || (0x1C ≤ n && n ≤ 0x1E) || n == 0x85 || n == 0x2028 || n == 0x2029

/-- Drops what satisfies `p` at both ends. -/
def stripList (p : Char → Bool) (cs : List Char) : List Char :=
  ((cs.dropWhile p).reverse.dropWhile p).reverse

def trimList (cs : List Char) : List Char := stripList isBlank cs

def trim (s : String) : String := String.ofList (trimList s.toList)

def linesList : List Char → List (List Char)
  | [] => []
  | '\r' :: '\n' :: rest => [] :: linesList rest
  | c :: rest =>
    if isLineBreak c then [] :: linesList rest
    else match linesList rest with
      | [] => [[c]]
      | line :: more => (c :: line) :: more

/-- The lines of a text without their breaks; a break at the end starts no further line. -/
def lines (s : String) : List String := (linesList s.toList).map String.ofList

end AssemblyBrowser.Text
