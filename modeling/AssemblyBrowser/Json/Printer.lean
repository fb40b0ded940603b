import AssemblyBrowser.Json.Basic
import AssemblyBrowser.Text.Quoted
/-!
Writing JSON text in ASCII: every character outside the printable ASCII range is escaped, one beyond
the basic plane as a surrogate pair. A `Layout` says what stands between the parts; no layout puts
anything inside an empty array or object.
-/
namespace AssemblyBrowser.Json

inductive Layout
  /-- One line, without blanks. -/
  | compact
  /-- One line, with a blank behind commas and colons. -/
  | spaced
  /-- A line for each element, with as many blanks for each level. -/
  | indented (width : Nat)
deriving DecidableEq, Repr

namespace Printer

def unitEscape (u : Nat) : List Char := '\\' :: 'u' :: Text.hexDigits 4 u

def stringChar (c : Char) : List Char :=
  if c = '"' then ['\\', '"']
  else if c = '\\' then ['\\', '\\']
  else if c = '\n' then ['\\', 'n']
  else if c = '\r' then ['\\', 'r']
  else if c = '\t' then ['\\', 't']
  else if c = '\x0c' then ['\\', 'f']
  else if c = '\x08' then ['\\', 'b']
  else if ' ' ≤ c && c ≤ '~' then [c]
  else if c.toNat < 0x10000 then unitEscape c.toNat
  else
    let n := c.toNat - 0x10000
    unitEscape (0xD800 + n / 0x400) ++ unitEscape (0xDC00 + n % 0x400)

def string (s : String) : List Char := '"' :: s.toList.flatMap stringChar ++ ['"']

def number : Number → List Char
  | .integer n => (toString n).toList
  | .real .nan => "NaN".toList
  | .real (.infinite negative) => if negative then "-Infinity".toList else "Infinity".toList
  | .real x => x.textList

/-- A new line at a depth. -/
def lineBreak (width depth : Nat) : List Char := '\n' :: List.replicate (width * depth) ' '

/-- What opens a bracket whose inside stands at `depth`. -/
def opening : Layout → Nat → List Char
  | .indented width, depth => lineBreak width depth
  | _, _ => []

/-- What separates two items at `depth`. -/
def separator : Layout → Nat → List Char
  | .compact, _ => [',']
  | .spaced, _ => [',', ' ']
  | .indented width, depth => ',' :: lineBreak width depth

def colon : Layout → List Char
  | .compact => [':']
  | _ => [':', ' ']

mutual
def value (l : Layout) (depth : Nat) : Json → List Char
  | .null => ['n', 'u', 'l', 'l']
  | .bool true => ['t', 'r', 'u', 'e']
  | .bool false => ['f', 'a', 'l', 's', 'e']
  | .number n => number n
  | .text s => string s
  | .array [] => ['[', ']']
  | .array (x :: xs) =>
    '[' :: opening l (depth + 1) ++ value l (depth + 1) x ++ elements l (depth + 1) xs ++
      opening l depth ++ [']']
  | .object [] => ['{', '}']
  | .object ((k, x) :: fields) =>
    '{' :: opening l (depth + 1) ++ string k ++ colon l ++ value l (depth + 1) x ++
      members l (depth + 1) fields ++ opening l depth ++ ['}']

/-- The elements behind the first, each behind a separator. -/
def elements (l : Layout) (depth : Nat) : List Json → List Char
  | [] => []
  | x :: xs => separator l depth ++ value l depth x ++ elements l depth xs

/-- The fields behind the first, each behind a separator. -/
def members (l : Layout) (depth : Nat) : List (String × Json) → List Char
  | [] => []
  | (k, x) :: fields =>
    separator l depth ++ string k ++ colon l ++ value l depth x ++ members l depth fields
end

end Printer

def print (l : Layout) (v : Json) : String := String.ofList (Printer.value l 0 v)

end AssemblyBrowser.Json
