import AssemblyBrowser.Json.Basic
import AssemblyBrowser.Number.Reading
/-!
Reading JSON text. Beyond the standard grammar the words `NaN`, `Infinity` and `-Infinity` are
numbers, and an integer may have at most 4300 digits. `Json.parse` reads one value with blanks
around it; the first fault from the left decides the error.

The recursive readers take fuel. Every reader of a value consumes a character, so twice the length
of the text is enough and `Json.parse` hides it.
-/
namespace AssemblyBrowser.Json

inductive ParseError
  | expectingValue
  | expectingName
  | expectingColon
  | expectingComma
  | unterminatedString
  | controlCharacter
  | invalidEscape
  | invalidUnicodeEscape
  | extraData
  | byteOrderMark
  /-- An integer of too many digits: not a fault of the grammar. -/
  | hugeInteger (digits : Nat)
deriving DecidableEq, Repr

/-- The longest integer that is read. -/
def longestInteger : Nat := 4300

def ParseError.message : ParseError → String
  | .expectingValue => "Expecting value"
  | .expectingName => "Expecting property name enclosed in double quotes"
  | .expectingColon => "Expecting ':' delimiter"
  | .expectingComma => "Expecting ',' delimiter"
  | .unterminatedString => "Unterminated string starting at"
  | .controlCharacter => "Invalid control character at"
  | .invalidEscape => "Invalid \\escape"
  | .invalidUnicodeEscape => "Invalid \\uXXXX escape"
  | .extraData => "Extra data"
  | .byteOrderMark => "Unexpected UTF-8 BOM (decode using utf-8-sig)"
  | .hugeInteger digits =>
    "Exceeds the limit (" ++ toString longestInteger ++ " digits) for integer string conversion: " ++
      "value has " ++ toString digits ++
      " digits; use sys.set_int_max_str_digits() to increase the limit"

namespace Parser

abbrev Result (α : Type) := Except ParseError (α × List Char)

/-- The blanks of JSON. -/
def isSpace (c : Char) : Bool := c == ' ' || c == '\t' || c == '\n' || c == '\r'

def skipSpace (cs : List Char) : List Char := cs.dropWhile isSpace

/-! Strings are read as code units: an escape may give half of a surrogate pair. -/

def hexValue? (c : Char) : Option Nat :=
  if '0' ≤ c && c ≤ '9' then some (c.toNat - 48)
  else if 'a' ≤ c && c ≤ 'f' then some (c.toNat - 87)
  else if 'A' ≤ c && c ≤ 'F' then some (c.toNat - 55)
  else none

/-- The number of four hexadecimal digits. -/
def unit? (a b c d : Char) : Option Nat := do
  let a ← hexValue? a
  let b ← hexValue? b
  let c ← hexValue? c
  let d ← hexValue? d
  some (a * 4096 + b * 256 + c * 16 + d)

/-- What a backslash and a character stand for. -/
def escape? (c : Char) : Option Char :=
  if c = '"' || c = '\\' || c = '/' then some c
  else if c = 'b' then some '\x08'
  else if c = 'f' then some '\x0c'
  else if c = 'n' then some '\n'
  else if c = 'r' then some '\r'
  else if c = 't' then some '\t'
  else none

/-- Reads the inside of a string up to and with its closing quote. An escaped code unit must have a
further character behind it. -/
def units : List Char → Result (List Nat)
  | [] => .error .unterminatedString
  | c :: rest =>
    if c = '"' then .ok ([], rest)
    else if c = '\\' then
      match rest with
      | [] => .error .unterminatedString
      | e :: rest =>
        if e = 'u' then
          match rest with
          | a :: b :: c :: d :: next :: rest =>
            match unit? a b c d with
            | none => .error .invalidUnicodeEscape
            | some u =>
              match units (next :: rest) with
              | .ok (us, rest) => .ok (u :: us, rest)
              | .error err => .error err
          | _ => .error .invalidUnicodeEscape
        else
          match escape? e with
          | none => .error .invalidEscape
          | some x =>
            match units rest with
            | .ok (us, rest) => .ok (x.toNat :: us, rest)
            | .error err => .error err
    else if c.toNat ≤ 0x1F then .error .controlCharacter
    else
      match units rest with
      | .ok (us, rest) => .ok (c.toNat :: us, rest)
      | .error err => .error err

def isHigh (u : Nat) : Bool := 0xD800 ≤ u && u ≤ 0xDBFF
def isLow (u : Nat) : Bool := 0xDC00 ≤ u && u ≤ 0xDFFF

/-- The character of a code unit; a lone half of a pair becomes the replacement character. -/
def unitChar (u : Nat) : Char := if isHigh u || isLow u then '\uFFFD' else Char.ofNat u

/-- Joins the pairs. -/
def join : List Nat → List Char
  | [] => []
  | [u] => [unitChar u]
  | u :: v :: rest =>
    if isHigh u && isLow v then
      Char.ofNat (0x10000 + (u - 0xD800) * 0x400 + (v - 0xDC00)) :: join rest
    else unitChar u :: join (v :: rest)

/-- Reads a string whose opening quote has been read. -/
def string (cs : List Char) : Result String :=
  (units cs).map fun (us, rest) => (String.ofList (join us), rest)

/-! Numbers. -/

/-- The digits of an integer without needless zeros in front, if one begins here. -/
def integerDigits? : List Char → Option (List Char × List Char)
  | [] => none
  | c :: rest =>
    if c = '0' then some (['0'], rest)
    else if c.isDigit then some (c :: rest.takeWhile Char.isDigit, rest.dropWhile Char.isDigit)
    else none

/-- The digits behind a point, if there are any. -/
def fraction : List Char → List Char × List Char
  | '.' :: rest =>
    if (rest.takeWhile Char.isDigit).isEmpty then ([], '.' :: rest)
    else (rest.takeWhile Char.isDigit, rest.dropWhile Char.isDigit)
  | cs => ([], cs)

/-- The exponent behind `e` or `E`, if it has digits. -/
def exponent? : List Char → Option (Int × List Char)
  | [] => none
  | c :: rest =>
    if c = 'e' || c = 'E' then
      let (negative, ds) := match rest with
        | '-' :: ds => (true, ds)
        | '+' :: ds => (false, ds)
        | ds => (false, ds)
      let digits := ds.takeWhile Char.isDigit
      if digits.isEmpty then none
      else
        let n : Int := decimalValue digits
        some (if negative then -n else n, ds.dropWhile Char.isDigit)
    else none

/-- Reads a number; one with a fraction or an exponent is a floating-point number. -/
def number (cs : List Char) : Result Number :=
  let (negative, cs) := match cs with
    | '-' :: rest => (true, rest)
    | _ => (false, cs)
  match integerDigits? cs with
  | none => .error .expectingValue
  | some (whole, rest) =>
    let (digits, rest) := fraction rest
    match exponent? rest with
    | some (e, rest) => .ok (.real (.ofParts negative whole digits e), rest)
    | none =>
      if !digits.isEmpty then .ok (.real (.ofParts negative whole digits 0), rest)
      else if longestInteger < whole.length then .error (.hugeInteger whole.length)
      else
        let n : Int := decimalValue whole
        .ok (.integer (if negative then -n else n), rest)

/-- Words that stand for values. -/
def words : List (List Char × Json) :=
  [(['n', 'u', 'l', 'l'], .null), (['t', 'r', 'u', 'e'], .bool true),
   (['f', 'a', 'l', 's', 'e'], .bool false), (['N', 'a', 'N'], .number (.real .nan)),
   (['I', 'n', 'f', 'i', 'n', 'i', 't', 'y'], .number (.real (.infinite false))),
   (['-', 'I', 'n', 'f', 'i', 'n', 'i', 't', 'y'], .number (.real (.infinite true)))]

def word? (cs : List Char) : Option (Json × List Char) :=
  words.findSome? fun (w, v) =>
    if w.isPrefixOf cs then some (v, cs.drop w.length) else none

mutual
/-- Reads a value that begins at once. -/
def value : (fuel : Nat) → List Char → Result Json
  | 0, _ => .error .expectingValue
  | _ + 1, [] => .error .expectingValue
  | fuel + 1, c :: rest =>
    if c = '"' then (string rest).map fun (s, rest) => (.text s, rest)
    else if c = '[' then
      match skipSpace rest with
      | [] => .error .expectingValue
      | d :: rest =>
        if d = ']' then .ok (.array [], rest)
        else (elements fuel (d :: rest)).map fun (xs, rest) => (.array xs, rest)
    else if c = '{' then
      match skipSpace rest with
      | [] => .error .expectingName
      | d :: rest =>
        if d = '}' then .ok (.object [], rest)
        else (members fuel [] (d :: rest)).map fun (fields, rest) => (.object fields, rest)
    else
      match word? (c :: rest) with
      | some found => .ok found
      | none => (number (c :: rest)).map fun (n, rest) => (.number n, rest)

/-- Reads the elements of an array up to and with its closing bracket. -/
def elements : (fuel : Nat) → List Char → Result (List Json)
  | 0, _ => .error .expectingValue
  | fuel + 1, cs =>
    match value fuel cs with
    | .error e => .error e
    | .ok (x, rest) =>
      match skipSpace rest with
      | [] => .error .expectingComma
      | c :: rest =>
        if c = ']' then .ok ([x], rest)
        else if c = ',' then
          (elements fuel (skipSpace rest)).map fun (xs, rest) => (x :: xs, rest)
        else .error .expectingComma

/-- Reads the fields of an object up to and with its closing brace, behind the fields read before. -/
def members : (fuel : Nat) → List (String × Json) → List Char → Result (List (String × Json))
  | 0, _, _ => .error .expectingValue
  | _ + 1, _, [] => .error .expectingName
  | fuel + 1, fields, c :: rest =>
    if c ≠ '"' then .error .expectingName
    else
      match string rest with
      | .error e => .error e
      | .ok (key, rest) =>
        match skipSpace rest with
        | [] => .error .expectingColon
        | c :: rest =>
          if c ≠ ':' then .error .expectingColon
          else
            match value fuel (skipSpace rest) with
            | .error e => .error e
            | .ok (x, rest) =>
              match skipSpace rest with
              | [] => .error .expectingComma
              | c :: rest =>
                if c = '}' then .ok (Assoc.put key x fields, rest)
                else if c = ',' then members fuel (Assoc.put key x fields) (skipSpace rest)
                else .error .expectingComma
end

/-- Reads a text that holds one value. -/
def document (cs : List Char) : Except ParseError Json :=
  if cs.head? = some '\uFEFF' then .error .byteOrderMark
  else
    match value (2 * cs.length + 2) (skipSpace cs) with
    | .error e => .error e
    | .ok (v, rest) => if (skipSpace rest).isEmpty then .ok v else .error .extraData

end Parser

def parse (s : String) : Except ParseError Json := Parser.document s.toList

end AssemblyBrowser.Json
