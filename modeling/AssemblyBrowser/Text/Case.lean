import AssemblyBrowser.Text.CaseTable
/-!
Letter case. `lower` is ASCII, which decides every comparison made here: the words compared with
have no letter that a character beyond ASCII lowers to, save the dotted capital I, whose lower form
keeps its dot as a separate character. `titleCase` and `upperAscii` work on all of Unicode.
-/
namespace AssemblyBrowser.Text

def lower (s : String) : String := String.ofList (s.toList.map Char.toLower)

/-- The image of a code point under runs `(first, last, step, shift)`. -/
def shifted (runs : List (Nat × Nat × Nat × Int)) (n : Nat) : Nat :=
  match runs.find? fun (first, last, step, _) =>
      first ≤ n && n ≤ last && (n - first) % step == 0 with
  | some (_, _, _, shift) => (n + shift : Int).toNat
  | none => n

def mapped (runs : List (Nat × Nat × Nat × Int)) (expansions : List (Nat × List Nat))
    (c : Char) : List Char :=
  match expansions.lookup c.toNat with
  | some ns => ns.map Char.ofNat
  | none => [Char.ofNat (shifted runs c.toNat)]

def inRuns (runs : List (Nat × Nat)) (c : Char) : Bool :=
  runs.any fun run => run.1 ≤ c.toNat && c.toNat ≤ run.2

def isCased (c : Char) : Bool := inRuns casedRuns c

/-- Whether the nearest character that is not case-ignorable is cased. -/
def casedAhead (cs : List Char) : Bool :=
  match cs.dropWhile (inRuns caseIgnorableRuns) with
  | [] => false
  | c :: _ => isCased c

/-- Lower case in context: a sigma at the end of a word takes its final form. `before` runs
backwards from the character. -/
def lowerIn (before : List Char) (c : Char) (after : List Char) : List Char :=
  if c.toNat = 0x3A3 then
    [Char.ofNat (if casedAhead before && !casedAhead after then 0x3C2 else 0x3C3)]
  else if c.toNat < 0x80 then [c.toLower]
  else mapped lowerRuns lowerExpansions c

def titleOf (c : Char) : List Char :=
  if c.toNat < 0x80 then [c.toUpper] else mapped titleRuns titleExpansions c

def titleList (before : List Char) : List Char → List Char
  | [] => []
  | c :: after =>
    (match before with
      | p :: _ => if isCased p then lowerIn before c after else titleOf c
      | [] => titleOf c) ++ titleList (c :: before) after

/-- Each letter that follows no letter in title case, every other one in lower case. -/
def titleCase (s : String) : String := String.ofList (titleList [] s.toList)

/-- Characters beyond ASCII whose upper-case form is ASCII. -/
def asciiUppers : List (Nat × String) :=
  [(0xDF, "SS"), (0x131, "I"), (0x17F, "S"), (0xFB00, "FF"), (0xFB01, "FI"), (0xFB02, "FL"),
   (0xFB03, "FFI"), (0xFB04, "FFL"), (0xFB05, "ST"), (0xFB06, "ST")]

/-- Upper case, as far as its result is ASCII; other characters stay as they are. -/
def upperAscii (s : String) : String :=
  String.ofList (s.toList.flatMap fun c =>
    match asciiUppers.lookup c.toNat with
    | some t => t.toList
    | none => [c.toUpper])

end AssemblyBrowser.Text
