import AssemblyBrowser.Format
import AssemblyBrowser.Proofs.FileSystem.Names
import AssemblyBrowser.Proofs.Json.RoundTrip
/-!
Answers read back line by line. Main statements: the keys in a member list are those of the entries that
it shows, and these are the ones asked for, with a footer that counts them, exactly if the limit is not
negative or there is no member; and a block of code holds the code exactly if no line of the code ends
the block.
-/
namespace AssemblyBrowser

theorem Text.splitList_eq_splitOn (separator : Char) (cs : List Char) :
    splitList separator cs = cs.splitOn separator := by
  induction cs with
  | nil => rfl
  | cons c cs ih =>
    simp only [splitList, ih, List.splitOn, List.splitOnP_cons_eq_if_modifyHead]
    by_cases hc : c = separator
    · rw [if_pos hc, if_pos (beq_iff_eq.mpr hc)]
    · rw [if_neg hc, if_neg (mt beq_iff_eq.mp hc)]
      cases hsplit : cs.splitOnP (· == separator) with
      | nil => exact absurd hsplit (List.splitOnP_ne_nil _ _)
      | cons piece pieces => rfl

namespace Format

/-! ## Lines -/

variable {s t : String}

/-- The lines of a text; what stands behind the last line break is one too. -/
def linesOf (text : String) : List String := Text.split '\n' text

/-- A text that has no line break. -/
def OneLine (s : String) : Prop := '\n' ∉ s.toList

instance (s : String) : Decidable (OneLine s) := inferInstanceAs (Decidable ('\n' ∉ s.toList))

@[simp] theorem oneLine_append : OneLine (s ++ t) ↔ OneLine s ∧ OneLine t := by
  simp [OneLine, not_or]

theorem linesOf_of_oneLine (h : OneLine s) : linesOf s = [s] := by
  simp [linesOf, Text.split, Text.splitList_of_not_mem h]

theorem linesOf_break (s t : String) : linesOf (s ++ "\n" ++ t) = linesOf s ++ linesOf t := by
  have hbreak : (s ++ "\n" ++ t).toList = s.toList ++ '\n' :: t.toList := by simp
  simp only [linesOf, Text.split, hbreak, Text.splitList_eq_splitOn, List.splitOn]
  rw [List.splitOnP_append_cons (p := (· == '\n')) _ _ (beq_self_eq_true _), List.map_append]

theorem ofLines_cons (line : String) (lines : List String) :
    ofLines (line :: lines) = line ++ "\n" ++ ofLines lines := by
  apply String.toList_injective
  simp [ofLines]

theorem linesOf_ofLines (lines : List String) :
    linesOf (ofLines lines) = lines.flatMap linesOf ++ [""] := by
  induction lines with
  | nil => rfl
  | cons line lines ih => rw [ofLines_cons, linesOf_break, ih, List.flatMap_cons, List.append_assoc]

theorem linesOf_ofLines_of_oneLine {lines : List String} (h : ∀ line ∈ lines, OneLine line) :
    linesOf (ofLines lines) = lines ++ [""] := by
  have hlines : lines.flatMap linesOf = lines := by
    calc lines.flatMap linesOf = lines.flatMap fun line => [line] :=
          List.flatMap_congr fun line hline => linesOf_of_oneLine (h line hline)
      _ = lines := List.flatMap_singleton' lines
  rw [linesOf_ofLines, hlines]

/-- The lines of a text, joined again, are the text. -/
theorem intercalate_linesOf (s : String) : "\n".intercalate (linesOf s) = s := by
  apply String.toList_injective
  have hbreak : "\n".toList = ['\n'] := rfl
  rw [String.toList_intercalate, hbreak, linesOf, Text.split, List.map_map,
    Text.splitList_eq_splitOn]
  simp [Function.comp_def, List.intercalate_splitOn]

theorem notMem_toDigits (n : Nat) : '\n' ∉ Nat.toDigits 10 n := fun hmem =>
  absurd (Json.Parser.isDigit_toDigits n _ hmem) (by decide)

theorem oneLine_natural (n : Nat) : OneLine (toString n) := by
  have hdigits : (toString n).toList = Nat.toDigits 10 n := String.toList_ofList
  rw [OneLine, hdigits]
  exact notMem_toDigits n

theorem oneLine_integer (n : Int) : OneLine (toString n) := by
  rw [OneLine, Json.Parser.toList_toString]
  split
  · simp [notMem_toDigits]
  · exact notMem_toDigits _

/-! ## Member lists -/

/-- The key on a line that shows one: all that stands between the mark and the last backtick. -/
def keyOf? (line : String) : Option String :=
  match keyMark.toList.isPrefixOf? line.toList with
  | some rest => if rest.getLast? = some '`' then some (String.ofList rest.dropLast) else none
  | none => none

/-- The entries on some lines: each line that shows a key, with the line above it. -/
def entriesFrom (above : String) : List String → List (String × String)
  | [] => []
  | line :: lines => ((keyOf? line).map (above, ·)).toList ++ entriesFrom line lines

def entriesIn (text : String) : List (String × String) := entriesFrom "" (linesOf text)

def isFooter (line : String) : Bool := footerMark.toList.isPrefixOf line.toList

def footersIn (text : String) : List String := (linesOf text).filter isFooter

/-- A text shows the first entries, each with its key, and if these are not all, a footer says how many
they are. -/
structure Shows (text : String) (entries : List Entry) (shown : Nat) : Prop where
  listed : entriesIn text = (entries.take shown).map fun e => (headline e, e.key)
  counted : footersIn text = if shown < entries.length then [footer shown entries.length] else []

theorem keyOf?_keyLine (key : String) : keyOf? (keyLine key) = some key := by
  have hrest : keyMark.toList.isPrefixOf? (keyLine key).toList = some (key.toList ++ ['`']) := by
    rw [List.isPrefixOf?_eq_some_iff_append_eq]
    simp [keyLine]
  simp [keyOf?, hrest]

theorem keyOf?_eq_none (line : String) (h : line.toList.head? ≠ some ' ') : keyOf? line = none := by
  have hrest : keyMark.toList.isPrefixOf? line.toList = none := by
    cases hline : line.toList with
    | nil => rfl
    | cons c cs =>
      rw [hline, List.head?_cons] at h
      have hc : ' ' ≠ c := fun hc => h (congrArg some hc.symm)
      have hmark : keyMark.toList = ' ' :: "  - Key: `".toList.tail := rfl
      rw [hmark, List.isPrefixOf?, if_neg (mt beq_iff_eq.mp hc)]
  rw [keyOf?, hrest]

theorem keyOf?_headline (e : Entry) : keyOf? (headline e) = none :=
  keyOf?_eq_none _ (by simp [headline])

theorem entriesFrom_append_keyless {top : List String} (h : ∀ line ∈ top, keyOf? line = none)
    (above : String) (rest : List String) :
    ∃ above', entriesFrom above (top ++ rest) = entriesFrom above' rest := by
  induction top generalizing above with
  | nil => exact ⟨above, rfl⟩
  | cons line top ih =>
    obtain ⟨hline, htop⟩ := List.forall_mem_cons.mp h
    obtain ⟨above', hrest⟩ := ih htop line
    refine ⟨above', ?_⟩
    rw [List.cons_append, entriesFrom, hline, hrest]
    rfl

theorem entriesFrom_keyless {lines : List String} (h : ∀ line ∈ lines, keyOf? line = none)
    (above : String) : entriesFrom above lines = [] := by
  obtain ⟨above', hnil⟩ := entriesFrom_append_keyless h above []
  rw [← List.append_nil lines, hnil]
  rfl

theorem entriesFrom_entryLines (entries : List Entry) {rest : List String}
    (h : ∀ line ∈ rest, keyOf? line = none) (above : String) :
    entriesFrom above (entries.flatMap entryLines ++ rest) =
      entries.map fun e => (headline e, e.key) := by
  induction entries generalizing above with
  | nil => exact entriesFrom_keyless h above
  | cons e entries ih =>
    simp only [List.flatMap_cons, entryLines, List.cons_append, List.nil_append, entriesFrom,
      keyOf?_headline, keyOf?_keyLine, ih, List.map_cons]
    rfl

theorem isFooter_footer (shown : Int) (total : Nat) : isFooter (footer shown total) = true := by
  simp [isFooter, footer, List.isPrefixOf_iff_prefix, List.append_assoc]

theorem isFooter_eq_false (line : String) (h : line.toList.take 2 ≠ ['*', 'S']) :
    isFooter line = false := by
  rw [isFooter, ← Bool.not_eq_true, List.isPrefixOf_iff_prefix]
  rintro ⟨rest, hrest⟩
  rw [← hrest] at h
  exact h rfl

/-! ### The parts of a list -/

section

variable (title : String) (entries : List Entry) (limit : Int) (assembly : Option String)

/-- The lines above the entries. -/
def preamble (count : Nat) : List String :=
  ["**" ++ title ++ ": " ++ toString count ++ " total**", ""] ++
    match assembly with
    | some path => ["Assembly: `" ++ path ++ "`", ""]
    | none => []

/-- The lines below the entries. -/
def closing : List String :=
  if entries.isEmpty then ["*(no members)*"]
  else if limit < entries.length then ["", footer limit entries.length] else []

theorem memberLines_eq : memberLines title entries limit assembly =
    preamble title assembly entries.length ++
      ((takeLimit limit entries).flatMap entryLines ++ closing entries limit) := by
  cases assembly <;> cases entries <;> simp [memberLines, preamble, closing, takeLimit]

variable {title entries limit assembly}

/-- A line that is neither that of a key nor a footer. -/
def Plain (line : String) : Prop := keyOf? line = none ∧ isFooter line = false

theorem plain_preamble (count : Nat) : ∀ line ∈ preamble title assembly count, Plain line := by
  have htitle : Plain ("**" ++ title ++ ": " ++ toString count ++ " total**") :=
    ⟨keyOf?_eq_none _ (by simp), isFooter_eq_false _ (by simp)⟩
  have hempty : Plain "" := ⟨keyOf?_eq_none _ (by simp), isFooter_eq_false _ (by simp)⟩
  have hassembly : ∀ path : String, Plain ("Assembly: `" ++ path ++ "`") := fun path =>
    ⟨keyOf?_eq_none _ (by simp), isFooter_eq_false _ (by simp)⟩
  cases assembly with
  | none => simpa [preamble, hempty] using htitle
  | some path => simpa [preamble, hempty, hassembly path] using htitle

theorem footers_preamble (count : Nat) : (preamble title assembly count).filter isFooter = [] :=
  List.filter_eq_nil_iff.mpr fun line hline => by simp [(plain_preamble count line hline).2]

theorem footers_entryLines : (entries.flatMap entryLines).filter isFooter = [] := by
  refine List.filter_eq_nil_iff.mpr fun line hline => ?_
  obtain ⟨e, -, hline⟩ := List.mem_flatMap.mp hline
  rw [entryLines, List.mem_cons, List.mem_singleton] at hline
  rcases hline with rfl | rfl
  · simp [isFooter_eq_false (headline e) (by simp [headline])]
  · simp [isFooter_eq_false (keyLine e.key) (by simp [keyLine, keyMark])]

theorem keyless_closing : ∀ line ∈ closing entries limit, keyOf? line = none := by
  have hfooter : keyOf? (footer limit entries.length) = none :=
    keyOf?_eq_none _ (by simp [footer, footerMark])
  unfold closing
  split
  · simp [keyOf?_eq_none "*(no members)*" (by simp)]
  · split
    · simp [hfooter, keyOf?_eq_none "" (by simp)]
    · simp

theorem footers_closing : (closing entries limit).filter isFooter =
    if limit < entries.length ∧ entries ≠ [] then [footer limit entries.length] else [] := by
  unfold closing
  cases entries with
  | nil => simp [isFooter_eq_false "*(no members)*" (by simp)]
  | cons e entries =>
    by_cases h : limit < (e :: entries).length
    · simp only [List.isEmpty_cons, Bool.false_eq_true, if_false, if_pos h, ne_eq, reduceCtorEq,
        not_false_eq_true, and_true]
      simp [isFooter_footer, isFooter_eq_false "" (by simp)]
    · simp only [List.isEmpty_cons, Bool.false_eq_true, if_false, if_neg h, ne_eq, reduceCtorEq,
        not_false_eq_true, and_true, List.filter_nil]

/-- What is shown stays on its lines. -/
structure Lined (title : String) (entries : List Entry) (assembly : Option String) : Prop where
  title : OneLine title
  assembly : ∀ path ∈ assembly, OneLine path
  name : ∀ e ∈ entries, OneLine e.name
  key : ∀ e ∈ entries, OneLine e.key

theorem oneLine_headline {e : Entry} (h : OneLine e.name) : OneLine (headline e) := by
  have hicon : OneLine (icon e.kind) := by cases e.kind <;> decide
  have hkind : OneLine e.kind.name := by cases e.kind <;> decide
  have harrow : OneLine (arrow e) := by
    unfold arrow
    split
    · split <;> decide
    · decide
  have hwords : OneLine "- " ∧ OneLine " **" ∧ OneLine "** (" ∧ OneLine ")" := by decide
  simp only [headline, oneLine_append, hwords, hicon, hkind, harrow, h, and_self]

theorem oneLine_preamble (htitle : OneLine title) (hassembly : ∀ path ∈ assembly, OneLine path)
    (count : Nat) : ∀ line ∈ preamble title assembly count, OneLine line := by
  have hwords : OneLine "**" ∧ OneLine ": " ∧ OneLine " total**" ∧ OneLine "Assembly: `" ∧
      OneLine "`" := by decide
  have hhead : OneLine ("**" ++ title ++ ": " ++ toString count ++ " total**") := by
    simp only [oneLine_append, hwords, htitle, oneLine_natural, and_self]
  have hempty : OneLine "" := by decide
  cases assembly with
  | none => simpa [preamble, hempty] using hhead
  | some path =>
    have hpath : OneLine ("Assembly: `" ++ path ++ "`") := by
      simp only [oneLine_append, hwords, hassembly path rfl, and_self]
    exact List.forall_mem_cons.mpr ⟨hhead, by simpa [hempty] using hpath⟩

theorem oneLine_entryLines (hname : ∀ e ∈ entries, OneLine e.name)
    (hkey : ∀ e ∈ entries, OneLine e.key) :
    ∀ line ∈ entries.flatMap entryLines, OneLine line := by
  intro line hline
  obtain ⟨e, he, hline⟩ := List.mem_flatMap.mp hline
  rw [entryLines, List.mem_cons, List.mem_singleton] at hline
  rcases hline with rfl | rfl
  · exact oneLine_headline (hname e he)
  · have hwords : OneLine keyMark ∧ OneLine "`" := by decide
    simp only [keyLine, oneLine_append, hwords, hkey e he, and_self]

theorem oneLine_closing : ∀ line ∈ closing entries limit, OneLine line := by
  have hwords : OneLine footerMark ∧ OneLine " of " ∧ OneLine " members*" := by decide
  have hfooter : OneLine (footer limit entries.length) := by
    simp only [footer, oneLine_append, hwords, oneLine_natural, oneLine_integer, and_self]
  have hnone : OneLine "*(no members)*" ∧ OneLine "" := by decide
  unfold closing
  split
  · simp [hnone]
  · split
    · simp [hnone, hfooter]
    · simp

theorem linesOf_memberList (h : Lined title entries assembly) :
    linesOf (memberList title entries limit assembly) =
      preamble title assembly entries.length ++
        ((takeLimit limit entries).flatMap entryLines ++ (closing entries limit ++ [""])) := by
  have hsub : ∀ e ∈ takeLimit limit entries, e ∈ entries := fun e he => List.mem_of_mem_take he
  rw [memberList, memberLines_eq, linesOf_ofLines_of_oneLine]
  · simp only [List.append_assoc]
  · intro line hline
    rcases List.mem_append.mp hline with hline | hline
    · exact oneLine_preamble h.title h.assembly _ line hline
    rcases List.mem_append.mp hline with hline | hline
    · exact oneLine_entryLines (fun e he => h.name e (hsub e he)) (fun e he => h.key e (hsub e he))
        line hline
    · exact oneLine_closing line hline

/-- What is shown, however many that are. -/
theorem entriesIn_memberList (h : Lined title entries assembly) :
    entriesIn (memberList title entries limit assembly) =
      (takeLimit limit entries).map fun e => (headline e, e.key) := by
  have habove : ∀ line ∈ preamble title assembly entries.length, keyOf? line = none :=
    fun line hline => (plain_preamble _ line hline).1
  obtain ⟨above, hpreamble⟩ := entriesFrom_append_keyless habove ""
    ((takeLimit limit entries).flatMap entryLines ++ (closing entries limit ++ [""]))
  have hbelow : ∀ line ∈ closing entries limit ++ [""], keyOf? line = none :=
    List.forall_mem_append.mpr ⟨keyless_closing, by simp [keyOf?_eq_none "" (by simp)]⟩
  rw [entriesIn, linesOf_memberList h, hpreamble, entriesFrom_entryLines _ hbelow]

theorem footersIn_memberList (h : Lined title entries assembly) :
    footersIn (memberList title entries limit assembly) =
      if limit < entries.length ∧ entries ≠ [] then [footer limit entries.length] else [] := by
  rw [footersIn, linesOf_memberList h]
  simp only [List.filter_append, footers_preamble, footers_entryLines, footers_closing,
    List.nil_append]
  simp [isFooter_eq_false "" (by simp)]

end

/-- A negative number is not taken for a count. -/
theorem footer_ne_of_neg {limit : Int} (h : limit < 0) (shown total : Nat) :
    footer limit total ≠ footer shown total := by
  intro heq
  have hlist := congrArg String.toList heq
  simp only [footer, String.toList_append, List.append_assoc, List.append_cancel_left_eq,
    Json.Parser.toList_toString, if_pos h, if_neg (Int.not_lt.mpr (Int.natCast_nonneg shown))] at hlist
  obtain ⟨c, cs, hdigits, hc⟩ := Json.Parser.toDigits_head (shown : Int).natAbs
  rw [hdigits, List.cons_append, List.cons_append] at hlist
  exact Json.Parser.ne_of_isDigit hc rfl (List.cons.inj hlist).1.symm

section

variable {title : String} {entries : List Entry} {limit : Int} {assembly : Option String}

theorem shows_of_nonneg (h : Lined title entries assembly) (hlimit : 0 ≤ limit) :
    Shows (memberList title entries limit assembly) entries
      (max 0 (min limit entries.length)).toNat := by
  constructor
  case listed =>
    rw [entriesIn_memberList h, takeLimit, if_neg (Int.not_lt.mpr hlimit)]
    congr 1
    rw [List.take_eq_take_iff]
    omega
  case counted =>
    rw [footersIn_memberList h]
    by_cases hall : limit < entries.length
    · have hne : entries ≠ [] := by
        rintro rfl
        exact absurd hall (Int.not_lt.mpr hlimit)
      have hcount : ((max 0 (min limit entries.length)).toNat : Int) = limit := by omega
      rw [if_pos ⟨hall, hne⟩, if_pos (by omega), hcount]
    · rw [if_neg fun h => hall h.1, if_neg (by omega)]

theorem shows_nil (h : Lined title [] assembly) (shown : Nat) :
    Shows (memberList title [] limit assembly) [] shown := by
  constructor
  case listed =>
    rw [entriesIn_memberList h]
    simp [takeLimit]
  case counted =>
    rw [footersIn_memberList h]
    simp

/-- The footer has a negative limit for the count. -/
theorem not_shows_of_neg (h : Lined title entries assembly) (hneg : limit < 0)
    (hne : entries ≠ []) :
    ¬Shows (memberList title entries limit assembly) entries
      (max 0 (min limit entries.length)).toNat := by
  intro hshows
  have hlength : 0 < entries.length := List.length_pos_iff.mpr hne
  have hcounted := hshows.counted
  rw [footersIn_memberList h, if_pos ⟨by omega, hne⟩, if_pos (by omega)] at hcounted
  exact footer_ne_of_neg hneg _ _ (List.cons.inj hcounted).1

end

/-- The first members are shown, as many as the limit asks for, and a footer counts them if they are not
all, exactly if the limit is not negative or there is no member. A negative limit leaves out members at the
end, and the footer then has the limit for the count. What is shown can be read back, whatever the keys
are. -/
theorem shows_first_iff_limit_nonneg {title : String} {entries : List Entry}
    {assembly : Option String} (h : Lined title entries assembly) (limit : Int) :
    let text := memberList title entries limit assembly
    (Shows text entries (max 0 (min limit entries.length)).toNat ↔ 0 ≤ limit ∨ entries = []) ∧
    entriesIn text = (entries.take (if limit < 0 then entries.length + limit else limit).toNat).map
      (fun e => (headline e, e.key)) ∧
    footersIn text =
      if limit < entries.length ∧ entries ≠ [] then [footer limit entries.length] else [] := by
  intro text
  refine ⟨⟨fun hshows => ?_, fun hlimit => ?_⟩, entriesIn_memberList h, footersIn_memberList h⟩
  · by_contra hnot
    obtain ⟨hneg, hne⟩ := not_or.mp hnot
    exact not_shows_of_neg h (Int.not_le.mp hneg) hne hshows
  · rcases hlimit with hlimit | rfl
    · exact shows_of_nonneg h hlimit
    · exact shows_nil h _

/-- Three members and the limit -1: two of them are shown, and the footer says `-1`. -/
theorem shows_first_not_of_negative :
    let entries : List Entry := [⟨"List`1", "List`1", .type, false⟩, ⟨"`k`", "N", .nameSpace, true⟩,
      ⟨"m", "M", .method, false⟩]
    let text := memberList "Members" entries (-1) (some "a.dll")
    Lined "Members" entries (some "a.dll") ∧
      (entriesIn text).map Prod.snd = ["List`1", "`k`"] ∧
      footersIn text = ["*Showing -1 of 3 members*"] ∧ ¬Shows text entries 0 := by
  intro entries text
  have hlined : Lined "Members" entries (some "a.dll") :=
    ⟨by decide, by decide, by decide, by decide⟩
  obtain ⟨hshows, hlisted, hfooters⟩ := shows_first_iff_limit_nonneg hlined (-1)
  refine ⟨hlined, congrArg (List.map Prod.snd) hlisted, hfooters.trans (by decide +kernel), ?_⟩
  exact fun h => absurd (hshows.mp h) (by decide)

/-! ## Blocks of code -/

/-- A line that a block of code begins with. -/
def opens (line : String) : Bool := fence.toList.isPrefixOf line.toList

/-- The first block of code in a text: the lines behind the one that opens it, up to the first that closes
it. -/
def blockIn? (closes : String → Bool) (text : String) : Option String :=
  match (linesOf text).dropWhile fun line => !opens line with
  | [] => none
  | _ :: lines => some ("\n".intercalate (lines.takeWhile fun line => !closes line))

/-- What a reader takes for the end of a block: the fence at least, and no empty line. -/
structure Closes (closes : String → Bool) : Prop where
  fence : closes fence = true
  empty : closes "" = false

theorem linesOf_codeBlock {name key : String} (hname : OneLine name) (hkey : OneLine key)
    (kind : MemberKind) (code language : String) :
    linesOf (codeBlock name kind key code language) =
      ["**" ++ name ++ "** (" ++ kind.name ++ ") - `" ++ key ++ "`", "",
        fence ++ fenceWord language] ++ (linesOf code ++ [fence, ""]) := by
  have hkind : OneLine kind.name := by cases kind <;> decide
  have hwords : OneLine "**" ∧ OneLine "** (" ∧ OneLine ") - `" ∧ OneLine "`" ∧ OneLine "" ∧
      OneLine fence := by decide
  have hhead : OneLine ("**" ++ name ++ "** (" ++ kind.name ++ ") - `" ++ key ++ "`") := by
    simp only [oneLine_append, hwords, hname, hkind, hkey, and_self]
  have hopening : OneLine (fence ++ fenceWord language) := by
    rw [oneLine_append, fenceWord]
    split <;> decide
  rw [codeBlock, linesOf_ofLines]
  simp only [List.flatMap_cons, List.flatMap_nil, linesOf_of_oneLine hhead,
    linesOf_of_oneLine hopening, linesOf_of_oneLine hwords.2.2.2.2.1,
    linesOf_of_oneLine hwords.2.2.2.2.2, List.append_assoc, List.cons_append, List.nil_append]

theorem blockIn?_codeBlock {closes : String → Bool} (hcloses : Closes closes) {name key : String}
    (hname : OneLine name) (hkey : OneLine key) (kind : MemberKind) (code language : String) :
    blockIn? closes (codeBlock name kind key code language) =
      some ("\n".intercalate ((linesOf code).takeWhile fun line => !closes line)) := by
  have hopening : opens (fence ++ fenceWord language) = true := by
    simp [opens, List.isPrefixOf_iff_prefix]
  have hhead : opens ("**" ++ name ++ "** (" ++ kind.name ++ ") - `" ++ key ++ "`") = false := by
    simp [opens, fence, List.isPrefixOf]
  have hempty : opens "" = false := rfl
  have htake : (linesOf code ++ [fence, ""]).takeWhile (fun line => !closes line) =
      (linesOf code).takeWhile fun line => !closes line := by
    rw [List.takeWhile_append]
    split
    · next hall =>
      rw [(List.takeWhile_prefix _).eq_of_length hall]
      simp [hcloses.fence]
    · rfl
  simp only [blockIn?, linesOf_codeBlock hname hkey, List.cons_append, List.nil_append,
    List.dropWhile_cons, hhead, hempty, hopening, Bool.not_false, Bool.not_true, if_true,
    Bool.false_eq_true, if_false, htake]

/-- Lines that are joined are told apart again, unless there are none. -/
theorem linesOf_intercalate {lines : List String} (hne : lines ≠ [])
    (h : ∀ line ∈ lines, OneLine line) : linesOf ("\n".intercalate lines) = lines := by
  have hbreak : "\n".toList = ['\n'] := rfl
  rw [linesOf, Text.split, String.toList_intercalate, hbreak, Text.splitList_intercalate]
  · simp [Function.comp_def]
  · simpa using hne
  · rintro piece hpiece
    obtain ⟨line, hline, rfl⟩ := List.mem_map.mp hpiece
    exact h line hline

theorem oneLine_of_mem_linesOf {line : String} (h : line ∈ linesOf s) : OneLine line := by
  obtain ⟨piece, hpiece, rfl⟩ := List.mem_map.mp h
  rw [OneLine, String.toList_ofList]
  exact (Text.mem_splitList hpiece).1

/-- What is read back of a block of code is the code up to its first line that ends the block. This is
the code itself exactly if no line of it does. -/
theorem code_read_back_iff {closes : String → Bool} (hcloses : Closes closes) {name key : String}
    (hname : OneLine name) (hkey : OneLine key) (kind : MemberKind) (code language : String) :
    (blockIn? closes (codeBlock name kind key code language) = some code ↔
      ∀ line ∈ linesOf code, closes line = false) ∧
    blockIn? closes (codeBlock name kind key code language) =
      some ("\n".intercalate ((linesOf code).takeWhile fun line => !closes line)) := by
  have hblock := blockIn?_codeBlock hcloses hname hkey kind code language
  refine ⟨?_, hblock⟩
  rw [hblock, Option.some.injEq]
  constructor
  · intro hsame
    by_cases hnone : (linesOf code).takeWhile (fun line => !closes line) = []
    · -- without a first line the code is empty, and an empty line ends no block
      rw [hnone] at hsame
      obtain rfl : "" = code := hsame
      simpa [linesOf_of_oneLine (s := "") (by decide)] using hcloses.empty
    · have hlines := linesOf_intercalate hnone fun line hline =>
        oneLine_of_mem_linesOf ((List.takeWhile_subset _) hline)
      rw [hsame] at hlines
      simpa using List.takeWhile_eq_self_iff.mp hlines.symm
  · intro hnone
    rw [List.takeWhile_eq_self_iff.mpr (by simpa using hnone), intercalate_linesOf]

/-- A text with a fence on a line of its own, for a reader that takes nothing but a fence for the end. -/
theorem code_read_back_not_of_fence :
    Closes (· == fence) ∧
      blockIn? (· == fence) (codeBlock "M" .method "k" "a\n```\nb" "csharp") = some "a" ∧
      blockIn? (· == fence) (codeBlock "M" .method "k" "a\n```\nb" "csharp") ≠
        some "a\n```\nb" := by
  have hcloses : Closes (· == fence) := ⟨by decide, by decide⟩
  have hname : OneLine "M" ∧ OneLine "k" := by decide
  obtain ⟨hsame, hblock⟩ := code_read_back_iff hcloses hname.1 hname.2 .method "a\n```\nb" "csharp"
  refine ⟨hcloses, hblock.trans (by decide +kernel), fun h => ?_⟩
  exact absurd (hsame.mp h "```" (by decide)) (by decide)

end Format

end AssemblyBrowser
