import Mathlib.Data.List.Induction
import Mathlib.Data.List.TakeWhile
import AssemblyBrowser.Proofs.EnvFile
import AssemblyBrowser.Proofs.FileSystem.Walk
import AssemblyBrowser.Settings.Lookup
/-!
Files of settings that are written line by line, with every value in double quotes. Main statement: such
a file is read as the settings that have been written, whatever ends the lines and whatever blank lines,
comments and lines without a sign of equality stand between them.
-/
namespace AssemblyBrowser

namespace Text

/-! ## Lines that are laid out -/

/-- There is no line break in the text. -/
def OneLine (cs : List Char) : Prop := ∀ c ∈ cs, isLineBreak c = false

instance decidableOneLine (cs : List Char) : Decidable (OneLine cs) :=
  List.decidableBAll (fun c => isLineBreak c = false) cs

/-- What ends a line. -/
inductive EndsLine : List Char → Prop
  | char {c : Char} (h : isLineBreak c = true) : EndsLine [c]
  | returnFeed : EndsLine ['\r', '\n']

/-- The text consists of the lines, each with an end; the last may lack it. -/
inductive LaidOut : List (List Char) → List Char → Prop
  | nil : LaidOut [] []
  | last (line : List Char) : LaidOut [line] line
  | line (line : List Char) {ending rest : List Char} {lines : List (List Char)}
      (hending : EndsLine ending) (hrest : LaidOut lines rest) :
      LaidOut (line :: lines) (line ++ (ending ++ rest))

/-! ## Pieces of a line -/

theorem cutList?_eq_none {separator : Char} {cs : List Char} (h : separator ∉ cs) :
    cutList? separator cs = none := by
  induction cs with
  | nil => rfl
  | cons c cs ih =>
    obtain ⟨hc, hcs⟩ : separator ≠ c ∧ separator ∉ cs := by simpa using h
    rw [cutList?, if_neg (Ne.symm hc), ih hcs]
    rfl

theorem mem_of_mem_trimList {c : Char} {cs : List Char} (h : c ∈ trimList cs) : c ∈ cs := by
  have hback : c ∈ (cs.dropWhile isBlank).reverse :=
    (List.dropWhile_sublist isBlank).mem (List.mem_reverse.mp h)
  exact (List.dropWhile_sublist isBlank).mem (List.mem_reverse.mp hback)

theorem trimList_of_blank {cs : List Char} (h : ∀ c ∈ cs, isBlank c = true) : trimList cs = [] := by
  have hdropped : cs.dropWhile isBlank = [] := List.dropWhile_eq_nil_iff.mpr h
  rw [trimList, stripList, hdropped]
  rfl

variable {cs line rest : List Char} {more : List (List Char)}

theorem linesList_cons {c : Char} (h : isLineBreak c = false) (cs : List Char) :
    linesList (c :: cs) = match linesList cs with
      | [] => [[c]]
      | line :: more => (c :: line) :: more := by
  have hreturn : ∀ cs', c = '\r' → cs = '\n' :: cs' → False := by
    rintro cs' rfl -
    cases h
  rw [linesList.eq_3 _ _ hreturn, h]
  rfl

theorem linesList_break {c : Char} (h : isLineBreak c = true)
    (hpair : ¬(c = '\r' ∧ rest.head? = some '\n')) : linesList (c :: rest) = [] :: linesList rest := by
  have hreturn : ∀ cs', c = '\r' → rest = '\n' :: cs' → False := by
    rintro cs' rfl rfl
    exact hpair ⟨rfl, rfl⟩
  rw [linesList.eq_3 _ _ hreturn, h]
  rfl

/-- What stands in front of the first break belongs to the first line. -/
theorem linesList_append (h : OneLine cs) (hrest : linesList rest = line :: more) :
    linesList (cs ++ rest) = (cs ++ line) :: more := by
  induction cs with
  | nil => exact hrest
  | cons c cs ih =>
    obtain ⟨hc, hcs⟩ := List.forall_mem_cons.mp h
    rw [List.cons_append, linesList_cons hc, ih hcs]
    rfl

theorem linesList_of_oneLine (h : OneLine cs) (hne : cs ≠ []) : linesList cs = [cs] := by
  induction cs with
  | nil => exact absurd rfl hne
  | cons c cs ih =>
    obtain ⟨hc, hcs⟩ := List.forall_mem_cons.mp h
    rw [linesList_cons hc]
    cases cs with
    | nil => rfl
    | cons c' cs => rw [ih hcs (List.cons_ne_nil _ _)]

variable {β : Type} {f : List Char → Option β}

/-- Where the empty line counts for nothing, the end of a line is followed by what follows it. A return
that ends a line may make a pair with the feed that ends an empty line behind it. -/
theorem linesList_ending (hf : f [] = none) {ending : List Char} (h : EndsLine ending)
    (rest : List Char) : ∃ more, linesList (ending ++ rest) = [] :: more ∧
      more.filterMap f = (linesList rest).filterMap f := by
  cases h with
  | returnFeed => exact ⟨linesList rest, rfl, rfl⟩
  | @char c hbreak =>
    by_cases hpair : c = '\r' ∧ rest.head? = some '\n'
    · obtain ⟨rfl, hfeed⟩ := hpair
      obtain ⟨rest', rfl⟩ : ∃ rest', rest = '\n' :: rest' := by
        cases rest with
        | nil => cases hfeed
        | cons d rest' => exact ⟨rest', by rw [Option.some.inj hfeed]⟩
      have hempty : linesList ('\n' :: rest') = [] :: linesList rest' :=
        linesList_break (by decide) fun h => by simp at h
      refine ⟨linesList rest', rfl, ?_⟩
      rw [hempty, List.filterMap_cons_none hf]
    · exact ⟨linesList rest, linesList_break hbreak hpair, rfl⟩

/-- The lines that are laid out are those of the text, where the empty line counts for nothing. -/
theorem LaidOut.filterMap_lines (hf : f [] = none) {lines : List (List Char)} (h : LaidOut lines cs)
    (hlines : ∀ line ∈ lines, OneLine line) : (linesList cs).filterMap f = lines.filterMap f := by
  induction h with
  | nil => rfl
  | last line =>
    cases line with
    | nil =>
      rw [List.filterMap_cons_none hf]
      rfl
    | cons c cs =>
      rw [linesList_of_oneLine (hlines _ List.mem_cons_self) (List.cons_ne_nil _ _)]
  | @line line ending rest lines hending hrest ih =>
    obtain ⟨hline, hlines⟩ := List.forall_mem_cons.mp hlines
    obtain ⟨more, hmore, hsame⟩ := linesList_ending hf hending rest
    rw [linesList_append hline hmore, List.append_nil, List.filterMap_cons, List.filterMap_cons,
      hsame, ih hlines]

end Text

theorem OrderedMap.ofList_concat {κ α : Type} [DecidableEq κ] (es : List (κ × α)) (k : κ) (v : α) :
    ofList (es ++ [(k, v)]) = (ofList es).put k v := List.foldl_append

/-- What a map that is made of a list holds for a key is the last that the list has for it. -/
theorem OrderedMap.find?_ofList_iff {κ α : Type} [DecidableEq κ] {k : κ} {v : α}
    {es : List (κ × α)} : (ofList es).find? k = some v ↔
      ∃ before after, es = before ++ (k, v) :: after ∧ k ∉ Assoc.keys after := by
  constructor
  · intro h
    induction es using List.reverseRecOn with
    | nil => cases h
    | append_singleton es e ih =>
      obtain ⟨k', v'⟩ := e
      rw [ofList_concat, find?_put] at h
      split at h
      · rename_i hk
        cases h
        exact ⟨es, [], by rw [hk], List.not_mem_nil⟩
      · rename_i hk
        obtain ⟨before, after, rfl, hafter⟩ := ih h
        refine ⟨before, after ++ [(k', v')], by simp, ?_⟩
        simp only [Assoc.keys, List.map_append, List.mem_append, not_or]
        exact ⟨hafter, by simpa using hk⟩
  · rintro ⟨before, after, rfl, hafter⟩
    exact find?_ofList hafter

namespace EnvFile

/-! ## What is written on a line -/

/-- A blank line, a comment, or a line without a sign of equality. -/
def Idle (line : List Char) : Prop :=
  (∀ c ∈ line, Text.isBlank c = true) ∨ (Text.trimList line).head? = some '#' ∨ '=' ∉ line

instance decidableIdle (line : List Char) : Decidable (Idle line) :=
  @instDecidableOr _ _ (List.decidableBAll (fun c => Text.isBlank c = true) line) inferInstance

instance decidableIsKey (key : String) : Decidable (IsKey key) :=
  decidable_of_iff (Text.Bare Text.isBlank key.toList ∧ key.toList ≠ [] ∧
      key.toList.head? ≠ some '#' ∧ '=' ∉ key.toList)
    ⟨fun ⟨h₁, h₂, h₃, h₄⟩ => ⟨h₁, h₂, h₃, h₄⟩, fun ⟨h₁, h₂, h₃, h₄⟩ => ⟨h₁, h₂, h₃, h₄⟩⟩

/-- What is written on a line: a setting, or something that is none. -/
inductive Item
  | setting (key value : String)
  | idle (line : String)
deriving DecidableEq, Repr

namespace Item

/-- The line as it is written, with the value between double quotes. -/
def line : Item → List Char
  | .setting key value => key.toList ++ '=' :: '"' :: (value.toList ++ ['"'])
  | .idle line => line.toList

def setting? : Item → Option (String × String)
  | .setting key value => some (key, value)
  | .idle _ => none

/-- Everything stands on one line; a value may be any text. -/
def Proper : Item → Prop
  | .setting key value => IsKey key ∧ Text.OneLine key.toList ∧ Text.OneLine value.toList
  | .idle line => Idle line.toList ∧ Text.OneLine line.toList

instance decidableProper : (i : Item) → Decidable i.Proper
  | .setting key value =>
    inferInstanceAs (Decidable (IsKey key ∧ Text.OneLine key.toList ∧ Text.OneLine value.toList))
  | .idle line => inferInstanceAs (Decidable (Idle line.toList ∧ Text.OneLine line.toList))

theorem Proper.oneLine {i : Item} (h : i.Proper) : Text.OneLine i.line := by
  cases i with
  | idle line => exact h.2
  | setting key value =>
    obtain ⟨-, hkey, hvalue⟩ := h
    intro c hc
    simp only [line, List.mem_append, List.mem_cons, List.not_mem_nil, or_false] at hc
    rcases hc with hc | rfl | rfl | hc | rfl
    · exact hkey c hc
    · decide
    · decide
    · exact hvalue c hc
    · decide

end Item

theorem settingList?_idle {line : List Char} (h : Idle line) : settingList? line = none := by
  unfold settingList?
  dsimp only
  rcases h with hblank | hcomment | huncut
  · rw [Text.trimList_of_blank hblank]
    rfl
  · rw [if_pos hcomment]
  · have hnone : Text.cutList? '=' (Text.trimList line) = none :=
      Text.cutList?_eq_none fun h => huncut (Text.mem_of_mem_trimList h)
    rw [hnone]
    split <;> rfl

/-- A line says what has been written on it. -/
theorem settingList?_line {i : Item} (h : i.Proper) :
    settingList? i.line = i.setting?.map fun (key, value) => (key.toList, value.toList) := by
  cases i with
  | idle line => exact settingList?_idle h.1
  | setting key value =>
    have hquoted : Text.Bare Text.isBlank ("\"" ++ value ++ "\"").toList := by
      have hlist : ("\"" ++ value ++ "\"").toList = '"' :: (value.toList ++ ['"']) := by
        simp [String.toList_append]
      rw [hlist]
      constructor
      · intro c hc
        cases hc
        rfl
      · intro c hc
        rw [← List.cons_append, List.getLast?_concat] at hc
        cases hc
        rfl
    have hassign : settingList? (key.toList ++ '=' :: '"' :: (value.toList ++ ['"'])) =
        some (key.toList, unquoteList ('"' :: (value.toList ++ ['"']))) := by
      simpa [String.toList_append] using settingList?_assign h.1 hquoted
    rw [unquoteList_quoted (.inl rfl)] at hassign
    exact hassign

/-- The settings in a text that is laid out are those that have been written. -/
theorem settings_of_laidOut {items : List Item} {cs : List Char} (hproper : ∀ i ∈ items, i.Proper)
    (hlaid : Text.LaidOut (items.map Item.line) cs) : settings cs = items.filterMap Item.setting? := by
  have hone : ∀ line ∈ items.map Item.line, Text.OneLine line := by
    intro line hline
    obtain ⟨i, hi, rfl⟩ := List.mem_map.mp hline
    exact (hproper i hi).oneLine
  have hlines : (items.map Item.line).filterMap settingList? = items.filterMap fun i =>
      i.setting?.map fun (key, value) => (key.toList, value.toList) := by
    rw [List.filterMap_map]
    exact List.filterMap_congr fun i hi => settingList?_line (hproper i hi)
  rw [settings, hlaid.filterMap_lines rfl hone, hlines, List.map_filterMap]
  exact List.filterMap_congr fun i _ => by cases i <;> simp [Item.setting?]

/-- A file in which settings are written line by line, each value between double quotes, and among them
blank lines, comments and lines without a sign of equality, is read as the map of these settings: a key
has the value that has been written last for it. -/
theorem read_as_written {items : List Item} (hproper : ∀ i ∈ items, i.Proper) {text : String}
    (hlaid : Text.LaidOut (items.map Item.line) text.toList) {m : Machine} {p : Path} {data : FileData}
    (hdata : m.fileAt p = .ok data) (htext : Settings.decodeUtf8? data.bytes = some text) :
    ∃ values, Settings.valuesIn m p = .ok values ∧
      values = .ofList (items.filterMap Item.setting?) ∧
      ∀ key value, values.find? key = some value ↔ ∃ before after,
        items.filterMap Item.setting? = before ++ (key, value) :: after ∧ key ∉ Assoc.keys after := by
  refine ⟨parse text, ?_, ?_, ?_⟩
  · simp only [Settings.valuesIn, hdata, htext]
  · rw [parse, settings_of_laidOut hproper hlaid]
  · intro key value
    rw [parse, settings_of_laidOut hproper hlaid]
    exact OrderedMap.find?_ofList_iff

/-- A key that is written twice, among lines that say nothing and with three ways to end a line. -/
def sampleItems : List Item :=
  [.idle "# names", .setting "A" " b=c ", .idle " \x1f", .idle "A", .setting "A" "\"#'", .idle ""]

def sampleText : String := "# names\nA=\" b=c \"\r\n \x1f\rA\nA=\"\"#'\"\n"

/-- A machine whose one file holds the text. -/
def sampleMachine : Machine := .inRoot [(".env", .file (.ofBytes sampleText.toUTF8.toList) 0o644)]

theorem sampleText_laidOut :
    Text.LaidOut (sampleItems.map Item.line) sampleText.toList :=
  .line _ (.char (by decide)) <| .line _ .returnFeed <| .line _ (.char (by decide)) <|
    .line _ (.char (by decide)) <| .line _ (.char (by decide)) <| .last _

theorem sampleItems_proper : ∀ i ∈ sampleItems, i.Proper := by decide

theorem read_as_written_sample :
    ∃ values, Settings.valuesIn sampleMachine (.ofString "/.env") = .ok values ∧
      values = .ofList [("A", " b=c "), ("A", "\"#'")] ∧
      ∀ key value, values.find? key = some value ↔ ∃ before after,
        [("A", " b=c "), ("A", "\"#'")] = before ++ (key, value) :: after ∧
          key ∉ Assoc.keys after :=
  have hdata : sampleMachine.fileAt (.ofString "/.env") = .ok (.ofBytes sampleText.toUTF8.toList) := by
    decide +kernel
  read_as_written sampleItems_proper sampleText_laidOut hdata (by decide +kernel)

end EnvFile

end AssemblyBrowser
