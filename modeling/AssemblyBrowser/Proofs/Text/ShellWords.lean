import AssemblyBrowser.Text.ShellWords
/-!
Which lines are split into which words. `Renders` says how words may be written, character by character,
quoted or escaped, without the reader. Main statement: the words of a line are those that it renders, and
a line that renders none is refused.
-/
namespace AssemblyBrowser.Text.ShellWords

/-! ## How words are written -/

/-- The inside of double quotes, and the text that it stands for. A backslash is dropped before a double
quote and before a backslash, and kept before anything else. -/
inductive Quotes : List Char → List Char → Prop
  | nil : Quotes [] []
  | plain {c : Char} {cs text : List Char} (hquote : c ≠ '"') (hslash : c ≠ '\\')
      (h : Quotes cs text) : Quotes (c :: cs) (c :: text)
  | escaped {c : Char} {cs text : List Char} (hc : c = '"' ∨ c = '\\') (h : Quotes cs text) :
      Quotes ('\\' :: c :: cs) (c :: text)
  | slash {c : Char} {cs text : List Char} (hc : ¬(c = '"' ∨ c = '\\')) (h : Quotes cs text) :
      Quotes ('\\' :: c :: cs) ('\\' :: c :: text)

/-- A character that stands for itself outside quotes. -/
def IsPlain (c : Char) : Prop := isSeparator c = false ∧ c ≠ '\'' ∧ c ≠ '"' ∧ c ≠ '\\'

/-- A piece of a line, and the part of a word that it stands for. -/
inductive Piece : List Char → List Char → Prop
  | plain {c : Char} (hc : IsPlain c) : Piece [c] [c]
  | escaped (c : Char) : Piece ['\\', c] [c]
  | single {text : List Char} (h : '\'' ∉ text) : Piece ('\'' :: (text ++ ['\''])) text
  | double {cs text : List Char} (h : Quotes cs text) : Piece ('"' :: (cs ++ ['"'])) text

/-- Pieces side by side, and the parts that they stand for, joined. -/
inductive Pieces : List Char → List Char → Prop
  | nil : Pieces [] []
  | cons {cs more text texts : List Char} (hpiece : Piece cs text) (h : Pieces more texts) :
      Pieces (cs ++ more) (text ++ texts)

/-- A line, and the words that it stands for: each word is written in pieces, and separators stand
between the words and perhaps around them. -/
inductive Renders : List Char → List (List Char) → Prop
  | nil : Renders [] []
  | separator {c : Char} {cs : List Char} {words : List (List Char)} (hc : isSeparator c = true)
      (h : Renders cs words) : Renders (c :: cs) words
  | last {cs word : List Char} (hword : Pieces cs word) (hne : cs ≠ []) : Renders cs [word]
  | word {cs word rest : List Char} {c : Char} {words : List (List Char)} (hword : Pieces cs word)
      (hne : cs ≠ []) (hc : isSeparator c = true) (h : Renders rest words) :
      Renders (cs ++ c :: rest) (word :: words)

/-! ## What is rendered is read -/

variable {c : Char} {cs text rest done : List Char} {words : List (List Char)}

theorem read_single (h : '\'' ∉ text) :
    read (.single done) (text ++ '\'' :: rest) = read (.word (text.reverse ++ done)) rest := by
  induction text generalizing done with
  | nil => simp [read]
  | cons c text ih =>
    obtain ⟨hc, htext⟩ : '\'' ≠ c ∧ '\'' ∉ text := by simpa using h
    simp only [List.cons_append, read, if_neg hc.symm, ih htext, List.reverse_cons,
      List.append_assoc, List.nil_append]

theorem read_double (h : Quotes cs text) :
    read (.double done) (cs ++ '"' :: rest) = read (.word (text.reverse ++ done)) rest := by
  induction h generalizing done with
  | nil => simp [read]
  | plain hquote hslash _ ih =>
    simp only [List.cons_append, read, if_neg hquote, if_neg hslash, ih, List.reverse_cons,
      List.append_assoc, List.nil_append]
  | @escaped c _ _ hc _ ih =>
    have hspecial : (decide (c = '"') || decide (c = '\\')) = true := by simpa using hc
    simp only [List.cons_append, read, Char.reduceEq, if_false, if_true, if_pos hspecial, ih,
      List.reverse_cons, List.append_assoc, List.nil_append]
  | @slash c _ _ hc _ ih =>
    have hspecial : ¬(decide (c = '"') || decide (c = '\\')) = true := by simpa using hc
    simp only [List.cons_append, read, Char.reduceEq, if_false, if_true, if_neg hspecial, ih,
      List.reverse_cons, List.append_assoc, List.nil_append]

/-- A piece begins with a character that goes on with a word. -/
theorem Piece.head (h : Piece cs text) : ∃ c more, cs = c :: more ∧ isSeparator c = false := by
  cases h with
  | plain hc => exact ⟨_, [], rfl, hc.1⟩
  | escaped => exact ⟨_, _, rfl, rfl⟩
  | single => exact ⟨_, _, rfl, rfl⟩
  | double => exact ⟨_, _, rfl, rfl⟩

theorem read_word (hc : isSeparator c = false) :
    read (.word done) (c :: rest) = read (.plain done c) rest := by
  rw [read, hc]
  rfl

/-- Between words, a word begins like one that has been begun with nothing. -/
theorem read_between (hc : isSeparator c = false) :
    read .between (c :: rest) = read (.word []) (c :: rest) := by
  rw [read_word hc, read, hc]
  rfl

theorem read_piece (h : Piece cs text) :
    read (.word done) (cs ++ rest) = read (.word (text.reverse ++ done)) rest := by
  cases h with
  | plain hc =>
    obtain ⟨hseparator, hsingle, hdouble, hslash⟩ := hc
    simp [read_word hseparator, Mode.plain, hsingle, hdouble, hslash]
  | escaped c => simp [read_word (c := '\\') rfl, Mode.plain, read]
  | single h =>
    have hinside : read (.single done) (text ++ '\'' :: rest) =
        read (.word (text.reverse ++ done)) rest := read_single h
    simpa [read_word (c := '\'') rfl, Mode.plain] using hinside
  | double h =>
    have hinside : read (.double done) (_ ++ '"' :: rest) =
        read (.word (text.reverse ++ done)) rest := read_double h
    simpa [read_word (c := '"') rfl, Mode.plain] using hinside

theorem read_pieces (h : Pieces cs text) :
    read (.word done) (cs ++ rest) = read (.word (text.reverse ++ done)) rest := by
  induction h generalizing done with
  | nil => rfl
  | cons hpiece _ ih =>
    rw [List.append_assoc, read_piece hpiece, ih, List.reverse_append, List.append_assoc]

/-- A word that has been written in pieces is read from its beginning. -/
theorem read_between_pieces (h : Pieces cs text) (hne : cs ≠ []) :
    read .between (cs ++ rest) = read (.word text.reverse) rest := by
  have hword : read (.word []) (cs ++ rest) = read (.word (text.reverse ++ [])) rest := read_pieces h
  rw [List.append_nil] at hword
  rw [← hword]
  cases h with
  | nil => exact absurd rfl hne
  | cons hpiece _ =>
    obtain ⟨c, more, rfl, hc⟩ := hpiece.head
    exact read_between hc

theorem read_renders (h : Renders cs words) : read .between cs = .ok words := by
  induction h with
  | nil => rfl
  | separator hc _ ih => rw [read, if_pos hc, ih]
  | @last cs word hword hne =>
    have hread : read .between (cs ++ []) = read (.word word.reverse) [] :=
      read_between_pieces hword hne
    rw [List.append_nil] at hread
    rw [hread, read, finish, List.reverse_reverse]
  | word hword hne hc _ ih =>
    rw [read_between_pieces hword hne, read, if_pos hc, ih, Except.map, List.reverse_reverse]

/-! ## What is read is rendered -/

/-- What stands behind the beginning of a word, held backwards: its further pieces, and nothing or a
separator and what renders the other words. -/
def Continues (done cs : List Char) (words : List (List Char)) : Prop :=
  ∃ pieces text, Pieces pieces text ∧
    (cs = pieces ∧ words = [done.reverse ++ text] ∨
      ∃ c rest more, isSeparator c = true ∧ cs = pieces ++ c :: rest ∧ Renders rest more ∧
        words = (done.reverse ++ text) :: more)

/-- What the rest of a line is, where the reader stands. -/
def Leads (m : Mode) (cs : List Char) (words : List (List Char)) : Prop :=
  match m with
  | .between => Renders cs words
  | .word done => Continues done cs words
  | .escape done => ∃ c rest, cs = c :: rest ∧ Continues (c :: done) rest words
  | .single done => ∃ text rest, '\'' ∉ text ∧ cs = text ++ '\'' :: rest ∧
      Continues (text.reverse ++ done) rest words
  | .double done => ∃ inside text rest, Quotes inside text ∧ cs = inside ++ '"' :: rest ∧
      Continues (text.reverse ++ done) rest words
  | .doubleEscape done => ∃ c inside text rest, Quotes ('\\' :: c :: inside) text ∧
      cs = c :: (inside ++ '"' :: rest) ∧ Continues (text.reverse ++ done) rest words

theorem Continues.piece (hpiece : Piece cs text) (h : Continues (text.reverse ++ done) rest words) :
    Continues done (cs ++ rest) words := by
  obtain ⟨pieces, more, hpieces, hend⟩ := h
  refine ⟨cs ++ pieces, text ++ more, .cons hpiece hpieces, ?_⟩
  rcases hend with ⟨rfl, rfl⟩ | ⟨c, behind, others, hc, rfl, hothers, rfl⟩
  · exact .inl ⟨rfl, by simp⟩
  · exact .inr ⟨c, behind, others, hc, by simp, hothers, by simp⟩

/-- What a character outside quotes begins is a piece of the word. -/
theorem Leads.continues (hc : isSeparator c = false) (h : Leads (.plain done c) rest words) :
    Continues done (c :: rest) words := by
  unfold Mode.plain at h
  split at h
  · next heq =>
    obtain ⟨text, behind, htext, rfl, hend⟩ := h
    have hpiece := hend.piece (.single htext)
    simpa [heq] using hpiece
  split at h
  · next heq =>
    obtain ⟨inside, text, behind, hinside, rfl, hend⟩ := h
    have hpiece := hend.piece (.double hinside)
    simpa [heq] using hpiece
  split at h
  · next heq =>
    obtain ⟨c, behind, rfl, hend⟩ := h
    have hpiece := Continues.piece (.escaped c) hend
    simpa [heq] using hpiece
  · next hsingle hdouble hslash =>
    exact Continues.piece (.plain ⟨hc, hsingle, hdouble, hslash⟩) h

theorem Continues.renders (h : Continues [] (c :: cs) words) (hc : isSeparator c = false) :
    Renders (c :: cs) words := by
  obtain ⟨pieces, text, hpieces, ⟨rfl, rfl⟩ | ⟨d, rest, more, hd, heq, hmore, rfl⟩⟩ := h
  · exact .last hpieces (List.cons_ne_nil c cs)
  · have hne : pieces ≠ [] := by
      rintro rfl
      obtain ⟨rfl, -⟩ := List.cons.inj heq
      rw [hc] at hd
      cases hd
    rw [heq]
    exact .word hpieces hne hd hmore

/-- By induction on the line: each character leads from where the reader stands to where it stands next. -/
theorem leads_of_read {m : Mode} (h : read m cs = .ok words) : Leads m cs words := by
  induction cs generalizing m words with
  | nil =>
    cases m with
    | between =>
      obtain rfl : [] = words := Except.ok.inj h
      exact .nil
    | word done =>
      obtain rfl : [done.reverse] = words := Except.ok.inj h
      exact ⟨[], [], .nil, .inl ⟨rfl, by simp⟩⟩
    | escape | single | double | doubleEscape => cases h
  | cons c rest ih =>
    cases m with
    | between =>
      rw [read] at h
      split at h
      · next hc => exact .separator hc (ih h)
      · next hc =>
        have hc : isSeparator c = false := by simpa using hc
        exact ((ih h).continues hc).renders hc
    | word done =>
      rw [read] at h
      split at h
      · next hc =>
        cases hrest : read .between rest with
        | error e =>
          rw [hrest] at h
          cases h
        | ok more =>
          rw [hrest] at h
          obtain rfl : done.reverse :: more = words := Except.ok.inj h
          exact ⟨[], [], .nil, .inr ⟨c, rest, more, hc, rfl, ih hrest, by simp⟩⟩
      · next hc => exact (ih h).continues (by simpa using hc)
    | escape done => exact ⟨c, rest, rfl, ih h⟩
    | single done =>
      rw [read] at h
      split at h
      · next heq => exact ⟨[], rest, by simp, by rw [heq]; rfl, ih h⟩
      · next hne =>
        obtain ⟨text, behind, htext, rfl, hend⟩ := ih h
        exact ⟨c :: text, behind, by simp [htext, Ne.symm hne], rfl, by simpa using hend⟩
    | double done =>
      rw [read] at h
      split at h
      · next heq => exact ⟨[], [], rest, .nil, by rw [heq]; rfl, ih h⟩
      split at h
      · next heq =>
        obtain ⟨d, inside, text, behind, hinside, rfl, hend⟩ := ih h
        exact ⟨'\\' :: d :: inside, text, behind, hinside, by rw [heq]; rfl, hend⟩
      · next hquote hslash =>
        obtain ⟨inside, text, behind, hinside, rfl, hend⟩ := ih h
        exact ⟨c :: inside, c :: text, behind, .plain hquote hslash hinside, rfl,
          by simpa using hend⟩
    | doubleEscape done =>
      rw [read] at h
      split at h
      · next hc =>
        obtain ⟨inside, text, behind, hinside, rfl, hend⟩ := ih h
        exact ⟨c, inside, c :: text, behind, .escaped (by simpa using hc) hinside, rfl,
          by simpa using hend⟩
      · next hc =>
        obtain ⟨inside, text, behind, hinside, rfl, hend⟩ := ih h
        exact ⟨c, inside, '\\' :: c :: text, behind, .slash (by simpa using hc) hinside, rfl,
          by simpa using hend⟩

theorem read_eq_ok_iff : read .between cs = .ok words ↔ Renders cs words :=
  ⟨leads_of_read, read_renders⟩

end ShellWords

/-- The line stands for the words. -/
def Renders (line : String) (words : List String) : Prop :=
  ShellWords.Renders line.toList (words.map String.toList)

/-- A line is split into the words that it renders. -/
theorem shellWords_eq_ok_iff {line : String} {words : List String} :
    shellWords line = .ok words ↔ Renders line words := by
  rw [Renders, ← ShellWords.read_eq_ok_iff, shellWords]
  cases ShellWords.read .between line.toList with
  | error e => simp [Except.map]
  | ok found =>
    simp only [Except.map, Except.ok.injEq]
    constructor
    · rintro rfl
      simp [Function.comp_def]
    · rintro rfl
      simp [Function.comp_def]

end AssemblyBrowser.Text
