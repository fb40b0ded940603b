import AssemblyBrowser.Json.Parser
import AssemblyBrowser.Text.Blank
import Mathlib.Data.List.TakeWhile
/-!
Integers that are too long to be read. They are the one reason not to read a text that is no fault of
its grammar. Main statements: a text is refused for that reason only if the integer has more than 4300
digits, and each text of more than 4300 digits, the first of which is not zero, is refused for it.
-/
namespace AssemblyBrowser.Json

namespace Parser

variable {α β : Type} {cs : List Char} {n : Nat}

theorem error_of_map {x : Except ParseError α} {f : α → β} {e : ParseError}
    (h : x.map f = .error e) : x = .error e := by
  cases x with
  | error e' => exact congrArg Except.error (Except.error.inj h)
  | ok v => cases h

theorem units_ne_huge (cs : List Char) : units cs ≠ .error (.hugeInteger n) := by
  fun_induction units cs <;> simp_all

theorem string_ne_huge (cs : List Char) : string cs ≠ .error (.hugeInteger n) := fun h =>
  units_ne_huge cs (error_of_map h)

theorem number_huge (h : number cs = .error (.hugeInteger n)) : longestInteger < n := by
  unfold number at h
  dsimp only at h
  split at h
  · cases h
  · split at h
    · cases h
    · split at h
      · cases h
      · split at h
        · rename_i hlong
          cases h
          exact hlong
        · cases h

/-- With so much fuel only an integer that is too long is refused as such. -/
structure Honest (fuel : Nat) : Prop where
  value : ∀ {cs n}, value fuel cs = .error (.hugeInteger n) → longestInteger < n
  elements : ∀ {cs n}, elements fuel cs = .error (.hugeInteger n) → longestInteger < n
  members : ∀ {fields cs n}, members fuel fields cs = .error (.hugeInteger n) → longestInteger < n

section

variable {fuel : Nat} (h : Honest fuel)
include h

theorem value_huge (hv : value (fuel + 1) cs = .error (.hugeInteger n)) : longestInteger < n := by
  cases cs with
  | nil => simp [value] at hv
  | cons c rest =>
    simp only [value] at hv
    split at hv
    · exact absurd (error_of_map hv) (string_ne_huge rest)
    · split at hv
      · split at hv
        · cases hv
        · split at hv
          · cases hv
          · exact h.elements (error_of_map hv)
      · split at hv
        · split at hv
          · cases hv
          · split at hv
            · cases hv
            · exact h.members (error_of_map hv)
        · split at hv
          · cases hv
          · exact number_huge (error_of_map hv)

theorem elements_huge (he : elements (fuel + 1) cs = .error (.hugeInteger n)) :
    longestInteger < n := by
  simp only [elements] at he
  split at he
  · rename_i hvalue
    cases he
    exact h.value hvalue
  · split at he
    · cases he
    · split at he
      · cases he
      · split at he
        · exact h.elements (error_of_map he)
        · cases he

theorem members_huge {fields : List (String × Json)}
    (hm : members (fuel + 1) fields cs = .error (.hugeInteger n)) : longestInteger < n := by
  cases cs with
  | nil => simp [members] at hm
  | cons c rest =>
    simp only [members] at hm
    split at hm
    · cases hm
    · split at hm
      · rename_i hstring
        cases hm
        exact absurd hstring (string_ne_huge rest)
      · split at hm
        · cases hm
        · split at hm
          · cases hm
          · split at hm
            · rename_i hvalue
              cases hm
              exact h.value hvalue
            · split at hm
              · cases hm
              · split at hm
                · cases hm
                · split at hm
                  · exact h.members hm
                  · cases hm

end

theorem honest (fuel : Nat) : Honest fuel := by
  induction fuel with
  | zero =>
    refine ⟨fun h => ?_, fun h => ?_, fun h => ?_⟩
    · simp [value] at h
    · simp [elements] at h
    · simp [members] at h
  | succ fuel ih => exact ⟨value_huge ih, elements_huge ih, members_huge ih⟩

/-! ## Digits -/

theorem ne_of_isDigit {c x : Char} (hc : c.isDigit = true) (hx : x.isDigit = false) : c ≠ x := by
  rintro rfl
  rw [hc] at hx
  cases hx

/-- No word begins with a digit. -/
theorem word?_of_isDigit {c : Char} (hc : c.isDigit = true) (cs : List Char) :
    word? (c :: cs) = none := by
  have hne : ∀ x : Char, x.isDigit = false → x ≠ c := fun x hx => (ne_of_isDigit hc hx).symm
  simp [word?, words, hne 'n' rfl, hne 't' rfl, hne 'f' rfl, hne 'N' rfl, hne 'I' rfl, hne '-' rfl]

section

variable {c : Char} (hc : c.isDigit = true) (hzero : c ≠ '0') (hcs : ∀ d ∈ cs, d.isDigit = true)
  (hlong : longestInteger < (c :: cs).length)
include hc hzero hcs hlong

theorem number_digits : number (c :: cs) = .error (.hugeInteger (c :: cs).length) := by
  have hminus : c ≠ '-' := ne_of_isDigit hc rfl
  have hdigits : integerDigits? (c :: cs) = some (c :: cs, []) := by
    simp only [integerDigits?, if_neg hzero, hc, if_true, List.takeWhile_eq_self_iff.mpr hcs,
      List.dropWhile_eq_nil_iff.mpr hcs]
  unfold number
  split
  rename_i negative rest heq
  split at heq
  · rename_i hsign
    exact absurd (List.cons.inj hsign).1 hminus
  · cases heq
    simp only [hdigits, fraction, exponent?, List.isEmpty_nil, Bool.not_true, Bool.false_eq_true,
      if_false, if_pos hlong]

theorem value_digits (fuel : Nat) :
    value (fuel + 1) (c :: cs) = .error (.hugeInteger (c :: cs).length) := by
  have hne : ∀ x : Char, x.isDigit = false → c ≠ x := fun x hx => ne_of_isDigit hc hx
  simp only [value, if_neg (hne '"' rfl), if_neg (hne '[' rfl), if_neg (hne '{' rfl),
    word?_of_isDigit hc cs, number_digits hc hzero hcs hlong, Except.map]

theorem document_digits : document (c :: cs) = .error (.hugeInteger (c :: cs).length) := by
  have hmark : c ≠ '\uFEFF' := ne_of_isDigit hc (by decide)
  have hspace : isSpace c = false := by
    simp [isSpace, ne_of_isDigit (x := ' ') hc rfl, ne_of_isDigit (x := '\t') hc rfl,
      ne_of_isDigit (x := '\n') hc rfl, ne_of_isDigit (x := '\r') hc rfl]
  simp only [document, List.head?_cons, Option.some.injEq, if_neg hmark, skipSpace,
    List.dropWhile_cons, hspace, Bool.false_eq_true, if_false,
    value_digits hc hzero hcs hlong (2 * (c :: cs).length + 1)]

end

end Parser

/-- Only an integer of more than 4300 digits is too long. -/
theorem longestInteger_lt_of_parse {s : String} {n : Nat}
    (h : parse s = .error (.hugeInteger n)) : longestInteger < n := by
  unfold parse Parser.document at h
  split at h
  · cases h
  · split at h
    · rename_i e he
      cases h
      exact (Parser.honest _).value he
    · split at h <;> cases h

/-- So many digits and nothing else are an integer that is too long. -/
theorem parse_digits {c : Char} {cs : List Char} (hc : c.isDigit = true) (hzero : c ≠ '0')
    (hcs : ∀ d ∈ cs, d.isDigit = true) (hlong : longestInteger < (c :: cs).length) :
    parse (String.ofList (c :: cs)) = .error (.hugeInteger (c :: cs).length) := by
  rw [parse, String.toList_ofList]
  exact Parser.document_digits hc hzero hcs hlong

end AssemblyBrowser.Json

namespace AssemblyBrowser.Text

theorem isBlank_of_isDigit {c : Char} (hc : c.isDigit = true) : isBlank c = false := by
  have hrange : 48 ≤ c.toNat ∧ c.toNat ≤ 57 := by
    simpa [Char.isDigit, UInt32.le_iff_toNat_le] using hc
  simp only [isBlank, Bool.or_eq_false_iff, Bool.and_eq_false_iff, decide_eq_false_iff_not,
    beq_eq_false_iff_ne]
  omega

/-- Nothing is taken away from digits. -/
theorem trim_digits {cs : List Char} (hcs : ∀ d ∈ cs, d.isDigit = true) :
    trim (String.ofList cs) = String.ofList cs := by
  have hkeep : ∀ ds : List Char, (∀ d ∈ ds, d.isDigit = true) → ds.dropWhile isBlank = ds := by
    intro ds hds
    cases ds with
    | nil => rfl
    | cons d ds =>
      rw [List.dropWhile_cons, isBlank_of_isDigit (hds d List.mem_cons_self)]
      rfl
  rw [trim, String.toList_ofList, trimList, stripList, hkeep cs hcs,
    hkeep cs.reverse fun d hd => hcs d (List.mem_reverse.mp hd), List.reverse_reverse]

end AssemblyBrowser.Text
