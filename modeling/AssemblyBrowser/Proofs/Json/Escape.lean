import AssemblyBrowser.Json.Parser
import AssemblyBrowser.Json.Printer
/-!
Texts in JSON. What the printer puts between quotes is printable ASCII, and the reader finds the same
characters in it: code units are written and read one for one, and no character is half of a surrogate
pair, so the pairs that are joined are those that were split. Main statements: `string_string` and
`string_ascii`.
-/
namespace AssemblyBrowser.Json

/-- The printable characters of ASCII. -/
def IsAscii (c : Char) : Prop := 0x20 ≤ c.toNat ∧ c.toNat ≤ 0x7E

instance (c : Char) : Decidable (IsAscii c) := inferInstanceAs (Decidable (_ ∧ _))

theorem isAscii_of_isDigit {c : Char} (h : c.isDigit = true) : IsAscii c := by
  have hrange : 48 ≤ c.toNat ∧ c.toNat ≤ 57 := by
    simpa [Char.isDigit, UInt32.le_iff_toNat_le] using h
  exact ⟨by omega, by omega⟩

/-! ## Hexadecimal digits -/

theorem hexValue?_hexDigit : ∀ n < 16, Parser.hexValue? (Text.hexDigit n) = some n := by decide

theorem isAscii_hexDigit : ∀ n < 16, IsAscii (Text.hexDigit n) := by decide

theorem hexDigits_four (u : Nat) : Text.hexDigits 4 u =
    [Text.hexDigit (u / 16 / 16 / 16 % 16), Text.hexDigit (u / 16 / 16 % 16),
      Text.hexDigit (u / 16 % 16), Text.hexDigit (u % 16)] := rfl

theorem isAscii_hexDigits (width n : Nat) : ∀ c ∈ Text.hexDigits width n, IsAscii c := by
  induction width generalizing n with
  | zero => simp [Text.hexDigits]
  | succ width ih =>
    intro c hc
    rcases List.mem_append.mp hc with hc | hc
    · exact ih _ c hc
    · rw [List.mem_singleton.mp hc]
      exact isAscii_hexDigit _ (Nat.mod_lt n (by decide))

theorem unit?_hexDigits {u : Nat} (h : u < 0x10000) :
    Parser.unit? (Text.hexDigit (u / 16 / 16 / 16 % 16)) (Text.hexDigit (u / 16 / 16 % 16))
      (Text.hexDigit (u / 16 % 16)) (Text.hexDigit (u % 16)) = some u := by
  have hdigit (n : Nat) := hexValue?_hexDigit (n % 16) (Nat.mod_lt n (by decide))
  simp only [Parser.unit?, hdigit, Option.bind_eq_bind, Option.bind_some, Option.some.injEq]
  omega

/-! ## Characters -/

theorem not_surrogate (c : Char) : c.toNat < 0xD800 ∨ 0xDFFF < c.toNat ∧ c.toNat < 0x110000 :=
  c.valid

/-- The code units of a character: one, or a surrogate pair beyond the basic plane. -/
def charUnits (c : Char) : List Nat :=
  if c.toNat < 0x10000 then [c.toNat]
  else [0xD800 + (c.toNat - 0x10000) / 0x400, 0xDC00 + (c.toNat - 0x10000) % 0x400]

theorem charUnits_basic {c : Char} (h : c.toNat < 0x10000) : charUnits c = [c.toNat] := if_pos h

/-- How a character is written inside a text. -/
inductive Written (c : Char) : List Char → Prop
  | short {e : Char} (he : Parser.escape? e = some c) (hu : e ≠ 'u') (hascii : IsAscii e)
      (hbasic : c.toNat < 0x10000) : Written c ['\\', e]
  | asIs (hquote : c ≠ '"') (hslash : c ≠ '\\') (hascii : IsAscii c) : Written c [c]
  | unit (hbasic : c.toNat < 0x10000) : Written c (Printer.unitEscape c.toNat)
  | pair (hbeyond : ¬c.toNat < 0x10000) :
      Written c (Printer.unitEscape (0xD800 + (c.toNat - 0x10000) / 0x400) ++
        Printer.unitEscape (0xDC00 + (c.toNat - 0x10000) % 0x400))

theorem Written.of_escape {e c : Char} (he : Parser.escape? e = some c) (hu : e ≠ 'u')
    (hascii : IsAscii e) (hbasic : c.toNat < 0x10000) {d : Char} (h : d = c) :
    Written d ['\\', e] :=
  h ▸ .short he hu hascii hbasic

theorem written_stringChar (c : Char) : Written c (Printer.stringChar c) := by
  unfold Printer.stringChar
  iterate 7
    split
    · next hc => exact .of_escape rfl (by decide) (by decide) (by decide) hc
  next hquote hslash _ _ _ _ _ =>
  split
  · next hplain =>
    have hascii : IsAscii c := by
      simpa [IsAscii, Char.le_def, UInt32.le_iff_toNat_le] using hplain
    exact .asIs hquote hslash hascii
  split
  · next hbasic => exact .unit hbasic
  · next hbeyond => exact .pair hbeyond

namespace Printer

theorem unitEscape_ascii (u : Nat) : ∀ c ∈ unitEscape u, IsAscii c := by
  intro c hc
  rcases List.mem_cons.mp hc with rfl | hc
  · decide
  · rcases List.mem_cons.mp hc with rfl | hc
    · decide
    · exact isAscii_hexDigits 4 u c hc

end Printer

theorem Written.ascii {c : Char} {cs : List Char} (h : Written c cs) : ∀ d ∈ cs, IsAscii d := by
  intro d hd
  cases h with
  | short he hu hascii =>
    simp only [List.mem_cons, List.not_mem_nil, or_false] at hd
    rcases hd with rfl | rfl
    · decide
    · exact hascii
  | asIs hquote hslash hascii => exact List.mem_singleton.mp hd ▸ hascii
  | unit => exact Printer.unitEscape_ascii _ d hd
  | pair =>
    exact (List.mem_append.mp hd).elim (Printer.unitEscape_ascii _ d) (Printer.unitEscape_ascii _ d)

/-- A printed text is printable ASCII, whatever its characters are. -/
theorem Printer.string_ascii (s : String) : ∀ c ∈ string s, IsAscii c := by
  intro c hc
  simp only [string, List.cons_append, List.mem_cons, List.mem_append, List.mem_flatMap,
    List.not_mem_nil, or_false] at hc
  rcases hc with rfl | ⟨d, -, hd⟩ | rfl
  · decide
  · exact (written_stringChar d).ascii c hd
  · decide

namespace Parser

variable {c : Char} {us : List Nat} {rest left : List Char}

theorem units_unitEscape {u : Nat} (hu : u < 0x10000) {next : Char}
    (h : units (next :: rest) = .ok (us, left)) :
    units (Printer.unitEscape u ++ next :: rest) = .ok (u :: us, left) := by
  simp only [Printer.unitEscape, hexDigits_four, List.cons_append, List.nil_append]
  rw [units.eq_def]
  simp only [unit?_hexDigits hu, h, Char.reduceEq, if_true, if_false]

theorem units_asIs (hquote : c ≠ '"') (hslash : c ≠ '\\') (hascii : IsAscii c)
    (h : units rest = .ok (us, left)) : units (c :: rest) = .ok (c.toNat :: us, left) := by
  have hcontrol : ¬c.toNat ≤ 0x1F := Nat.not_le.mpr hascii.1
  rw [units.eq_def]
  simp only [if_neg hquote, if_neg hslash, if_neg hcontrol, h]

theorem units_escape {e : Char} (hu : e ≠ 'u') (he : escape? e = some c)
    (h : units rest = .ok (us, left)) : units ('\\' :: e :: rest) = .ok (c.toNat :: us, left) := by
  rw [units.eq_def]
  simp only [Char.reduceEq, if_true, if_false, if_neg hu, he, h]

theorem units_quote (rest : List Char) : units ('"' :: rest) = .ok ([], rest) := by
  rw [units.eq_def]
  simp only [if_true]

/-- A character in front is read as its code units. Something must stand behind it, as an escaped code
unit is read only with a further character. -/
theorem units_written {cs : List Char} (hw : Written c cs) {next : Char}
    (h : units (next :: rest) = .ok (us, left)) :
    units (cs ++ next :: rest) = .ok (charUnits c ++ us, left) := by
  cases hw with
  | short he hu hascii hbasic =>
    rw [charUnits_basic hbasic]
    exact units_escape hu he h
  | asIs hquote hslash hascii =>
    rw [charUnits_basic (Nat.lt_of_le_of_lt hascii.2 (by decide))]
    exact units_asIs hquote hslash hascii h
  | unit hbasic =>
    rw [charUnits_basic hbasic]
    exact units_unitEscape hbasic h
  | pair hbeyond =>
    have hc := not_surrogate c
    rw [charUnits, if_neg hbeyond, List.append_assoc]
    exact units_unitEscape (by omega) (units_unitEscape (by omega) h)

theorem units_flatMap (cs rest : List Char) :
    units (cs.flatMap Printer.stringChar ++ '"' :: rest) = .ok (cs.flatMap charUnits, rest) := by
  induction cs with
  | nil => exact units_quote rest
  | cons c cs ih =>
    obtain ⟨next, behind, hnext⟩ : ∃ next behind,
        cs.flatMap Printer.stringChar ++ '"' :: rest = next :: behind :=
      List.exists_cons_of_ne_nil (by simp)
    rw [List.flatMap_cons, List.append_assoc, hnext]
    rw [hnext] at ih
    exact units_written (written_stringChar c) ih

/-! No character of the basic plane is half of a pair, so only the pairs that were split are joined. -/

theorem unitChar_basic (hbasic : c.toNat < 0x10000) : isHigh c.toNat = false ∧
    unitChar c.toNat = c := by
  have hc := not_surrogate c
  have hhigh : isHigh c.toNat = false := by
    simp only [isHigh, Bool.and_eq_false_iff, decide_eq_false_iff_not]
    omega
  have hlow : isLow c.toNat = false := by
    simp only [isLow, Bool.and_eq_false_iff, decide_eq_false_iff_not]
    omega
  exact ⟨hhigh, by simp [unitChar, hhigh, hlow]⟩

theorem join_basic (hbasic : c.toNat < 0x10000) (us : List Nat) :
    join (c.toNat :: us) = c :: join us := by
  obtain ⟨hhigh, hchar⟩ := unitChar_basic hbasic
  cases us with
  | nil => simp only [join, hchar]
  | cons u us => simp only [join, hhigh, Bool.false_and, Bool.false_eq_true, if_false, hchar]

theorem join_pair {n : Nat} (hn : n < 0x100000) (us : List Nat) :
    join ((0xD800 + n / 0x400) :: (0xDC00 + n % 0x400) :: us) = Char.ofNat (0x10000 + n) :: join us := by
  have hhigh : isHigh (0xD800 + n / 0x400) = true := by
    simp only [isHigh, Bool.and_eq_true, decide_eq_true_eq]
    omega
  have hlow : isLow (0xDC00 + n % 0x400) = true := by
    simp only [isLow, Bool.and_eq_true, decide_eq_true_eq]
    omega
  have hsum : 0x10000 + (0xD800 + n / 0x400 - 0xD800) * 0x400 + (0xDC00 + n % 0x400 - 0xDC00) =
      0x10000 + n := by omega
  simp only [join, hhigh, hlow, Bool.and_self, if_true, hsum]

theorem join_charUnits (c : Char) (us : List Nat) : join (charUnits c ++ us) = c :: join us := by
  by_cases hbasic : c.toNat < 0x10000
  · rw [charUnits_basic hbasic]
    exact join_basic hbasic us
  · have hc := not_surrogate c
    have hback : Char.ofNat (0x10000 + (c.toNat - 0x10000)) = c := by
      rw [Nat.add_sub_cancel' (Nat.not_lt.mp hbasic), Char.ofNat_toNat]
    rw [charUnits, if_neg hbasic]
    exact (join_pair (by omega) us).trans (by rw [hback])

theorem join_flatMap (cs : List Char) : join (cs.flatMap charUnits) = cs := by
  induction cs with
  | nil => rfl
  | cons c cs ih => rw [List.flatMap_cons, join_charUnits, ih]

/-- A printed text is read as the same text, character for character. -/
theorem string_string (s : String) (rest : List Char) :
    string (s.toList.flatMap Printer.stringChar ++ '"' :: rest) = .ok (s, rest) := by
  rw [string, units_flatMap]
  simp only [Except.map, join_flatMap, String.ofList_toList]

end Parser

end AssemblyBrowser.Json
