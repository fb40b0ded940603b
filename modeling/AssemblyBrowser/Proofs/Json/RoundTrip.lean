import AssemblyBrowser.Proofs.Json.Escape
import AssemblyBrowser.Proofs.Json.Integer
import AssemblyBrowser.Proofs.OrderedMap
/-!
Reading what was printed. A value without floating-point numbers, without integers of more than 4300
digits and without a field that is given twice is read as it was printed, whatever the layout and
however deep it is. Main statement: `parse_print`.
-/
namespace AssemblyBrowser

namespace Json

mutual
/-- Whether a value has no floating-point number in it, no integer that is too long to be read, and no
object that gives a field twice. -/
def isExact : Json → Bool
  | .null | .bool _ | .text _ => true
  | .number (.integer n) => (Nat.toDigits 10 n.natAbs).length ≤ longestInteger
  | .number (.real _) => false
  | .array xs => isExactList xs
  | .object fields => (Assoc.keys fields).Nodup && isExactFields fields

def isExactList : List Json → Bool
  | [] => true
  | x :: xs => isExact x && isExactList xs

def isExactFields : List (String × Json) → Bool
  | [] => true
  | (_, x) :: fields => isExact x && isExactFields fields
end

/-- The property goes from the parts of exact values to the values. -/
structure Hereditary (p : Json → Prop) : Prop where
  null : p .null
  bool : ∀ b, p (.bool b)
  text : ∀ s, p (.text s)
  integer : ∀ n : Int, (Nat.toDigits 10 n.natAbs).length ≤ longestInteger → p (.number (.integer n))
  array : ∀ xs, (∀ x ∈ xs, p x) → p (.array xs)
  object : ∀ fields, (Assoc.keys fields).Nodup → (∀ e ∈ fields, p e.2) → p (.object fields)

namespace Hereditary

variable {p : Json → Prop}

mutual
theorem holds (hp : Hereditary p) : (v : Json) → v.isExact = true → p v
  | .null, _ => hp.null
  | .bool b, _ => hp.bool b
  | .text s, _ => hp.text s
  | .number (.integer n), h => hp.integer n (by simpa [isExact] using h)
  | .number (.real _), h => by simp [isExact] at h
  | .array xs, h => hp.array xs (holdsList hp xs (by simpa [isExact] using h))
  | .object fields, h => by
    obtain ⟨hdistinct, hfields⟩ : (Assoc.keys fields).Nodup ∧ isExactFields fields = true := by
      simpa [isExact] using h
    exact hp.object fields hdistinct (holdsFields hp fields hfields)

theorem holdsList (hp : Hereditary p) : (xs : List Json) → isExactList xs = true → ∀ x ∈ xs, p x
  | [], _ => by simp
  | x :: xs, h => by
    obtain ⟨hx, hxs⟩ : x.isExact = true ∧ isExactList xs = true := by simpa [isExactList] using h
    exact List.forall_mem_cons.mpr ⟨holds hp x hx, holdsList hp xs hxs⟩

theorem holdsFields (hp : Hereditary p) : (fields : List (String × Json)) →
    isExactFields fields = true → ∀ e ∈ fields, p e.2
  | [], _ => by simp
  | (_, x) :: fields, h => by
    obtain ⟨hx, hfields⟩ : x.isExact = true ∧ isExactFields fields = true := by
      simpa [isExactFields] using h
    exact List.forall_mem_cons.mpr ⟨holds hp x hx, holdsFields hp fields hfields⟩
end

end Hereditary

namespace Parser

/-! ## Blanks -/

theorem skipSpace_append {gap : List Char} (hgap : ∀ c ∈ gap, isSpace c = true) {c : Char}
    (hc : isSpace c = false) (cs : List Char) : skipSpace (gap ++ c :: cs) = c :: cs := by
  induction gap with
  | nil => simp [skipSpace, hc]
  | cons d gap ih =>
    have hd : isSpace d = true := hgap d List.mem_cons_self
    have hrest := ih fun c hc => hgap c (List.mem_cons_of_mem d hc)
    simpa [skipSpace, hd] using hrest

theorem skipSpace_cons {c : Char} (hc : isSpace c = false) (cs : List Char) :
    skipSpace (c :: cs) = c :: cs := by
  have hnone : ∀ d ∈ ([] : List Char), isSpace d = true := by simp
  exact skipSpace_append hnone hc cs

theorem isSpace_lineBreak (width depth : Nat) :
    ∀ c ∈ Printer.lineBreak width depth, isSpace c = true := by
  intro c hc
  rcases List.mem_cons.mp hc with rfl | hc
  · rfl
  · rw [List.eq_of_mem_replicate hc]
    rfl

theorem isSpace_opening (l : Layout) (depth : Nat) :
    ∀ c ∈ Printer.opening l depth, isSpace c = true := by
  cases l with
  | indented width => exact isSpace_lineBreak width depth
  | compact | spaced => simp [Printer.opening]

theorem separator_eq (l : Layout) (depth : Nat) :
    ∃ gap, Printer.separator l depth = ',' :: gap ∧ ∀ c ∈ gap, isSpace c = true := by
  cases l with
  | compact => exact ⟨[], rfl, by simp⟩
  | spaced => exact ⟨[' '], rfl, List.forall_mem_singleton.mpr rfl⟩
  | indented width => exact ⟨_, rfl, isSpace_lineBreak width depth⟩

theorem colon_eq (l : Layout) :
    ∃ gap, Printer.colon l = ':' :: gap ∧ ∀ c ∈ gap, isSpace c = true := by
  cases l with
  | compact => exact ⟨[], rfl, by simp⟩
  | spaced | indented => exact ⟨[' '], rfl, List.forall_mem_singleton.mpr rfl⟩

/-! ## Integers -/

/-- The character ends a number in front of it. -/
def endsNumber (c : Char) : Bool := !(c.isDigit || c == '.' || c == 'e' || c == 'E')

theorem endsNumber_of_isSpace {c : Char} (h : isSpace c = true) : endsNumber c = true := by
  simp only [isSpace, Bool.or_eq_true, beq_iff_eq] at h
  rcases h with ((rfl | rfl) | rfl) | rfl <;> rfl

theorem endsNumber_append {gap : List Char} (hgap : ∀ c ∈ gap, isSpace c = true) {c : Char}
    (hc : endsNumber c = true) (cs : List Char) :
    ∀ d ∈ (gap ++ c :: cs).head?, endsNumber d = true := by
  cases gap with
  | nil => simpa using hc
  | cons d gap => simpa using endsNumber_of_isSpace (hgap d List.mem_cons_self)

theorem digitChar_ne_zero : ∀ n < 10, 0 < n → n.digitChar ≠ '0' := by decide

/-- A number other than zero does not begin with a zero. -/
theorem toDigits_eq_cons {n : Nat} (hn : 0 < n) :
    ∃ c cs, Nat.toDigits 10 n = c :: cs ∧ c ≠ '0' := by
  induction n using Nat.strongRecOn with
  | ind n ih =>
    by_cases hsmall : n < 10
    · exact ⟨n.digitChar, [], Nat.toDigits_of_lt_base hsmall, digitChar_ne_zero n hsmall hn⟩
    · obtain ⟨c, cs, heq, hc⟩ := ih (n / 10) (by omega) (by omega)
      refine ⟨c, cs ++ [(n % 10).digitChar], ?_, hc⟩
      rw [Nat.toDigits_of_base_le (by decide) (Nat.not_lt.mp hsmall), heq, List.cons_append]

theorem isDigit_toDigits (n : Nat) : ∀ c ∈ Nat.toDigits 10 n, c.isDigit = true := fun _ =>
  Nat.isDigit_of_mem_toDigits (by decide) (by decide)

theorem decimalValue_toDigits (n : Nat) : decimalValue (Nat.toDigits 10 n) = n :=
  Nat.ofDigitChars_toDigits (by decide) (by decide)

theorem toDigits_head (n : Nat) : ∃ c cs, Nat.toDigits 10 n = c :: cs ∧ c.isDigit = true := by
  obtain ⟨c, cs, heq⟩ := List.exists_cons_of_length_pos (Nat.length_toDigits_pos (b := 10) (n := n))
  exact ⟨c, cs, heq, isDigit_toDigits n c (heq ▸ List.mem_cons_self)⟩

/-- Nothing behind a number belongs to it. -/
def Ends (rest : List Char) : Prop := ∀ c ∈ rest.head?, endsNumber c = true

theorem not_isDigit_of_endsNumber {c : Char} (h : endsNumber c = true) : c.isDigit = false := by
  cases hdigit : c.isDigit with
  | false => rfl
  | true => exact absurd h (by simp [endsNumber, hdigit])

section

variable {rest : List Char} (hrest : Ends rest)
include hrest

theorem takeWhile_digits {ds : List Char} (hds : ∀ c ∈ ds, c.isDigit = true) :
    (ds ++ rest).takeWhile Char.isDigit = ds ∧ (ds ++ rest).dropWhile Char.isDigit = rest := by
  have hstop : rest.takeWhile Char.isDigit = [] ∧ rest.dropWhile Char.isDigit = rest := by
    cases rest with
    | nil => exact ⟨rfl, rfl⟩
    | cons c rest =>
      have hc := not_isDigit_of_endsNumber (hrest c rfl)
      simp [hc]
  rw [List.takeWhile_append_of_pos hds, List.dropWhile_append_of_pos hds, hstop.1, hstop.2]
  simp

theorem integerDigits?_toDigits (n : Nat) :
    integerDigits? (Nat.toDigits 10 n ++ rest) = some (Nat.toDigits 10 n, rest) := by
  rcases Nat.eq_zero_or_pos n with rfl | hn
  · rfl
  · obtain ⟨c, cs, heq, hzero⟩ := toDigits_eq_cons hn
    have hdigits := isDigit_toDigits n
    rw [heq] at hdigits ⊢
    obtain ⟨htake, hdrop⟩ := takeWhile_digits hrest fun d hd => hdigits d (List.mem_cons_of_mem c hd)
    simp only [List.cons_append, integerDigits?, if_neg hzero, hdigits c List.mem_cons_self, if_true,
      htake, hdrop]

theorem fraction_of_ends : fraction rest = ([], rest) := by
  cases rest with
  | nil => rfl
  | cons c rest =>
    have hc : c ≠ '.' := by rintro rfl; exact absurd (hrest _ rfl) (by decide)
    unfold fraction
    split
    · next heq => exact absurd (List.cons.inj heq).1 hc
    · rfl

theorem exponent?_of_ends : exponent? rest = none := by
  cases rest with
  | nil => rfl
  | cons c rest =>
    have hc : ¬(c = 'e' ∨ c = 'E') := by
      rintro (rfl | rfl) <;> exact absurd (hrest _ rfl) (by decide)
    simp only [exponent?, Bool.or_eq_true, decide_eq_true_eq, if_neg hc]

section

variable {cs whole : List Char} (hdigits : integerDigits? cs = some (whole, rest))
  (hshort : whole.length ≤ longestInteger)
include hdigits hshort

theorem number_negative : number ('-' :: cs) = .ok (.integer (-decimalValue whole), rest) := by
  unfold number
  simp only [hdigits, fraction_of_ends hrest, exponent?_of_ends hrest, List.isEmpty_nil,
    Bool.not_true, Bool.false_eq_true, if_false, if_neg (Nat.not_lt.mpr hshort), if_true]

theorem number_positive (hminus : cs.head? ≠ some '-') :
    number cs = .ok (.integer (decimalValue whole), rest) := by
  unfold number
  split
  next negative cs' heq =>
  split at heq
  · exact absurd rfl hminus
  · cases heq
    simp only [hdigits, fraction_of_ends hrest, exponent?_of_ends hrest, List.isEmpty_nil,
      Bool.not_true, Bool.false_eq_true, if_false, if_neg (Nat.not_lt.mpr hshort)]

end

end

theorem toList_toString (n : Int) : (toString n).toList =
    if n < 0 then '-' :: Nat.toDigits 10 n.natAbs else Nat.toDigits 10 n.natAbs := by
  cases n with
  | ofNat m => exact String.toList_ofList
  | negSucc m =>
    have hdash : "-".toList = ['-'] := rfl
    have hdigits : (Nat.repr (m + 1)).toList = Nat.toDigits 10 (m + 1) := String.toList_ofList
    rw [if_pos (Int.negSucc_lt_zero m)]
    change ("-" ++ Nat.repr (m + 1)).toList = _
    rw [String.toList_append, hdash, hdigits]
    rfl

/-- An integer is printed with a digit or a sign in front of a digit. -/
theorem integer_head (n : Int) : ∃ c cs, (toString n).toList = c :: cs ∧
    (c.isDigit = true ∨ c = '-' ∧ ∃ d ds, cs = d :: ds ∧ d.isDigit = true) := by
  obtain ⟨d, ds, heq, hd⟩ := toDigits_head n.natAbs
  rw [toList_toString, heq]
  split
  · exact ⟨'-', d :: ds, rfl, .inr ⟨rfl, d, ds, rfl, hd⟩⟩
  · exact ⟨d, ds, rfl, .inl hd⟩

theorem number_integer {n : Int} (hn : (Nat.toDigits 10 n.natAbs).length ≤ longestInteger)
    {rest : List Char} (hrest : Ends rest) :
    number ((toString n).toList ++ rest) = .ok (.integer n, rest) := by
  have hdigits := integerDigits?_toDigits hrest n.natAbs
  obtain ⟨d, ds, heq, hd⟩ := toDigits_head n.natAbs
  rw [toList_toString]
  split
  · next hneg =>
    rw [List.cons_append, number_negative hrest hdigits hn, decimalValue_toDigits]
    have hvalue : -(n.natAbs : Int) = n := by omega
    rw [hvalue]
  · next hpos =>
    have hminus : (Nat.toDigits 10 n.natAbs ++ rest).head? ≠ some '-' := by
      rw [heq, List.cons_append, List.head?_cons]
      exact fun h => ne_of_isDigit hd rfl (Option.some.inj h)
    rw [number_positive hrest hdigits hn hminus, decimalValue_toDigits]
    have hvalue : (n.natAbs : Int) = n := by omega
    rw [hvalue]

theorem word?_sign {d : Char} (hd : d.isDigit = true) (ds : List Char) :
    word? ('-' :: d :: ds) = none := by
  have hne : 'I' ≠ d := (ne_of_isDigit hd rfl).symm
  simp [word?, words, hne]

/-! ## Values -/

/-- Printed in a layout, the value is read back, whatever stands behind it: the reader needs no more fuel
than twice the length of what was printed. -/
structure Reads (l : Layout) (v : Json) : Prop where
  /-- A value begins with a printable character, not with a blank or as an array ends. -/
  head : ∀ depth, ∃ c cs, Printer.value l depth v = c :: cs ∧ isSpace c = false ∧ c ≠ ']' ∧
    IsAscii c
  value : ∀ {depth fuel rest}, Ends rest → 2 * (Printer.value l depth v).length ≤ fuel →
    value fuel (Printer.value l depth v ++ rest) = .ok (v, rest)

section

variable {l : Layout} {gap rest : List Char} (hgap : ∀ c ∈ gap, isSpace c = true)
include hgap

theorem elements_of_reads (depth : Nat) (xs : List Json) : ∀ {x fuel}, (∀ y ∈ x :: xs, Reads l y) →
    2 * (Printer.value l depth x ++ Printer.elements l depth xs).length + 1 ≤ fuel →
    elements fuel (Printer.value l depth x ++ Printer.elements l depth xs ++ (gap ++ ']' :: rest)) =
      .ok (x :: xs, rest) := by
  induction xs with
  | nil =>
    intro x fuel hreads hfuel
    obtain ⟨fuel, rfl⟩ : ∃ n, fuel = n + 1 := ⟨fuel - 1, by omega⟩
    simp only [Printer.elements, List.append_nil] at hfuel
    have hx : value fuel (Printer.value l depth x ++ (gap ++ ']' :: rest)) =
        .ok (x, gap ++ ']' :: rest) :=
      (hreads x List.mem_cons_self).value (endsNumber_append hgap (c := ']') rfl rest) (by omega)
    simp only [Printer.elements, List.append_nil, elements, hx,
      skipSpace_append hgap (c := ']') rfl rest, if_true]
  | cons y ys ih =>
    intro x fuel hreads hfuel
    obtain ⟨fuel, rfl⟩ : ∃ n, fuel = n + 1 := ⟨fuel - 1, by omega⟩
    obtain ⟨blanks, hseparator, hblanks⟩ := separator_eq l depth
    obtain ⟨c, cs, hhead, hspace, -, -⟩ := (hreads y (by simp)).head depth
    simp only [Printer.elements, hseparator, List.length_append, List.length_cons] at hfuel
    have hx : ∀ cs, value fuel (Printer.value l depth x ++ ',' :: cs) = .ok (x, ',' :: cs) :=
      fun cs => (hreads x List.mem_cons_self).value (by intro c hc; cases hc; rfl) (by omega)
    have hys : elements fuel (Printer.value l depth y ++ Printer.elements l depth ys ++
        (gap ++ ']' :: rest)) = .ok (y :: ys, rest) :=
      ih (fun z hz => hreads z (List.mem_cons_of_mem x hz)) (by simp only [List.length_append]; omega)
    have hskip : skipSpace (blanks ++ (Printer.value l depth y ++ Printer.elements l depth ys ++
        (gap ++ ']' :: rest))) = Printer.value l depth y ++ Printer.elements l depth ys ++
        (gap ++ ']' :: rest) := by
      rw [hhead]
      exact skipSpace_append hblanks hspace _
    simp only [List.append_assoc] at hys hskip
    simp only [Printer.elements, hseparator, List.append_assoc, List.cons_append, elements, hx,
      skipSpace_cons (c := ',') rfl, Char.reduceEq, if_false, if_true, hskip, hys, Except.map]

end

theorem notMem_of_nodup {key : String} {x : Json} {before fields : List (String × Json)}
    (h : (Assoc.keys (before ++ (key, x) :: fields)).Nodup) : key ∉ Assoc.keys before := by
  simp only [Assoc.keys, List.map_append, List.map_cons] at h
  exact fun hmem => (List.nodup_append.mp h).2.2 key hmem key List.mem_cons_self rfl

/-- Reads a field up to what stands behind it. -/
theorem members_cons {l : Layout} {x : Json} (hx : Reads l x) {depth fuel : Nat}
    (hfuel : 2 * (Printer.value l depth x).length ≤ fuel) {behind : List Char} (hends : Ends behind)
    (key : String) (fields : List (String × Json)) :
    members (fuel + 1) fields (Printer.string key ++
      (Printer.colon l ++ (Printer.value l depth x ++ behind))) =
    match skipSpace behind with
    | [] => .error .expectingComma
    | c :: rest =>
      if c = '}' then .ok (Assoc.put key x fields, rest)
      else if c = ',' then members fuel (Assoc.put key x fields) (skipSpace rest)
      else .error .expectingComma := by
  obtain ⟨blanks, hcolon, hblanks⟩ := colon_eq l
  obtain ⟨c, cs, hhead, hspace, -, -⟩ := hx.head depth
  have hskip : skipSpace (blanks ++ (Printer.value l depth x ++ behind)) =
      Printer.value l depth x ++ behind := by
    rw [hhead]
    exact skipSpace_append hblanks hspace _
  have hstring := string_string key (':' :: (blanks ++ (Printer.value l depth x ++ behind)))
  cases hbehind : skipSpace behind <;>
    simp only [Printer.string, hcolon, List.cons_append, List.append_assoc, List.nil_append, members,
      ne_eq, not_true_eq_false, if_false, hstring, skipSpace_cons (c := ':') rfl, hskip,
      hx.value hends hfuel, hbehind]

section

variable {l : Layout} {gap rest : List Char} (hgap : ∀ c ∈ gap, isSpace c = true)
include hgap

theorem members_of_reads (depth : Nat) (fields : List (String × Json)) :
    ∀ {key x fuel before}, (∀ e ∈ (key, x) :: fields, Reads l e.2) →
    (Assoc.keys (before ++ (key, x) :: fields)).Nodup →
    2 * (Printer.value l depth x ++ Printer.members l depth fields).length + 1 ≤ fuel →
    members fuel before (Printer.string key ++ (Printer.colon l ++ (Printer.value l depth x ++
      (Printer.members l depth fields ++ (gap ++ '}' :: rest))))) =
      .ok (before ++ (key, x) :: fields, rest) := by
  induction fields with
  | nil =>
    intro key x fuel before hreads hdistinct hfuel
    obtain ⟨fuel, rfl⟩ : ∃ n, fuel = n + 1 := ⟨fuel - 1, by omega⟩
    simp only [Printer.members, List.append_nil] at hfuel
    have hx : Reads l x := hreads (key, x) List.mem_cons_self
    rw [Printer.members, List.nil_append, members_cons hx (by omega)
      (endsNumber_append hgap (c := '}') rfl rest), skipSpace_append hgap (c := '}') rfl rest]
    simp only [if_true, Assoc.put_of_notMem (notMem_of_nodup hdistinct)]
  | cons e fields ih =>
    intro key x fuel before hreads hdistinct hfuel
    obtain ⟨key', y⟩ := e
    obtain ⟨fuel, rfl⟩ : ∃ n, fuel = n + 1 := ⟨fuel - 1, by omega⟩
    obtain ⟨blanks, hseparator, hblanks⟩ := separator_eq l depth
    simp only [Printer.members, hseparator, List.length_append, List.length_cons] at hfuel
    have hfields : members fuel (before ++ [(key, x)]) (Printer.string key' ++ (Printer.colon l ++
        (Printer.value l depth y ++ (Printer.members l depth fields ++ (gap ++ '}' :: rest))))) =
        .ok (before ++ [(key, x)] ++ (key', y) :: fields, rest) :=
      ih (fun e he => hreads e (List.mem_cons_of_mem _ he)) (by simpa using hdistinct)
        (by simp only [List.length_append]; omega)
    have hskip : ∀ cs, skipSpace (blanks ++ (Printer.string key' ++ cs)) =
        Printer.string key' ++ cs := fun cs => skipSpace_append hblanks (c := '"') rfl _
    simp only [Printer.members, hseparator, List.append_assoc, List.cons_append]
    have hx : Reads l x := hreads (key, x) List.mem_cons_self
    rw [members_cons hx (by omega) (by intro c hc; cases hc; rfl)]
    simp only [skipSpace_cons (c := ',') rfl, Char.reduceEq, if_false, if_true, hskip,
      Assoc.put_of_notMem (notMem_of_nodup hdistinct), hfields, List.append_assoc, List.cons_append,
      List.nil_append]

end

/-! ## All values -/

variable {l : Layout}

theorem reads_array {xs : List Json} (h : ∀ x ∈ xs, Reads l x) : Reads l (.array xs) where
  head depth := by
    cases xs with
    | nil => exact ⟨'[', [']'], rfl, rfl, by decide, by decide⟩
    | cons x xs => exact ⟨'[', _, rfl, rfl, by decide, by decide⟩
  value := by
    intro depth fuel rest hrest hfuel
    cases xs with
    | nil =>
      obtain ⟨fuel, rfl⟩ : ∃ n, fuel = n + 1 := ⟨fuel - 1, by simp [Printer.value] at hfuel; omega⟩
      simp only [Printer.value, List.cons_append, List.nil_append, value, Char.reduceEq, if_false,
        if_true, skipSpace_cons (c := ']') rfl]
    | cons x xs =>
      simp only [Printer.value, List.cons_append, List.length_append, List.length_cons] at hfuel
      obtain ⟨fuel, rfl⟩ : ∃ n, fuel = n + 1 := ⟨fuel - 1, by omega⟩
      obtain ⟨c, cs, hhead, hspace, hclose, -⟩ := (h x List.mem_cons_self).head (depth + 1)
      have helements : elements fuel (Printer.value l (depth + 1) x ++
          Printer.elements l (depth + 1) xs ++ (Printer.opening l depth ++ ']' :: rest)) =
          .ok (x :: xs, rest) :=
        elements_of_reads (isSpace_opening l depth) (depth + 1) xs h
          (by simp only [List.length_append]; omega)
      simp only [hhead, List.append_assoc, List.cons_append] at helements
      simp only [Printer.value, hhead, List.cons_append, List.append_assoc, List.nil_append, value,
        Char.reduceEq, if_false, if_true, skipSpace_append (isSpace_opening l (depth + 1)) hspace,
        if_neg hclose, helements, Except.map]

theorem reads_object {fields : List (String × Json)} (h : ∀ e ∈ fields, Reads l e.2)
    (hdistinct : (Assoc.keys fields).Nodup) : Reads l (.object fields) where
  head depth := by
    cases fields with
    | nil => exact ⟨'{', ['}'], rfl, rfl, by decide, by decide⟩
    | cons e fields => exact ⟨'{', _, rfl, rfl, by decide, by decide⟩
  value := by
    intro depth fuel rest hrest hfuel
    cases fields with
    | nil =>
      obtain ⟨fuel, rfl⟩ : ∃ n, fuel = n + 1 := ⟨fuel - 1, by simp [Printer.value] at hfuel; omega⟩
      simp only [Printer.value, List.cons_append, List.nil_append, value, Char.reduceEq, if_false,
        if_true, skipSpace_cons (c := '}') rfl]
    | cons e fields =>
      obtain ⟨key, x⟩ := e
      simp only [Printer.value, List.cons_append, List.length_append, List.length_cons] at hfuel
      obtain ⟨fuel, rfl⟩ : ∃ n, fuel = n + 1 := ⟨fuel - 1, by omega⟩
      have hmembers : members fuel [] (Printer.string key ++ (Printer.colon l ++
          (Printer.value l (depth + 1) x ++ (Printer.members l (depth + 1) fields ++
            (Printer.opening l depth ++ '}' :: rest))))) = .ok ((key, x) :: fields, rest) :=
        members_of_reads (isSpace_opening l depth) (depth + 1) fields h hdistinct
          (by simp only [List.length_append]; omega)
      have hskip : ∀ cs, skipSpace (Printer.opening l (depth + 1) ++ (Printer.string key ++ cs)) =
          Printer.string key ++ cs := fun cs =>
        skipSpace_append (isSpace_opening l (depth + 1)) (c := '"') rfl _
      have hquote : ∀ cs, Printer.string key ++ cs =
          '"' :: (key.toList.flatMap Printer.stringChar ++ '"' :: cs) := fun cs => by
        simp only [Printer.string, List.cons_append, List.append_assoc, List.nil_append]
      simp only [Printer.value, List.cons_append, List.append_assoc, List.nil_append, value,
        Char.reduceEq, if_false, if_true, hskip]
      rw [hquote] at hmembers ⊢
      simp only [hmembers, Char.reduceEq, if_false, Except.map]

theorem reads_text (s : String) : Reads l (.text s) where
  head _ := ⟨'"', _, rfl, rfl, by decide, by decide⟩
  value := by
    intro depth fuel rest hrest hfuel
    obtain ⟨fuel, rfl⟩ : ∃ n, fuel = n + 1 :=
      ⟨fuel - 1, by simp [Printer.value, Printer.string] at hfuel; omega⟩
    simp only [Printer.value, Printer.string, List.cons_append, List.append_assoc, List.nil_append,
      value, if_true, string_string, Except.map]

theorem reads_integer {n : Int} (hn : (Nat.toDigits 10 n.natAbs).length ≤ longestInteger) :
    Reads l (.number (.integer n)) := by
  obtain ⟨c, cs, heq, hc⟩ := integer_head n
  have hne : ∀ x : Char, x.isDigit = false → x ≠ '-' → c ≠ x := by
    rintro x hx hminus rfl
    rcases hc with hc | ⟨rfl, -⟩
    · exact ne_of_isDigit hc hx rfl
    · exact hminus rfl
  have hspace : isSpace c = false := by
    simp [isSpace, hne ' ' rfl (by decide), hne '\t' rfl (by decide), hne '\n' rfl (by decide),
      hne '\r' rfl (by decide)]
  have hascii : IsAscii c := hc.elim isAscii_of_isDigit fun h => h.1 ▸ by decide
  refine ⟨fun depth => ⟨c, cs, heq, hspace, hne ']' rfl (by decide), hascii⟩, ?_⟩
  intro depth fuel rest hrest hfuel
  have hnumber := number_integer hn hrest
  simp only [Printer.value, Printer.number, heq, List.cons_append, List.length_cons]
    at hfuel hnumber ⊢
  obtain ⟨fuel, rfl⟩ : ∃ n, fuel = n + 1 := ⟨fuel - 1, by omega⟩
  have hword : word? (c :: (cs ++ rest)) = none := by
    rcases hc with hc | ⟨rfl, d, ds, rfl, hd⟩
    · exact word?_of_isDigit hc _
    · exact word?_sign hd _
  simp only [value, if_neg (hne '"' rfl (by decide)), if_neg (hne '[' rfl (by decide)),
    if_neg (hne '{' rfl (by decide)), hword, hnumber, Except.map]

theorem reads_word {v : Json} {c : Char} {cs : List Char}
    (hprint : ∀ depth, Printer.value l depth v = c :: cs)
    (hc : c ≠ '"' ∧ c ≠ '[' ∧ c ≠ '{') (hhead : isSpace c = false ∧ c ≠ ']' ∧ IsAscii c)
    (hword : ∀ rest, word? (c :: (cs ++ rest)) = some (v, rest)) : Reads l v where
  head depth := ⟨c, cs, hprint depth, hhead⟩
  value := by
    intro depth fuel rest hrest hfuel
    rw [hprint] at hfuel ⊢
    obtain ⟨fuel, rfl⟩ : ∃ n, fuel = n + 1 := ⟨fuel - 1, by simp at hfuel; omega⟩
    simp only [List.cons_append, value, if_neg hc.1, if_neg hc.2.1, if_neg hc.2.2, hword]

/-- Every exact value is read as it was printed. -/
theorem reads : Hereditary (Reads l) where
  null := reads_word (fun _ => rfl) (by decide) (by decide) fun _ => rfl
  bool
    | true => reads_word (fun _ => rfl) (by decide) (by decide) fun _ => rfl
    | false => reads_word (fun _ => rfl) (by decide) (by decide) fun _ => rfl
  text := reads_text
  integer _ := reads_integer
  array _ := reads_array
  object _ hdistinct h := reads_object h hdistinct

theorem skipSpace_eq_nil {gap : List Char} (hgap : ∀ c ∈ gap, isSpace c = true) :
    skipSpace gap = [] :=
  List.dropWhile_eq_nil_iff.mpr hgap

/-- A printed value is read as it is, with blanks around it or not. -/
theorem document_print {v : Json} (h : v.isExact = true) {before behind : List Char}
    (hbefore : ∀ c ∈ before, isSpace c = true) (hbehind : ∀ c ∈ behind, isSpace c = true) :
    document (before ++ (Printer.value l 0 v ++ behind)) = .ok v := by
  have hreads := (reads (l := l)).holds v h
  obtain ⟨c, cs, hhead, hspace, -, hascii⟩ := hreads.head 0
  have hmark : (before ++ (Printer.value l 0 v ++ behind)).head? ≠ some '\uFEFF' := by
    cases before with
    | nil =>
      rintro heq
      rw [hhead] at heq
      obtain rfl : c = '\uFEFF' := Option.some.inj heq
      exact absurd hascii (by decide)
    | cons d before =>
      rintro heq
      obtain rfl : d = '\uFEFF' := Option.some.inj heq
      exact absurd (hbefore _ List.mem_cons_self) (by decide)
  have hends : Ends behind := fun d hd => endsNumber_of_isSpace (hbehind d (List.mem_of_mem_head? hd))
  have hskip : skipSpace (before ++ (Printer.value l 0 v ++ behind)) =
      Printer.value l 0 v ++ behind := by
    rw [hhead]
    exact skipSpace_append hbefore hspace _
  rw [document, if_neg hmark, hskip, hreads.value hends (by simp only [List.length_append]; omega)]
  simp only [skipSpace_eq_nil hbehind, List.isEmpty_nil, if_true]

end Parser

/-! ## One line -/

namespace Printer

variable {l : Layout} (hl : ∀ width, l ≠ .indented width)
include hl

theorem opening_eq_nil (depth : Nat) : opening l depth = [] := by
  cases l with
  | indented width => exact absurd rfl (hl width)
  | compact | spaced => rfl

theorem separator_ascii (depth : Nat) : ∀ c ∈ separator l depth, IsAscii c := by
  cases l with
  | indented width => exact absurd rfl (hl width)
  | compact | spaced => simp [separator, IsAscii]

omit hl in
theorem colon_ascii : ∀ c ∈ colon l, IsAscii c := by
  cases l <;> simp [colon, IsAscii]

/-- The value is printed in printable ASCII. -/
def Line (l : Layout) (v : Json) : Prop := ∀ depth, ∀ c ∈ value l depth v, IsAscii c

theorem elements_ascii (depth : Nat) {xs : List Json} (h : ∀ x ∈ xs, Line l x) :
    ∀ c ∈ elements l depth xs, IsAscii c := by
  induction xs with
  | nil => simp [elements]
  | cons x xs ih =>
    obtain ⟨hx, hxs⟩ := List.forall_mem_cons.mp h
    simp only [elements, List.forall_mem_append]
    exact ⟨⟨separator_ascii hl depth, hx depth⟩, ih hxs⟩

theorem members_ascii (depth : Nat) {fields : List (String × Json)} (h : ∀ e ∈ fields, Line l e.2) :
    ∀ c ∈ members l depth fields, IsAscii c := by
  induction fields with
  | nil => simp [members]
  | cons e fields ih =>
    obtain ⟨he, hfields⟩ := List.forall_mem_cons.mp h
    simp only [members, List.forall_mem_append]
    exact ⟨⟨⟨⟨separator_ascii hl depth, string_ascii e.1⟩, colon_ascii⟩, he depth⟩, ih hfields⟩

omit hl in
theorem integer_ascii (n : Int) : ∀ c ∈ (toString n).toList, IsAscii c := by
  rw [Parser.toList_toString]
  have hdigits : ∀ c ∈ Nat.toDigits 10 n.natAbs, IsAscii c := fun c hc =>
    isAscii_of_isDigit (Parser.isDigit_toDigits _ c hc)
  split
  · exact List.forall_mem_cons.mpr ⟨by decide, hdigits⟩
  · exact hdigits

/-- What an exact value is printed as on one line is printable ASCII. -/
theorem line : Hereditary (Line l) where
  null := fun _ => by simp [value, IsAscii]
  bool
    | true => fun _ => by simp [value, IsAscii]
    | false => fun _ => by simp [value, IsAscii]
  text s := fun _ => string_ascii s
  integer n _ := fun _ => integer_ascii n
  array xs h := fun depth => by
    cases xs with
    | nil => simp [value, IsAscii]
    | cons x xs =>
      obtain ⟨hx, hxs⟩ := List.forall_mem_cons.mp h
      simp only [value, opening_eq_nil hl, List.forall_mem_append, List.forall_mem_cons]
      exact ⟨⟨⟨⟨⟨by decide, by simp⟩, hx _⟩, elements_ascii hl _ hxs⟩, by simp⟩,
        by decide, by simp⟩
  object fields _ h := fun depth => by
    cases fields with
    | nil => simp [value, IsAscii]
    | cons e fields =>
      obtain ⟨he, hfields⟩ := List.forall_mem_cons.mp h
      simp only [value, opening_eq_nil hl, List.forall_mem_append, List.forall_mem_cons]
      exact ⟨⟨⟨⟨⟨⟨⟨by decide, by simp⟩, string_ascii e.1⟩, colon_ascii⟩, he _⟩,
        members_ascii hl _ hfields⟩, by simp⟩, by decide, by simp⟩

end Printer

/-- An exact value is read back, in whatever layout it is printed and however deep it is. -/
theorem parse_print (l : Layout) {v : Json} (h : v.isExact = true) : parse (v.print l) = .ok v := by
  have hdocument : Parser.document ([] ++ (Printer.value l 0 v ++ [])) = .ok v :=
    Parser.document_print h (by simp) (by simp)
  rw [parse, print, String.toList_ofList]
  simpa using hdocument

end Json

end AssemblyBrowser
