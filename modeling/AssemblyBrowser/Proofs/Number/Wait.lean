import AssemblyBrowser.Number.Basic
import Mathlib.Tactic.Ring
import Mathlib.Tactic.Positivity
/-!
Waits and their milliseconds. Main statement: a number of seconds that the clock can wait for has a whole
number of milliseconds, unless it is negative or no number.
-/
namespace AssemblyBrowser

namespace Binary64

/-! ## The size of a quotient and of what it is rounded to -/

theorem div_le_roundQuotient (num den : Nat) : num / den ≤ roundQuotient num den := by
  unfold roundQuotient
  dsimp only
  split_ifs <;> omega

theorem scaled_of_nonneg {e : Int} (he : 0 ≤ e) (num den : Nat) :
    scaled 2 num den e = (num, den * 2 ^ e.toNat) := by
  rw [scaled, if_neg (Int.not_lt.mpr he)]
  rfl

/-- The logarithms fix the exponent up to one. -/
theorem naturalExponent_cases (num den : Nat) :
    naturalExponent num den = num.log2 - den.log2 - 52 ∨
      naturalExponent num den = num.log2 - den.log2 - 53 := by
  unfold naturalExponent
  dsimp only
  split_ifs
  · exact .inr (by ring)
  · exact .inl rfl

/-- A quotient has a mantissa of 53 bits at its exponent. -/
theorem le_div_of_naturalExponent {num den : Nat} (hnum : num ≠ 0) (hden : 0 < den)
    (he : 0 < naturalExponent num den) :
    2 ^ 52 ≤ num / (den * 2 ^ (naturalExponent num den).toNat) := by
  have hpos : 0 < den * 2 ^ (naturalExponent num den).toNat := by positivity
  refine (Nat.le_div_iff_mul_le hpos).mpr ?_
  generalize hk : (naturalExponent num den).toNat = k
  have hcases := naturalExponent_cases num den
  unfold naturalExponent at hk he hcases
  dsimp only at hk he hcases
  split_ifs at hk he hcases with hlt
  · -- the exponent is one less than the logarithms say
    have hden' := Nat.lt_log2_self (n := den)
    have hsum : k + 52 + (den.log2 + 1) = num.log2 := by omega
    calc 2 ^ 52 * (den * 2 ^ k) = 2 ^ (k + 52) * den := by ring
      _ ≤ 2 ^ (k + 52) * 2 ^ (den.log2 + 1) := Nat.mul_le_mul_left _ hden'.le
      _ = 2 ^ num.log2 := by rw [← pow_add, hsum]
      _ ≤ num := Nat.log2_self_le hnum
  · have hscaled := scaled_of_nonneg he.le num den
    rw [hscaled, hk] at hlt
    have hge : den * 2 ^ k * 2 ^ 52 ≤ num := Nat.le_of_not_lt hlt
    calc 2 ^ 52 * (den * 2 ^ k) = den * 2 ^ k * 2 ^ 52 := by ring
      _ ≤ num := hge

/-- The parts of what a quotient is rounded to: its exponent, or the next if the mantissa has become too
long, and a mantissa that is not shorter for it. -/
theorem ofRatio_parts (negative : Bool) {num : Nat} (den : Nat) (hnum : num ≠ 0) :
    let k := max (naturalExponent num den) leastExponent
    ∃ m e, k ≤ e ∧ e ≤ k + 1 ∧
      (2 ^ 52 ≤ roundQuotient (scaled 2 num den k).1 (scaled 2 num den k).2 → 2 ^ 52 ≤ m) ∧
      ofRatio negative num den =
        if greatestExponent < e then .infinite negative else .finite negative m e := by
  intro k
  rw [ofRatio, if_neg hnum]
  extract_lets
  generalize scaled 2 num den k = q
  obtain ⟨n, d⟩ := q
  dsimp only
  generalize roundQuotient n d = m
  by_cases hcarry : m = Nat.pow 2 53
  · rw [if_pos hcarry]
    exact ⟨Nat.pow 2 52, k + 1, by omega, le_rfl, fun _ => by norm_num, rfl⟩
  · rw [if_neg hcarry]
    exact ⟨m, k, le_rfl, by omega, id, rfl⟩

/-- What overflows is large. -/
theorem le_of_ofRatio_infinite {negative negative' : Bool} {num den : Nat}
    (h : ofRatio negative num den = .infinite negative') : den * 2 ^ 66 ≤ num := by
  have hnum : num ≠ 0 := by
    rintro rfl
    cases h
  have hlog : den.log2 + 67 ≤ num.log2 := by
    obtain ⟨m, e, -, he, -, heq⟩ := ofRatio_parts negative den hnum
    rw [heq] at h
    split_ifs at h with hgreat
    have hcases := naturalExponent_cases num den
    unfold greatestExponent at hgreat
    unfold leastExponent at he
    omega
  calc den * 2 ^ 66 ≤ 2 ^ (den.log2 + 1) * 2 ^ 66 := Nat.mul_le_mul_right _ Nat.lt_log2_self.le
    _ = 2 ^ (den.log2 + 67) := by rw [← pow_add]
    _ ≤ 2 ^ num.log2 := Nat.pow_le_pow_right (by decide) hlog
    _ ≤ num := Nat.log2_self_le hnum

/-- What is large exceeds all that the clock can count. -/
theorem exceeds_ofRatio {num den : Nat} (hden : 0 < den) (h : den * 2 ^ 66 ≤ num) {n : Nat}
    (hn : n < 2 ^ 65) : (ofRatio false num den).exceeds n = true := by
  have hnum : num ≠ 0 := by
    have hpos : 0 < den * 2 ^ 66 := by positivity
    omega
  have hlog : den.log2 + 66 ≤ num.log2 := by
    have hpow : 2 ^ (den.log2 + 66) ≤ num := by
      calc 2 ^ (den.log2 + 66) = 2 ^ den.log2 * 2 ^ 66 := pow_add _ _ _
        _ ≤ den * 2 ^ 66 := Nat.mul_le_mul_right _ (Nat.log2_self_le hden.ne')
        _ ≤ num := h
    exact (Nat.le_log2 hnum).mpr hpow
  have he : 13 ≤ naturalExponent num den := by
    have hcases := naturalExponent_cases num den
    omega
  have hleast : leastExponent ≤ naturalExponent num den := by
    unfold leastExponent
    omega
  have hquotient := (le_div_of_naturalExponent hnum hden (by omega)).trans
    (div_le_roundQuotient _ _)
  obtain ⟨m, e, hle, -, hm, heq⟩ := ofRatio_parts false den hnum
  rw [max_eq_left hleast, scaled_of_nonneg (by omega)] at hm
  rw [max_eq_left hleast] at hle
  have hm := hm hquotient
  rw [heq]
  split_ifs
  · rfl
  · have hexponent : ¬e < 0 := by omega
    have hlarge : 2 ^ 65 ≤ m * 2 ^ e.toNat := by
      calc 2 ^ 65 = 2 ^ 52 * 2 ^ 13 := by rw [← pow_add]
        _ ≤ m * 2 ^ e.toNat := Nat.mul_le_mul hm (Nat.pow_le_pow_right (by decide) (by omega))
    simp only [exceeds, hexponent, if_false, decide_eq_true_eq]
    exact hn.trans_le hlarge

/-! ## Products -/

/-- A finite number that is not negative; there is a negative zero. -/
def IsDuration : Binary64 → Prop
  | .finite negative mantissa _ => negative = false ∨ mantissa = 0
  | .infinite _ | .nan => False

instance decidableIsDuration (x : Binary64) : Decidable x.IsDuration :=
  match x with
  | .finite negative mantissa _ => inferInstanceAs (Decidable (negative = false ∨ mantissa = 0))
  | .infinite _ | .nan => inferInstanceAs (Decidable False)

/-- The products of a finite number are quotients over the same denominator, which grow with the factor. -/
theorem timesNat_quotient (negative : Bool) (m : Nat) (e : Int) :
    ∃ den unit, 0 < den ∧ (m = 0 → unit = 0) ∧
      ∀ n, (finite negative m e).timesNat n = ofRatio negative (unit * n) den := by
  by_cases he : e < 0
  · refine ⟨2 ^ (-e).toNat, m, by positivity, id, fun n => ?_⟩
    rw [timesNat, if_pos he]
    rfl
  · refine ⟨1, m * 2 ^ e.toNat, by decide, fun hm => by rw [hm, Nat.zero_mul], fun n => ?_⟩
    rw [timesNat, if_neg he, Nat.mul_right_comm]
    rfl

theorem ofRatio_ne_nan (negative : Bool) (num den : Nat) : ofRatio negative num den ≠ .nan := by
  by_cases hnum : num = 0
  · rw [ofRatio, if_pos hnum]
    exact Binary64.noConfusion
  · obtain ⟨m, e, -, -, -, heq⟩ := ofRatio_parts negative den hnum
    rw [heq]
    split_ifs <;> exact Binary64.noConfusion

/-- If a product overflows, the product with a factor that is no less exceeds what the clock can count. -/
theorem exceeds_timesNat {x : Binary64} (hx : x.IsDuration) {k n : Nat} {negative : Bool}
    (h : x.timesNat k = .infinite negative) (hkn : k ≤ n) {limit : Nat} (hlimit : limit < 2 ^ 65) :
    (x.timesNat n).exceeds limit = true := by
  cases x with
  | infinite negative => exact hx.elim
  | nan => exact hx.elim
  | finite negative m e =>
    obtain ⟨den, unit, hden, hzero, hproduct⟩ := timesNat_quotient negative m e
    rw [hproduct] at h ⊢
    have hlarge := le_of_ofRatio_infinite h
    obtain rfl | hm := hx
    · exact exceeds_ofRatio hden (hlarge.trans (Nat.mul_le_mul_left _ hkn)) hlimit
    · rw [hzero hm, Nat.zero_mul] at hlarge
      have hpos : 0 < den * 2 ^ 66 := by positivity
      omega

end Binary64

namespace Number

theorem milliseconds_defined_iff (x : Binary64) :
    (∃ ms, (Number.real x).milliseconds = .ok ms) ↔
      ∃ negative m e, x.timesNat 1000 = .finite negative m e := by
  rw [milliseconds]
  cases x.timesNat 1000 <;> simp

/-- A time that the clock can wait for can be reported in whole milliseconds. -/
theorem milliseconds_of_wait {x : Binary64} (hx : x.IsDuration) (h : (Number.real x).wait = .ok ()) :
    ∃ ms, (Number.real x).milliseconds = .ok ms := by
  rw [milliseconds_defined_iff]
  cases hproduct : x.timesNat 1000 with
  | finite negative m e => exact ⟨negative, m, e, rfl⟩
  | nan =>
    cases x with
    | infinite negative => exact hx.elim
    | nan => exact hx.elim
    | finite negative m e =>
      obtain ⟨den, unit, -, -, hquotient⟩ := Binary64.timesNat_quotient negative m e
      exact absurd ((hquotient 1000).symm.trans hproduct) (Binary64.ofRatio_ne_nan _ _ _)
  | infinite negative =>
    have hclock : longestWait * 1000000000 + longestWaitNanoseconds < 2 ^ 65 := by decide
    have hexceeds := Binary64.exceeds_timesNat hx hproduct (n := 1000000000) (by decide) hclock
    simp [wait, hexceeds] at h

end Number

end AssemblyBrowser
