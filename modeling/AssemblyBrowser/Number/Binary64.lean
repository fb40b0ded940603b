/-!
Binary floating-point numbers of 64 bits as exact values. `ofRatio` rounds a quotient to the nearest
representable number, a tie going to the even mantissa, with gradual underflow and overflow to
infinity; every arithmetic operation used here is one such rounding.
-/
namespace AssemblyBrowser

/-- A finite number is `mantissa * 2 ^ exponent`; `ofRatio` always gives the mantissa 53 bits
unless the exponent is the least one. -/
inductive Binary64
  | finite (negative : Bool) (mantissa : Nat) (exponent : Int)
  | infinite (negative : Bool)
  | nan
deriving DecidableEq, Repr

namespace Binary64

def leastExponent : Int := -1074
def greatestExponent : Int := 971

/-- The integer nearest to `num / den`, the even one of two. -/
def roundQuotient (num den : Nat) : Nat :=
  let q := num / den
  let r := num % den
  if 2 * r < den then q
  else if den < 2 * r then q + 1
  else if q % 2 = 0 then q else q + 1

/-- `num / den / base ^ e` as a fraction. -/
def scaled (base : Nat) (num den : Nat) (e : Int) : Nat × Nat :=
  if e < 0 then (num * Nat.pow base (-e).toNat, den) else (num, den * Nat.pow base e.toNat)

/-- The exponent at which `num / den` has a mantissa of 53 bits. -/
def naturalExponent (num den : Nat) : Int :=
  let e : Int := num.log2 - den.log2 - 52
  let (n, d) := scaled 2 num den e
  if n < d * Nat.pow 2 52 then e - 1 else e

/-- The number nearest to `num / den`, for a positive `den`. -/
def ofRatio (negative : Bool) (num den : Nat) : Binary64 :=
  if num = 0 then .finite negative 0 leastExponent
  else
    let e := max (naturalExponent num den) leastExponent
    let (n, d) := scaled 2 num den e
    let m := roundQuotient n d
    let (m, e) := if m = Nat.pow 2 53 then (Nat.pow 2 52, e + 1) else (m, e)
    if greatestExponent < e then .infinite negative else .finite negative m e

/-- How many decimal digits a number has; one for zero. -/
def decimalLength (n : Nat) : Nat := (Nat.toDigits 10 n).length

/-- The number nearest to `digits * 10 ^ exponent`. Exponents that lead far out of range are not
expanded. -/
def ofDecimal (negative : Bool) (digits : Nat) (exponent : Int) : Binary64 :=
  let magnitude : Int := decimalLength digits + exponent
  if digits = 0 then .finite negative 0 leastExponent
  else if 400 < magnitude then .infinite negative
  else if magnitude < -400 then .finite negative 0 leastExponent
  else if exponent < 0 then ofRatio negative digits (Nat.pow 10 (-exponent).toNat)
  else ofRatio negative (digits * Nat.pow 10 exponent.toNat) 1

def ofNat (n : Nat) : Binary64 := ofRatio false n 1

/-- The product with a natural number. -/
def timesNat (x : Binary64) (n : Nat) : Binary64 :=
  match x with
  | .finite negative m e =>
    if e < 0 then ofRatio negative (m * n) (Nat.pow 2 (-e).toNat)
    else ofRatio negative (m * n * Nat.pow 2 e.toNat) 1
  | .infinite negative => if n = 0 then .nan else .infinite negative
  | .nan => .nan

/-- The integer part, toward zero. -/
def truncate? : Binary64 → Option Int
  | .finite negative m e =>
    let n : Int := if e < 0 then (m / Nat.pow 2 (-e).toNat : Nat)
      else (m * Nat.pow 2 e.toNat : Nat)
    some (if negative then -n else n)
  | .infinite _ | .nan => none

/-- Whether the value exceeds a natural number. -/
def exceeds (x : Binary64) (n : Nat) : Bool :=
  match x with
  | .finite false m e =>
    if e < 0 then n * Nat.pow 2 (-e).toNat < m else n < m * Nat.pow 2 e.toNat
  | .infinite false => true
  | _ => false

end Binary64

end AssemblyBrowser
