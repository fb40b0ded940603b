import AssemblyBrowser.Number.Binary64
/-!
Decimal text of floating-point numbers: the fewest digits that read back as the same number, and of
those the nearest to it. Positional notation is used from 10^-4 up to below 10^16, with at least one
digit on each side of the point; outside that range one digit stands before the point and the
exponent has a sign and at least two digits.
-/
namespace AssemblyBrowser.Binary64

/-- Whether `c * 10 ^ k` lies in the interval of values that round to `m * 2 ^ e`. All bounds are
written in units of `2 ^ (e - 2)`; the interval is closed when the mantissa is even, and narrower
below a power of two. -/
def readsBack (m : Nat) (e : Int) (c : Nat) (k : Int) : Bool :=
  let low := if m = Nat.pow 2 52 && leastExponent < e then 4 * m - 1 else 4 * m - 2
  let high := 4 * m + 2
  let (n₁, d₁) := scaled 10 c 1 (-k)
  let (n₂, d₂) := scaled 2 1 1 (2 - e)
  let value := n₁ * d₂
  let unit := d₁ * n₂
  if m % 2 = 0 then low * unit ≤ value && value ≤ high * unit
  else low * unit < value && value < high * unit

/-- Among the two neighbours of `m * 2 ^ e` on the grid `10 ^ k`, the nearest that reads back. -/
def gridPoint? (m : Nat) (e : Int) (k : Int) : Option Nat :=
  let (n₁, d₁) := scaled 2 m 1 (-e)
  let (n, d) := scaled 10 n₁ d₁ k
  let below := n / d
  let r := n % d
  let nearest := roundQuotient n d
  let other := if nearest = below then below + 1 else below
  if readsBack m e nearest k then some nearest
  else if r ≠ 0 && readsBack m e other k then some other
  else none

/-- The decimal exponent of `m * 2 ^ e`: the value is at least `10 ^ (p - 1)` and below `10 ^ p`. -/
def decimalPoint (m : Nat) (e : Int) : Int :=
  let (n, d) := scaled 2 m 1 (-e)
  (decimalLength (n * Nat.pow 10 400 / d) : Int) - 400

/-- Drops the zeros at the end, counting them into the exponent. -/
def dropZeros : Nat → Nat → Int → Nat × Int
  | 0, c, k => (c, k)
  | fuel + 1, c, k => if c % 10 = 0 then dropZeros fuel (c / 10) (k + 1) else (c, k)

/-- The shortest digits `c` and exponent `k` with `c * 10 ^ k` reading back as `m * 2 ^ e`. -/
def shortest (m : Nat) (e : Int) : Nat × Int :=
  let p := decimalPoint m e
  let grids := (List.range 17).map fun (i : Nat) => p - 1 - (i : Int)
  match grids.findSome? fun k => (gridPoint? m e k).map fun c => (c, k) with
  | some (c, k) => dropZeros 20 c k
  | none => (m, 0)

def zeros (n : Nat) : List Char := List.replicate n '0'

def exponentText (x : Int) : List Char :=
  let ds := Nat.toDigits 10 x.natAbs
  (if x < 0 then '-' else '+') :: (if ds.length < 2 then '0' :: ds else ds)

/-- Digits `c` with the decimal point after position `p`. -/
def decimalText (ds : List Char) (p : Int) : List Char :=
  if p ≤ -4 || 16 < p then
    (match ds with
      | [d] => [d]
      | d :: rest => d :: '.' :: rest
      | [] => []) ++ 'e' :: exponentText (p - 1)
  else if p ≤ 0 then '0' :: '.' :: zeros (-p).toNat ++ ds
  else if ds.length ≤ p.toNat then ds ++ zeros (p.toNat - ds.length) ++ ['.', '0']
  else ds.take p.toNat ++ '.' :: ds.drop p.toNat

def textList : Binary64 → List Char
  | .finite negative m e =>
    (if negative then ['-'] else []) ++
      if m = 0 then ['0', '.', '0']
      else
        let (c, k) := shortest m e
        let ds := Nat.toDigits 10 c
        decimalText ds (ds.length + k)
  | .infinite negative => (if negative then ['-'] else []) ++ ['i', 'n', 'f']
  | .nan => ['n', 'a', 'n']

def text (x : Binary64) : String := String.ofList x.textList

end AssemblyBrowser.Binary64
