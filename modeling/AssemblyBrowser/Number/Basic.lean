import AssemblyBrowser.Number.Shortest
/-!
Numbers as they are written: an integer of any size, or a floating-point number. The two are told
apart wherever a number is shown. Numbers of seconds are such numbers.
-/
namespace AssemblyBrowser

inductive Number
  | integer (n : Int)
  | real (x : Binary64)
deriving DecidableEq, Repr

instance : Inhabited Number := ⟨.integer 0⟩
instance (n : Nat) : OfNat Number n := ⟨.integer n⟩

/-- Why a number of seconds cannot be used. -/
inductive SecondsError
  /-- Infinity has no whole number of milliseconds. -/
  | infiniteToInteger
  | nanToInteger
  /-- Longer than the clock can wait, as a floating-point number or as an integer. -/
  | realOutOfRange
  | integerOutOfRange
deriving DecidableEq, Repr

def SecondsError.message : SecondsError → String
  | .infiniteToInteger => "cannot convert float infinity to integer"
  | .nanToInteger => "cannot convert float NaN to integer"
  | .realOutOfRange => "timestamp out of range for platform time_t"
  | .integerOutOfRange => "timestamp too large to convert to C _PyTime_t"

namespace Number

def text : Number → String
  | .integer n => toString n
  | .real x => x.text

/-- Whole milliseconds in a number of seconds, toward zero. -/
def milliseconds : Number → Except SecondsError Int
  | .integer n => .ok (n * 1000)
  | .real x =>
    match x.timesNat 1000 with
    | .nan => .error .nanToInteger
    | .infinite _ => .error .infiniteToInteger
    | y => .ok (y.truncate?.getD 0)

/-- Whether time passes in a wait of so many seconds. -/
def takesTime : Number → Bool
  | .integer n => 0 < n
  | .real x => x.exceeds 0

/-- The longest wait in whole seconds; the clock counts nanoseconds in 63 bits. -/
def longestWait : Nat := 9223372036

/-- Nanoseconds of a longest wait beyond its whole seconds. -/
def longestWaitNanoseconds : Nat := 854775807

/-- Waits in vain for as many seconds; a wait of no length ends at once. -/
def wait : Number → Except SecondsError Unit
  | .integer n => if longestWait < n then .error .integerOutOfRange else .ok ()
  | .real x =>
    let y := x.timesNat 1000000000
    if y.exceeds (longestWait * 1000000000 + longestWaitNanoseconds) then .error .realOutOfRange
    else .ok ()

end Number

end AssemblyBrowser
