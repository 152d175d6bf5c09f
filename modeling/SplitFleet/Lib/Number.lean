import Mathlib.Algebra.Order.Ring.Unbundled.Rat
import Mathlib.Data.Rat.Floor
import SplitFleet.Lib.Python

set_option autoImplicit false

namespace SplitFleet.Lib

/-- A number of Python. The finite ones are exact. -/
inductive Number
  | finite (q : ℚ)
  | inf (negative : Bool)
  | nan
  deriving DecidableEq

namespace Number

/-- `math.isfinite(x)` -/
def isFinite : Number → Bool
  | finite _ => true
  | _ => false

/-- `x < q` -/
def below (q : ℚ) : Number → Bool
  | finite x => decide (x < q)
  | inf negative => negative
  | nan => false

/-- `q < x` -/
def above (q : ℚ) : Number → Bool
  | finite x => decide (q < x)
  | inf negative => !negative
  | nan => false

/-- `x <= q` -/
def atMost (q : ℚ) (x : Number) : Bool := below q x || x = finite q

/-- `q <= x` -/
def atLeast (q : ℚ) (x : Number) : Bool := above q x || x = finite q

/-- A finite number. -/
def value : Number → ℚ
  | finite q => q
  | _ => 0

/-- `math.floor(a / x)` of a number that is not zero. -/
def floorDiv (a : ℚ) : Number → Except PyError ℤ
  | finite x => .ok ⌊a / x⌋
  | inf _ => .ok 0
  | nan => .error (.valueError "cannot convert float NaN to integer")

theorem finite_value {x : Number} (h : x.isFinite = true) : finite x.value = x := by
  cases x with
  | finite q => rfl
  | inf => cases h
  | nan => cases h

end Number

end SplitFleet.Lib
