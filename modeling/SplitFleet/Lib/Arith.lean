import Mathlib.Algebra.Order.Field.Rat
import Mathlib.Algebra.BigOperators.Ring.List
import Mathlib.Algebra.Order.BigOperators.Group.List

set_option autoImplicit false

namespace SplitFleet.Lib

/-- What a program does with its floats: the rational numbers for exact arithmetic, binary64 for the
arithmetic of the machine. -/
class Arith (N : Type) extends Add N, Mul N, Div N where
  ofInt : ℤ → N
  /-- `a / b` of two integers -/
  trueDiv : ℤ → ℤ → N

namespace Arith

instance exact : Arith ℚ where
  ofInt z := z
  trueDiv a b := a / b

/-- An integer before any rounding. -/
def unrounded (z : ℤ) : Float.Model.UnpackedFloat :=
  if h : z = 0 then .zero .positive
  else .finite (if 0 < z then .positive else .negative) z.natAbs 0 (Int.natAbs_pos.mpr h)

/-- The quotient of two integers is rounded once. -/
instance binary64 : Arith Float.Model where
  ofInt := Float.Model.ofInt
  trueDiv a b := .pack (.div .binary64 (unrounded a) (unrounded b))

variable {N : Type} [Arith N]

/-- `sum(values)` -/
def sum (values : List N) : N := values.foldl (· + ·) (ofInt 0)

theorem sum_exact (values : List ℚ) : sum values = values.sum := by
  have h (total : ℚ) : values.foldl (· + ·) total = total + values.sum := by
    induction values generalizing total with
    | nil => rw [List.foldl_nil, List.sum_nil, add_zero]
    | cons v values ih => rw [List.foldl_cons, ih, List.sum_cons, add_assoc]
  rw [sum, h]
  exact zero_add _

/-- A weighted mean is at most the largest of its values. -/
theorem sum_mul_le {ι : Type} {l : List ι} {value weight : ι → ℚ} {bound : ℚ} (hw : ∀ i ∈ l, 0 ≤ weight i)
    (hv : ∀ i ∈ l, value i ≤ bound) : (l.map fun i ↦ value i * weight i).sum ≤ bound * (l.map weight).sum := by
  rw [← List.sum_map_mul_left]
  apply List.sum_le_sum
  intro i hi
  exact mul_le_mul_of_nonneg_right (hv i hi) (hw i hi)

end Arith

end SplitFleet.Lib
