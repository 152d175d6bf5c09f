import SplitFleet.Lib.Python
import SplitFleet.Tensor
import Mathlib.Algebra.BigOperators.Group.List.Basic

set_option autoImplicit false

namespace SplitFleet

open Lib

namespace DType

/-- The float dtype for integers of some size. -/
def floatFor (itemsize : ℕ) : ℕ := min (2 * itemsize) 8

/-- The dtype for signed and unsigned integers of some sizes. -/
def signedFor (signed unsigned : ℕ) : DType :=
  if unsigned < signed then ⟨.int, signed⟩
  else if unsigned < 8 then ⟨.int, 2 * unsigned⟩
  else float64

/-- `np.result_type`. -/
def resultType (a b : DType) : DType :=
  match a.kind, b.kind with
  | .bool, _ => b
  | _, .bool => a
  | .float, .float => ⟨.float, max a.itemsize b.itemsize⟩
  | .float, _ => ⟨.float, max a.itemsize (floatFor b.itemsize)⟩
  | _, .float => ⟨.float, max b.itemsize (floatFor a.itemsize)⟩
  | .int, .int => ⟨.int, max a.itemsize b.itemsize⟩
  | .uint, .uint => ⟨.uint, max a.itemsize b.itemsize⟩
  | .int, .uint => signedFor a.itemsize b.itemsize
  | .uint, .int => signedFor b.itemsize a.itemsize

theorem resultType_self (a : DType) : a.resultType a = a := by
  obtain ⟨kind, itemsize⟩ := a
  cases kind <;> simp [resultType]

theorem signedFor_kind (signed unsigned : ℕ) : (signedFor signed unsigned).kind ≠ .bool := by
  unfold signedFor float64
  split_ifs <;> simp

theorem resultType_bool_iff {a b : DType} :
    (a.resultType b).kind = .bool ↔ a.kind = .bool ∧ b.kind = .bool := by
  obtain ⟨ka, na⟩ := a
  obtain ⟨kb, nb⟩ := b
  cases ka <;> cases kb <;> simp [resultType, signedFor_kind]

end DType

namespace Tensor

/-- The dimensions of a result, the last one first. -/
def broadcastDims : List ℕ → List ℕ → Option (List ℕ)
  | [], t => some t
  | s, [] => some s
  | a :: s, b :: t => do
    let dims ← broadcastDims s t
    if a = b ∨ b = 1 then some (a :: dims) else if a = 1 then some (b :: dims) else none

def broadcastShape (s t : List ℕ) : Option (List ℕ) :=
  (broadcastDims s.reverse t.reverse).map List.reverse

/-- The entries of an array whose dimensions of length one are stretched. -/
def stretch : (dims target : List ℕ) → List ℚ → List ℚ
  | a :: dims, b :: target, data =>
    let block (i : ℕ) := stretch dims target ((data.drop (i * dims.prod)).take dims.prod)
    if a = b then (List.range b).flatMap block else (List.replicate b (block 0)).flatten
  | _, _, data => data

def broadcastTo (shape : List ℕ) (x : Tensor) : List ℚ :=
  stretch (List.replicate (shape.length - x.shape.length) 1 ++ x.shape) shape x.data

/-- A universal function of two arrays. -/
def elementwise (f : ℚ → ℚ → ℚ) (x y : Tensor) : Except PyError Tensor :=
  if x.shape = y.shape then .ok ⟨x.dtype.resultType y.dtype, x.shape, List.zipWith f x.data y.data⟩
  else
    match broadcastShape x.shape y.shape with
    | some shape =>
      .ok ⟨x.dtype.resultType y.dtype, shape, List.zipWith f (x.broadcastTo shape) (y.broadcastTo shape)⟩
    | none => .error (.valueError "operands could not be broadcast together")

/-- `np.subtract`, which booleans do not have. -/
def subtract (x y : Tensor) : Except PyError Tensor :=
  if x.dtype.kind = .bool ∧ y.dtype.kind = .bool then
    .error (.typeError "numpy boolean subtract, the `-` operator, is not supported")
  else elementwise (· - ·) x y

/-- `np.add`, which is `or` on booleans. -/
def plus (x y : Tensor) : Except PyError Tensor :=
  if x.dtype.kind = .bool ∧ y.dtype.kind = .bool then elementwise max x y else elementwise (· + ·) x y

section Values

variable {x y x' y' z z' : Tensor} {f : ℚ → ℚ → ℚ}

theorem arrayEqual_iff_value : x.arrayEqual y = true ↔ x.shape = y.shape ∧ x.data = y.data := by
  rw [arrayEqual, Bool.and_eq_true, decide_eq_true_iff, decide_eq_true_iff]

theorem arrayEqual_congr (hx : x.arrayEqual x' = true) (hy : y.arrayEqual y' = true) :
    x'.arrayEqual y' = x.arrayEqual y := by
  obtain ⟨hxs, hxd⟩ := arrayEqual_iff_value.mp hx
  obtain ⟨hys, hyd⟩ := arrayEqual_iff_value.mp hy
  rw [arrayEqual, ← hxs, ← hys, ← hxd, ← hyd, arrayEqual]

theorem broadcastTo_congr (h : x.arrayEqual x' = true) (shape : List ℕ) :
    x.broadcastTo shape = x'.broadcastTo shape := by
  obtain ⟨hs, hd⟩ := arrayEqual_iff_value.mp h
  rw [broadcastTo, hs, hd, broadcastTo]

/-- The values of a result depend on values alone. -/
theorem elementwise_congr (hx : x.arrayEqual x' = true) (hy : y.arrayEqual y' = true)
    (h : elementwise f x y = .ok z) (h' : elementwise f x' y' = .ok z') : z.arrayEqual z' = true := by
  obtain ⟨hxs, hxd⟩ := arrayEqual_iff_value.mp hx
  obtain ⟨hys, hyd⟩ := arrayEqual_iff_value.mp hy
  rw [elementwise, ← hxs, ← hys, ← hxd, ← hyd] at h'
  rw [elementwise] at h
  by_cases hs : x.shape = y.shape
  · rw [if_pos hs] at h h'
    cases h
    cases h'
    exact arrayEqual_iff_value.mpr ⟨rfl, rfl⟩
  · rw [if_neg hs] at h h'
    cases hb : broadcastShape x.shape y.shape with
    | none =>
      rw [hb] at h
      cases h
    | some shape =>
      rw [hb] at h h'
      cases h
      cases h'
      refine arrayEqual_iff_value.mpr ⟨rfl, ?_⟩
      rw [broadcastTo_congr hx, broadcastTo_congr hy]

theorem elementwise_dtype (h : elementwise f x y = .ok z) : z.dtype = x.dtype.resultType y.dtype := by
  rw [elementwise] at h
  split_ifs at h with hs
  · cases h
    rfl
  · cases hb : broadcastShape x.shape y.shape with
    | none =>
      rw [hb] at h
      cases h
    | some shape =>
      rw [hb] at h
      cases h
      rfl

/-- A difference is no boolean. -/
theorem subtract_eq_ok (h : subtract x y = .ok z) : z.dtype.kind ≠ .bool ∧ elementwise (· - ·) x y = .ok z := by
  rw [subtract] at h
  split_ifs at h with hb
  refine ⟨fun hk ↦ hb ?_, h⟩
  rw [elementwise_dtype h] at hk
  exact DType.resultType_bool_iff.mp hk

theorem plus_of_right (hy : y.dtype.kind ≠ .bool) : plus x y = elementwise (· + ·) x y := if_neg fun h ↦ hy h.2

section Schema

variable (d : DType) (shape : List ℕ) (a b : List ℚ)

theorem elementwise_of_schema : elementwise f ⟨d, shape, a⟩ ⟨d, shape, b⟩ = .ok ⟨d, shape, List.zipWith f a b⟩ := by
  rw [elementwise, if_pos rfl, DType.resultType_self]

variable {d} (hd : d.kind ≠ .bool)
include hd

theorem subtract_of_schema :
    subtract ⟨d, shape, a⟩ ⟨d, shape, b⟩ = .ok ⟨d, shape, List.zipWith (· - ·) a b⟩ := by
  rw [subtract, if_neg fun h ↦ hd h.1, elementwise_of_schema]

theorem plus_of_schema : plus ⟨d, shape, a⟩ ⟨d, shape, b⟩ = .ok ⟨d, shape, List.zipWith (· + ·) a b⟩ := by
  rw [plus_of_right hd, elementwise_of_schema]

end Schema

end Values

end Tensor

end SplitFleet
