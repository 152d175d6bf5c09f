import Mathlib.Data.Rat.Floor
import Mathlib.Tactic.Common
import Mathlib.Tactic.Linarith
import Mathlib.Tactic.NormNum

set_option autoImplicit false

namespace SplitFleet

/-- `dtype.kind`, without the complex, object and text kinds. -/
inductive Kind
  | float | int | uint | bool
  deriving DecidableEq

structure DType where
  kind : Kind
  itemsize : ℕ
  deriving DecidableEq

namespace DType

def float64 : DType := ⟨.float, 8⟩

/-- `dtype.kind in "fc"`. -/
def inexact (d : DType) : Bool := d.kind = .float

/-- The dtype of an array of dtype `d` after multiplication by a Python float. -/
def promoted (d : DType) : DType := if d.inexact then d else float64

theorem promoted_inexact (d : DType) : d.promoted.inexact = true := by
  unfold promoted
  split_ifs with h
  · exact h
  · rfl

end DType

/-- An array in exact arithmetic: the entries in C order, each a rational number. -/
structure Tensor where
  dtype : DType
  shape : List ℕ
  data : List ℚ
  deriving DecidableEq

namespace Tensor

def mapTo (d : DType) (f : ℚ → ℚ) (x : Tensor) : Tensor := ⟨d, x.shape, x.data.map f⟩

def zip (f : ℚ → ℚ → ℚ) (x y : Tensor) : Tensor := ⟨x.dtype, x.shape, List.zipWith f x.data y.data⟩

def add : Tensor → Tensor → Tensor := zip (· + ·)

def maximum : Tensor → Tensor → Tensor := zip max

/-- `layer * w` for a Python float `w`. -/
def scale (w : ℚ) (x : Tensor) : Tensor := x.mapTo x.dtype.promoted (· * w)

/-- `np.array_equal`: shapes and entries, not dtypes. -/
def arrayEqual (x y : Tensor) : Bool := x.shape = y.shape && x.data = y.data

/-- `np.rint`: the nearest integer, an even one between two. -/
def rint (q : ℚ) : ℤ :=
  if q - ⌊q⌋ < 1 / 2 then ⌊q⌋
  else if 1 / 2 < q - ⌊q⌋ then ⌊q⌋ + 1
  else if ⌊q⌋ % 2 = 0 then ⌊q⌋
  else ⌊q⌋ + 1

def truncate (q : ℚ) : ℤ := if 0 ≤ q then ⌊q⌋ else ⌈q⌉

/-- The entry of `astype(d)`: exact for floats, towards zero for integers. -/
def cast (d : DType) (q : ℚ) : ℚ :=
  match d.kind with
  | .float => q
  | .int | .uint => truncate q
  | .bool => if q = 0 then 0 else 1

def astype (d : DType) (x : Tensor) : Tensor := x.mapTo d (cast d)

theorem truncate_intCast (n : ℤ) : truncate n = n := by
  simp [truncate]

/-- Truncation to an integer dtype leaves a rounded entry as it is. -/
theorem cast_rint {d : DType} (h : d.kind = .int ∨ d.kind = .uint) (q : ℚ) :
    cast d (rint q) = rint q := by
  rcases h with h | h <;> simp [cast, h, truncate_intCast]

theorem rint_intCast (n : ℤ) : rint n = n := by
  simp [rint]

/-- No integer is nearer than half a unit beyond the one `rint` picks. -/
theorem abs_sub_rint_le (q : ℚ) : |q - rint q| ≤ 1 / 2 := by
  have hl := Int.floor_le q
  have hu := Int.lt_floor_add_one q
  unfold rint
  split_ifs with h₁ h₂ h₃
  · rw [abs_le]
    constructor <;> linarith
  · push_cast
    rw [abs_le]
    constructor <;> linarith
  · rw [abs_le]
    constructor <;> linarith
  · push_cast
    rw [abs_le]
    constructor <;> linarith

@[simp] theorem astype_self_of_float {x : Tensor} (h : x.dtype.inexact = true) :
    x.astype x.dtype = x := by
  have hk : x.dtype.kind = .float := by simpa [DType.inexact] using h
  have hc : cast x.dtype = id := by
    funext q
    simp [cast, hk]
  rw [astype, mapTo, hc, List.map_id]

theorem arrayEqual_iff {x y : Tensor} (hd : x.dtype = y.dtype) : x.arrayEqual y = true ↔ x = y := by
  obtain ⟨d, s, v⟩ := x
  obtain ⟨d', s', v'⟩ := y
  simp only at hd
  simp [arrayEqual, hd]

end Tensor

end SplitFleet
