import Mathlib

set_option autoImplicit false

namespace SplitFleet.Lib

variable {K : Type} [LinearOrder K]

/-- The running maximum from the right. -/
def envelope : List K → List K
  | [] => []
  | y :: ys => (envelope ys).head?.elim y (max y) :: envelope ys

/-- The greatest height from here on. -/
def top (y : K) : List (K × K) → K
  | [] => y
  | p :: points => max y (top p.2 points)

theorem head?_envelope (y : K) (points : List (K × K)) :
    (envelope (y :: points.map Prod.snd)).head? = some (top y points) := by
  induction points generalizing y with
  | nil => rfl
  | cons p points ih =>
    rw [List.map_cons, envelope, ih p.2]
    rfl

theorem top_le_iff {y b : K} {points : List (K × K)} : top y points ≤ b ↔ y ≤ b ∧ ∀ p ∈ points, p.2 ≤ b := by
  induction points generalizing y with
  | nil => simp [top]
  | cons p points ih => rw [top, max_le_iff, ih, List.forall_mem_cons]

theorem le_top (y : K) (points : List (K × K)) : y ≤ top y points := (top_le_iff.mp le_rfl).1

theorem le_top_of_mem {y : K} {points : List (K × K)} {p : K × K} (hp : p ∈ points) : p.2 ≤ top y points :=
  (top_le_iff.mp le_rfl).2 p hp

theorem top_mono {y : K} {points others : List (K × K)} (h : points ⊆ others) : top y points ≤ top y others :=
  top_le_iff.mpr ⟨le_top y others, fun _ hp ↦ le_top_of_mem (h hp)⟩

variable [Field K]

/-- Steps to the points where `xs` changes, each as high as the value of `ys` there. -/
def stepSum (xs ys : List K) : K :=
  (((xs.zip xs.tail).zip ys.tail).map fun p ↦ if p.1.2 ≠ p.1.1 then (p.1.2 - p.1.1) * p.2 else 0).sum

/-- The area under the envelope of the points. -/
def area (x : K) : List (K × K) → K
  | [] => 0
  | p :: points => (p.1 - x) * top p.2 points + area p.1 points

theorem stepSum_cons (x x' y y' : K) (xs ys : List K) :
    stepSum (x :: x' :: xs) (y :: y' :: ys) = (x' - x) * y' + stepSum (x' :: xs) (y' :: ys) := by
  have hzero : (if x' ≠ x then (x' - x) * y' else 0) = (x' - x) * y' := by
    by_cases h : x' = x
    · rw [if_neg (not_not.mpr h), h, sub_self, zero_mul]
    · rw [if_pos h]
  simp only [stepSum, List.tail_cons, List.zip_cons_cons, List.map_cons, List.sum_cons, hzero]

theorem stepSum_envelope (x y : K) (points : List (K × K)) :
    stepSum (x :: points.map Prod.fst) (envelope (y :: points.map Prod.snd)) = area x points := by
  induction points generalizing x y with
  | nil => rfl
  | cons p points ih =>
    have htop : envelope (p.2 :: points.map Prod.snd) = top p.2 points :: envelope (points.map Prod.snd) := by
      have hhead := head?_envelope p.2 points
      rw [envelope] at hhead ⊢
      rw [Option.some.inj hhead]
    have ih := ih p.1 p.2
    rw [htop] at ih
    rw [List.map_cons, List.map_cons, envelope, htop, stepSum_cons, ih]
    rfl

/-! ### Rising curves -/

/-- The points go to the right from `x`, no farther than 1, with heights between 0 and 1. -/
inductive Rising : K → List (K × K) → Prop
  | nil {x : K} (hx : x ≤ 1) : Rising x []
  | cons {x : K} {p : K × K} {points : List (K × K)} (hx : x ≤ p.1) (hlow : 0 ≤ p.2) (hhigh : p.2 ≤ 1)
      (h : Rising p.1 points) : Rising x (p :: points)

variable {x : K} {points : List (K × K)}

theorem Rising.le_one (h : Rising x points) : ∀ p ∈ points, p.2 ≤ 1 := by
  induction h with
  | nil => simp
  | cons _ _ hhigh _ ih => exact List.forall_mem_cons.mpr ⟨hhigh, ih⟩

variable [IsStrictOrderedRing K]

theorem Rising.area_nonneg (h : Rising x points) : 0 ≤ area x points := by
  induction h with
  | nil => exact le_rfl
  | cons hx hlow _ _ ih => exact add_nonneg (mul_nonneg (sub_nonneg.mpr hx) (hlow.trans (le_top _ _))) ih

theorem Rising.area_le (h : Rising x points) : area x points ≤ 1 - x := by
  induction h with
  | nil hx => exact sub_nonneg.mpr hx
  | cons hx _ hhigh h ih =>
    have hstep := mul_le_mul_of_nonneg_left (top_le_iff.mpr ⟨hhigh, h.le_one⟩) (sub_nonneg.mpr hx)
    rw [area]
    linarith

/-- One more point does not lower the area, where the curve falls to 0 at its end. -/
theorem Rising.area_le_insert {q : K × K} (h : Rising x (points ++ [q, (1, 0)])) :
    area x (points ++ [(1, 0)]) ≤ area x (points ++ [q, (1, 0)]) := by
  induction points generalizing x with
  | nil =>
    have hzero : area x [(1, 0)] = 0 := by simp [area, top]
    rw [List.nil_append, hzero]
    exact h.area_nonneg
  | cons p points ih =>
    cases h with
    | cons hx _ _ h =>
      have hsubset : points ++ [(1, 0)] ⊆ points ++ [q, (1, 0)] := by
        intro p hp
        simp only [List.mem_append, List.mem_cons, List.not_mem_nil, or_false] at hp ⊢
        exact hp.imp_right .inr
      exact add_le_add (mul_le_mul_of_nonneg_left (top_mono hsubset) (sub_nonneg.mpr hx)) (ih h)

/-- The area is full where the last point of the curve is at height 1. -/
theorem Rising.area_eq (h : Rising x (points ++ [(1, 1), (1, 0)])) : area x (points ++ [(1, 1), (1, 0)]) = 1 - x := by
  induction points generalizing x with
  | nil => simp [area, top]
  | cons p points ih =>
    cases h with
    | cons hx _ hhigh h =>
      have htop : top p.2 (points ++ [(1, 1), (1, 0)]) = 1 := by
        apply le_antisymm (top_le_iff.mpr ⟨hhigh, h.le_one⟩)
        exact le_top_of_mem (p := (1, 1)) (by simp)
      rw [List.cons_append, area, htop, ih h]
      ring

end SplitFleet.Lib
