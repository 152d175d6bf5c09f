import Mathlib.Algebra.BigOperators.Group.List.Basic
import Mathlib.Algebra.Order.Field.Basic
import Mathlib.Data.Set.Finite.Lemmas
import Mathlib.Data.Set.Finite.List
import Mathlib.Tactic.FieldSimp
import Mathlib.Tactic.Linarith
import Mathlib.Tactic.Ring

set_option autoImplicit false

namespace SplitFleet.Lib

variable {K : Type} [Field K]

/-- The mean of some values, each paired with its weight. -/
def meanOf (l : List (K × K)) : K := (l.map fun p ↦ p.1 * p.2).sum / (l.map Prod.fst).sum

theorem meanOf_perm {l l' : List (K × K)} (h : l.Perm l') : meanOf l = meanOf l' := by
  rw [meanOf, (h.map _).sum_eq, (h.map _).sum_eq, meanOf]

theorem sum_map_scaled (c : K) (l : List (K × K)) :
    (l.map fun p ↦ c * p.1 * p.2).sum = c * (l.map fun p ↦ p.1 * p.2).sum ∧
      (l.map fun p ↦ c * p.1).sum = c * (l.map Prod.fst).sum := by
  induction l with
  | nil => simp
  | cons p l ih =>
    obtain ⟨hv, hw⟩ := ih
    simp only [List.map_cons, List.sum_cons]
    rw [hv, hw]
    constructor <;> ring

/-- The unit of the weights does not matter. -/
theorem meanOf_scaled {c : K} (hc : c ≠ 0) (l : List (K × K)) :
    meanOf (l.map fun p ↦ (c * p.1, p.2)) = meanOf l := by
  obtain ⟨hv, hw⟩ := sum_map_scaled c l
  have hvalues : (l.map fun p ↦ (c * p.1, p.2)).map (fun p ↦ p.1 * p.2) = l.map fun p ↦ c * p.1 * p.2 := by
    rw [List.map_map]
    rfl
  have hweights : (l.map fun p ↦ (c * p.1, p.2)).map Prod.fst = l.map fun p ↦ c * p.1 := by
    rw [List.map_map]
    rfl
  rw [meanOf, hvalues, hweights, hv, hw, mul_div_mul_left _ _ hc, meanOf]

theorem meanOf_neg (l : List (K × K)) : meanOf (l.map fun p ↦ (p.1, -p.2)) = -meanOf l := by
  have hvalues : ((l.map fun p ↦ (p.1, -p.2)).map fun p ↦ p.1 * p.2).sum = -(l.map fun p ↦ p.1 * p.2).sum := by
    induction l with
    | nil => simp
    | cons p l ih =>
      simp only [List.map_cons, List.sum_cons] at ih ⊢
      rw [ih]
      ring
  have hweights : (l.map fun p ↦ (p.1, -p.2)).map Prod.fst = l.map Prod.fst := by
    rw [List.map_map]
    rfl
  rw [meanOf, hvalues, hweights, neg_div, meanOf]

section Ordered

variable [LinearOrder K] [IsStrictOrderedRing K] {l : List (K × K)}

theorem weights_nonneg (hw : ∀ p ∈ l, 0 < p.1) : 0 ≤ (l.map Prod.fst).sum := by
  induction l with
  | nil => simp
  | cons p l ih =>
    obtain ⟨hp, hl⟩ := List.forall_mem_cons.mp hw
    have h := ih hl
    rw [List.map_cons, List.sum_cons]
    linarith

theorem weights_pos (hw : ∀ p ∈ l, 0 < p.1) (hne : l ≠ []) : 0 < (l.map Prod.fst).sum := by
  cases l with
  | nil => exact absurd rfl hne
  | cons p l =>
    obtain ⟨hp, hl⟩ := List.forall_mem_cons.mp hw
    have h := weights_nonneg hl
    rw [List.map_cons, List.sum_cons]
    linarith

theorem mul_weights_le {lo : K} (hw : ∀ p ∈ l, 0 < p.1) (h : ∀ p ∈ l, lo ≤ p.2) :
    lo * (l.map Prod.fst).sum ≤ (l.map fun p ↦ p.1 * p.2).sum := by
  induction l with
  | nil => simp
  | cons p l ih =>
    obtain ⟨hp, hl⟩ := List.forall_mem_cons.mp hw
    obtain ⟨hlo, hll⟩ := List.forall_mem_cons.mp h
    have hrest := ih hl hll
    have hmul := mul_le_mul_of_nonneg_left hlo hp.le
    simp only [List.map_cons, List.sum_cons]
    rw [mul_add]
    linarith [mul_comm lo p.1]

theorem le_meanOf {lo : K} (hw : ∀ p ∈ l, 0 < p.1) (hne : l ≠ []) (h : ∀ p ∈ l, lo ≤ p.2) : lo ≤ meanOf l := by
  rw [meanOf, le_div_iff₀ (weights_pos hw hne)]
  exact mul_weights_le hw h

theorem meanOf_le {hi : K} (hw : ∀ p ∈ l, 0 < p.1) (hne : l ≠ []) (h : ∀ p ∈ l, p.2 ≤ hi) : meanOf l ≤ hi := by
  rw [← neg_le_neg_iff, ← meanOf_neg]
  apply le_meanOf
  · exact List.forall_mem_map.mpr hw
  · exact fun he ↦ hne (List.map_eq_nil_iff.mp he)
  · exact List.forall_mem_map.mpr fun p hp ↦ neg_le_neg (h p hp)

end Ordered

section Extremes

variable {α κ : Type} [LinearOrder κ] {l : List α}

theorem exists_least (f : α → κ) (h : l ≠ []) : ∃ a ∈ l, ∀ b ∈ l, f a ≤ f b := by
  obtain ⟨a, ha, hle⟩ := Set.exists_min_image _ f l.finite_toSet (List.exists_mem_of_ne_nil l h)
  exact ⟨a, ha, hle⟩

theorem exists_greatest (f : α → κ) (h : l ≠ []) : ∃ a ∈ l, ∀ b ∈ l, f b ≤ f a :=
  @exists_least α κᵒᵈ _ l f h

end Extremes

end SplitFleet.Lib
