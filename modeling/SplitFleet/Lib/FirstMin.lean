import Mathlib.Data.List.Induction
import Mathlib.Order.Lattice
import Mathlib.Tactic.Common

set_option autoImplicit false

namespace SplitFleet.Lib

/-- `min(items, key=…)`, where `lt a b` says that the key of `a` is below that of `b`: the first of
the items with the least key. -/
def firstMin {α : Type} (lt : α → α → Bool) : List α → Option α
  | [] => none
  | a :: l => some (l.foldl (fun best x ↦ if lt x best then x else best) a)

section Key

variable {α κ : Type} [LinearOrder κ] (key : α → κ)

theorem foldl_min_split (l : List α) (a : α) :
    ∃ pre post, a :: l = pre ++ l.foldl (fun best x ↦ if decide (key x < key best) then x else best) a :: post ∧
      (∀ x ∈ pre, key (l.foldl (fun best x ↦ if decide (key x < key best) then x else best) a) < key x) ∧
      ∀ x ∈ post, key (l.foldl (fun best x ↦ if decide (key x < key best) then x else best) a) ≤ key x := by
  induction l using List.reverseRecOn with
  | nil => exact ⟨[], [], rfl, by simp, by simp⟩
  | append_singleton l b ih =>
    rw [List.foldl_append, List.foldl_cons, List.foldl_nil]
    generalize l.foldl (fun best x ↦ if decide (key x < key best) then x else best) a = m at ih ⊢
    obtain ⟨pre, post, he, hpre, hpost⟩ := ih
    by_cases hb : key b < key m
    · -- the new item is below everything before it
      rw [if_pos (decide_eq_true hb)]
      refine ⟨a :: l, [], rfl, ?_, by simp⟩
      intro x hx
      rw [he, List.mem_append, List.mem_cons] at hx
      rcases hx with hx | rfl | hx
      · exact hb.trans (hpre x hx)
      · exact hb
      · exact hb.trans_le (hpost x hx)
    · rw [if_neg (by simpa using hb)]
      refine ⟨pre, post ++ [b], ?_, hpre, ?_⟩
      · rw [← List.cons_append, he, List.append_assoc, List.cons_append]
      · intro x hx
        rcases List.mem_append.mp hx with hx | hx
        · exact hpost x hx
        · rw [List.mem_singleton.mp hx]
          exact not_lt.mp hb

/-- Everything before the first minimum is above it, and nothing after it is below it. -/
theorem firstMin_split {l : List α} {m : α}
    (h : firstMin (fun a b ↦ decide (key a < key b)) l = some m) :
    ∃ pre post, l = pre ++ m :: post ∧ (∀ x ∈ pre, key m < key x) ∧ ∀ x ∈ post, key m ≤ key x := by
  cases l with
  | nil => cases h
  | cons a l =>
    cases h
    exact foldl_min_split key l a

theorem firstMin_isSome {lt : α → α → Bool} {l : List α} (h : l ≠ []) : ∃ m, firstMin lt l = some m := by
  cases l with
  | nil => exact absurd rfl h
  | cons a l => exact ⟨_, rfl⟩

/-- In a list sorted by `rank`, the first minimum of `key` has the least rank among the minima. -/
theorem firstMin_least {ρ : Type} [LinearOrder ρ] (rank : α → ρ) {l : List α} {m : α}
    (hl : l.Pairwise fun a b ↦ rank a ≤ rank b)
    (h : firstMin (fun a b ↦ decide (key a < key b)) l = some m) :
    m ∈ l ∧ ∀ x ∈ l, key m ≤ key x ∧ (key x = key m → rank m ≤ rank x) := by
  obtain ⟨pre, post, rfl, hpre, hpost⟩ := firstMin_split key h
  refine ⟨by simp, fun x hx ↦ ?_⟩
  rw [List.mem_append, List.mem_cons] at hx
  rcases hx with hx | rfl | hx
  · exact ⟨(hpre x hx).le, fun he ↦ absurd he (hpre x hx).ne'⟩
  · exact ⟨le_rfl, fun _ ↦ le_rfl⟩
  · have hm := List.pairwise_cons.mp (List.pairwise_append.mp hl).2.1
    exact ⟨hpost x hx, fun _ ↦ hm.1 x hx⟩

end Key

end SplitFleet.Lib
