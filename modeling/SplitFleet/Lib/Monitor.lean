import Mathlib.Algebra.BigOperators.Ring.Finset
import Mathlib.Data.Fintype.BigOperators

set_option autoImplicit false

namespace SplitFleet.Lib

variable {T κ : Type}

/-- Who waits on a condition variable, what for, and whether it has been notified since. -/
abbrev Room (T κ : Type) := T → Option (κ × Bool)

namespace Room

def empty : Room T κ := fun _ ↦ none

def notifyAll (r : Room T κ) : Room T κ := fun t ↦ (r t).map fun p ↦ (p.1, true)

def waitsFor (r : Room T κ) (k : κ) (t : T) : Prop := ∃ notified, r t = some (k, notified)

/-- Nobody waits for something that holds without having been notified. -/
def NoneLost (holds : κ → Prop) (r : Room T κ) : Prop := ∀ t k, r t = some (k, false) → ¬ holds k

theorem noneLost_notifyAll (holds : κ → Prop) (r : Room T κ) : r.notifyAll.NoneLost holds := by
  intro t k h
  obtain ⟨p, -, hp⟩ := Option.map_eq_some_iff.mp h
  cases hp

theorem notifyAll_eq_none_iff {r : Room T κ} {t : T} : r.notifyAll t = none ↔ r t = none :=
  Option.map_eq_none_iff

theorem NoneLost.mono {holds holds' : κ → Prop} {r : Room T κ} (h : r.NoneLost holds)
    (hmono : ∀ k, holds' k → holds k) : r.NoneLost holds' := fun t k hr hk ↦ h t k hr (hmono k hk)

section Update

variable [DecidableEq T]

/-- Somebody begins to wait, or stops, for something that does not hold or is notified of it. -/
theorem NoneLost.update {holds : κ → Prop} {r : Room T κ} (h : r.NoneLost holds) {t : T} {x : Option (κ × Bool)}
    (hx : ∀ k, x = some (k, false) → ¬ holds k) : Room.NoneLost holds (Function.update r t x) := by
  intro u k hu
  by_cases hut : u = t
  · subst hut
    rw [Function.update_self] at hu
    exact hx k hu
  · rw [Function.update_of_ne hut] at hu
    exact h u k hu

end Update

section Count

variable [Fintype T] [DecidableEq κ]

/-- The number of those who wait for something. -/
def count (r : Room T κ) (k : κ) : ℕ := (Finset.univ.filter fun t ↦ (r t).map Prod.fst = some k).card

theorem count_notifyAll (r : Room T κ) (k : κ) : r.notifyAll.count k = r.count k := by
  unfold count notifyAll
  congr 1
  refine Finset.filter_congr fun t _ ↦ ?_
  rw [Option.map_map]
  rfl

theorem count_update [DecidableEq T] (r : Room T κ) (k : κ) (t : T) (x : Option (κ × Bool)) :
    count (Function.update r t x) k + (if (r t).map Prod.fst = some k then 1 else 0) =
      r.count k + if x.map Prod.fst = some k then 1 else 0 := by
  unfold count
  rw [Finset.card_filter, Finset.card_filter, Fintype.sum_eq_add_sum_compl t, Fintype.sum_eq_add_sum_compl t]
  have hrest : ∑ u ∈ {t}ᶜ, (if (Function.update r t x u).map Prod.fst = some k then 1 else 0) =
      ∑ u ∈ {t}ᶜ, if (r u).map Prod.fst = some k then 1 else 0 := by
    refine Finset.sum_congr rfl fun u hu ↦ ?_
    rw [Finset.mem_compl, Finset.mem_singleton] at hu
    rw [Function.update_of_ne hu]
  rw [hrest, Function.update_self]
  omega

end Count

end Room

end SplitFleet.Lib
