import Mathlib.Logic.Function.Basic

set_option autoImplicit false

namespace SplitFleet.Lib

variable {α β : Type}

/-- A collection that holds exactly the points which `f` sends into `P`. -/
def Fibre (member : α → Prop) (f : α → β) (P : β → Prop) : Prop := ∀ a, member a ↔ P (f a)

namespace Fibre

variable [DecidableEq α] {member member' : α → Prop} {f : α → β} {P Q : β → Prop} {a : α} {b : β}

theorem enter (h : Fibre member f P) (hb : P b) (hm : ∀ x, member' x ↔ x = a ∨ member x) :
    Fibre member' (Function.update f a b) P := by
  intro x
  rw [hm x]
  by_cases hx : x = a
  · subst hx
    simp [hb]
  · rw [Function.update_of_ne hx, ← h x]
    exact or_iff_right hx

theorem leave (h : Fibre member f P) (hb : ¬ P b) (hm : ∀ x, member' x ↔ x ≠ a ∧ member x) :
    Fibre member' (Function.update f a b) P := by
  intro x
  rw [hm x]
  by_cases hx : x = a
  · subst hx
    simp [hb]
  · rw [Function.update_of_ne hx, ← h x]
    exact and_iff_right hx

theorem stay (h : Fibre member f P) (hb : P b ↔ P (f a)) :
    Fibre member (Function.update f a b) P := by
  intro x
  by_cases hx : x = a
  · subst hx
    rw [Function.update_self, hb]
    exact h x
  · rw [Function.update_of_ne hx]
    exact h x

omit [DecidableEq α] in
/-- Collections over disjoint conditions are disjoint. -/
theorem disjoint (h : Fibre member f P) (h' : Fibre member' f Q) (hPQ : ∀ b, P b → ¬ Q b) (x : α) :
    member x → ¬ member' x := by
  rw [h x, h' x]
  exact hPQ (f x)

end Fibre

end SplitFleet.Lib
