import Mathlib.Data.Finset.Card

set_option autoImplicit false

namespace SplitFleet.Lib

variable {α : Type} [DecidableEq α]

/-- A counting semaphore beside the set of those that hold one of its permits. -/
structure Permits (α : Type) where
  capacity : ℕ
  free : ℕ
  holders : Finset α

namespace Permits

/-- What may happen to the permits at a time when those in `may` may give theirs back: nothing, one is
granted, one is given back, or all are renewed. -/
inductive Move (may : α → Prop) (p : Permits α) : Permits α → Prop
  | keep : Move may p p
  | grant (a : α) (ha : a ∉ p.holders) (hf : p.free ≠ 0) :
      Move may p ⟨p.capacity, p.free - 1, insert a p.holders⟩
  | giveBack (a : α) (ha : a ∈ p.holders) (hm : may a) :
      Move may p ⟨p.capacity, p.free + 1, p.holders.erase a⟩
  | renew (hm : ∀ a ∈ p.holders, may a) : Move may p ⟨p.capacity, p.capacity, ∅⟩

def Conserved (p : Permits α) : Prop := p.free + p.holders.card = p.capacity

theorem Conserved.move {may : α → Prop} {p p' : Permits α} (h : p.Conserved) (hm : p.Move may p') :
    p'.Conserved := by
  unfold Conserved at *
  cases hm with
  | keep => exact h
  | grant a ha hf =>
    change p.free - 1 + (insert a p.holders).card = p.capacity
    rw [Finset.card_insert_of_notMem ha]
    omega
  | giveBack a ha hm =>
    have hpos : 0 < p.holders.card := Finset.card_pos.mpr ⟨a, ha⟩
    change p.free + 1 + (p.holders.erase a).card = p.capacity
    rw [Finset.card_erase_of_mem ha]
    omega
  | renew hm => simp

end Permits

end SplitFleet.Lib
