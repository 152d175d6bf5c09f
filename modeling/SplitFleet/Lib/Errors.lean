import SplitFleet.Lib.Python

set_option autoImplicit false

namespace SplitFleet.Lib

variable {α β : Type} {P : PyError → Prop} {x : Except PyError α}

/-- Every exception that a computation raises satisfies `P`. -/
def OnlyRaises (P : PyError → Prop) (x : Except PyError α) : Prop := ∀ e, x = .error e → P e

namespace OnlyRaises

theorem ok {a : α} : OnlyRaises P (.ok a) := fun _ h ↦ nomatch h

theorem error {e : PyError} (h : P e) : OnlyRaises P (.error e : Except PyError α) := by
  intro e' he
  cases he
  exact h

theorem require {c : Prop} [Decidable c] {e : PyError} (h : P e) : OnlyRaises P (Lib.require c e) := by
  unfold Lib.require
  split
  · exact ok
  · exact error h

theorem bind {f : α → Except PyError β} (hx : OnlyRaises P x) (hf : ∀ a, x = .ok a → OnlyRaises P (f a)) :
    OnlyRaises P (x >>= f) := by
  cases x with
  | ok a => exact hf a rfl
  | error e =>
    intro e' he
    cases he
    exact hx e rfl

theorem foldlM {f : β → α → Except PyError β} {l : List α} (h : ∀ b, ∀ a ∈ l, OnlyRaises P (f b a)) (b : β) :
    OnlyRaises P (l.foldlM f b) := by
  induction l generalizing b with
  | nil => exact ok
  | cons a l ih =>
    rw [List.foldlM_cons]
    exact bind (h b a List.mem_cons_self) fun b' _ ↦ ih (fun b a ha ↦ h b a (List.mem_cons_of_mem _ ha)) b'

theorem mapM {f : α → Except PyError β} {l : List α} (h : ∀ a ∈ l, OnlyRaises P (f a)) :
    OnlyRaises P (l.mapM f) := by
  induction l with
  | nil => exact ok
  | cons a l ih =>
    rw [List.mapM_cons]
    refine bind (h a List.mem_cons_self) fun b _ ↦ bind (ih fun a ha ↦ h a (List.mem_cons_of_mem _ ha)) fun _ _ ↦ ?_
    exact ok

end OnlyRaises

end SplitFleet.Lib
