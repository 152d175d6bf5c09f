import Mathlib.Logic.Relation
import SplitFleet.Lib.Python

set_option autoImplicit false

namespace SplitFleet.Lib

variable {σ ε : Type}

/-- `while cond: body`. `none` is a loop that is not through within its fuel. -/
def whileLoop (cond : σ → Bool) (body : σ → Except ε σ) : ℕ → σ → Option (Except ε σ)
  | 0, s => if cond s then none else some (.ok s)
  | fuel + 1, s =>
    if cond s then
      match body s with
      | .ok t => whileLoop cond body fuel t
      | .error e => some (.error e)
    else some (.ok s)

/-- `for a in l: body`, where each body can run out of fuel. -/
def forLoop {α : Type} (body : α → σ → Option (Except ε σ)) : List α → σ → Option (Except ε σ)
  | [], s => some (.ok s)
  | a :: l, s =>
    match body a s with
    | some (.ok t) => forLoop body l t
    | r => r

variable {cond : σ → Bool} {body : σ → Except ε σ} {R : σ → σ → Prop}

/-- A loop whose body returns, keeps an invariant and makes a measure smaller is through after as many turns as the
measure says. `R` is what every turn does. -/
theorem whileLoop_total (I : σ → Prop) (measure : σ → ℕ)
    (hbody : ∀ s, I s → cond s = true → ∃ t, body s = .ok t ∧ R s t ∧ I t ∧ measure t < measure s)
    {fuel : ℕ} {s : σ} (hs : I s) (hfuel : measure s ≤ fuel) :
    ∃ t, whileLoop cond body fuel s = some (.ok t) ∧ Relation.ReflTransGen R s t ∧ I t ∧ cond t = false := by
  induction fuel generalizing s with
  | zero =>
    cases hc : cond s with
    | true =>
      obtain ⟨t, -, -, -, hlt⟩ := hbody s hs hc
      omega
    | false =>
      refine ⟨s, ?_, .refl, hs, hc⟩
      rw [whileLoop, hc]
      rfl
  | succ fuel ih =>
    cases hc : cond s with
    | true =>
      obtain ⟨t, ht, hr, hi, hlt⟩ := hbody s hs hc
      obtain ⟨u, hu, hru, hi, hc'⟩ := ih hi (by omega)
      refine ⟨u, ?_, .head hr hru, hi, hc'⟩
      rw [whileLoop, hc, if_pos rfl, ht]
      exact hu
    | false =>
      refine ⟨s, ?_, .refl, hs, hc⟩
      rw [whileLoop, hc]
      rfl

/-- The rule for `forLoop`: what holds of the items that are done. -/
theorem forLoop_total {α : Type} {body : α → σ → Option (Except ε σ)} (I : List α → σ → Prop)
    (hbody : ∀ done a s, I done s →
      ∃ t, body a s = some (.ok t) ∧ Relation.ReflTransGen R s t ∧ I (done ++ [a]) t)
    (done l : List α) {s : σ} (hs : I done s) :
    ∃ t, forLoop body l s = some (.ok t) ∧ Relation.ReflTransGen R s t ∧ I (done ++ l) t := by
  induction l generalizing done s with
  | nil =>
    rw [List.append_nil]
    exact ⟨s, rfl, .refl, hs⟩
  | cons a l ih =>
    obtain ⟨t, ht, hr, hi⟩ := hbody done a s hs
    obtain ⟨u, hu, hru, hi⟩ := ih (done ++ [a]) hi
    refine ⟨u, ?_, hr.trans hru, ?_⟩
    · rw [forLoop, ht]
      exact hu
    · rw [List.append_assoc] at hi
      exact hi

end SplitFleet.Lib
