import Mathlib.Tactic.Common

set_option autoImplicit false

namespace SplitFleet.Lib

variable {σ α : Type} {step : σ → α → Option σ} {allowed : σ → α → Prop} {s₀ : σ}

/-- The states that steps lead to, each step allowed where it is taken. -/
inductive Reaches (step : σ → α → Option σ) (allowed : σ → α → Prop) (s₀ : σ) : σ → Prop
  | start : Reaches step allowed s₀ s₀
  | next {s t : σ} (a : α) (h : Reaches step allowed s₀ s) (ha : allowed s a) (hs : step s a = some t) :
      Reaches step allowed s₀ t

namespace Reaches

theorem invariant {P : σ → Prop} (h₀ : P s₀) (hstep : ∀ s a t, P s → allowed s a → step s a = some t → P t)
    {s : σ} (h : Reaches step allowed s₀ s) : P s := by
  induction h with
  | start => exact h₀
  | next a _ ha hs ih => exact hstep _ a _ ih ha hs

theorem mono {allowed' : σ → α → Prop} (hmono : ∀ s a, allowed s a → allowed' s a) {s : σ}
    (h : Reaches step allowed s₀ s) : Reaches step allowed' s₀ s := by
  induction h with
  | start => exact .start
  | next a _ ha hs ih => exact .next a ih (hmono _ a ha) hs

/-- A list of steps that are allowed anywhere. -/
theorem foldlM {l : List α} {s t : σ} (h : Reaches step allowed s₀ s) (hl : ∀ a ∈ l, ∀ s, allowed s a)
    (hrun : l.foldlM step s = some t) : Reaches step allowed s₀ t := by
  induction l generalizing s with
  | nil =>
    cases hrun
    exact h
  | cons a l ih =>
    rw [List.foldlM_cons] at hrun
    obtain ⟨u, hu, hrun⟩ := Option.bind_eq_some_iff.mp hrun
    exact ih (.next a h (hl a List.mem_cons_self s) hu) (fun b hb ↦ hl b (List.mem_cons_of_mem a hb)) hrun

end Reaches

end SplitFleet.Lib
