import SplitFleet.OortSelection
import Mathlib.Algebra.Order.BigOperators.Group.List

set_option autoImplicit false

namespace SplitFleet.ClientSelection

open Lib

variable {σ α : Type} (R : Rng σ)

/-- The pool and the generator before each draw. -/
def turns : ℕ → List (α × ℚ) → σ → List (List (α × ℚ) × σ)
  | 0, _, _ => []
  | n + 1, pool, g =>
    if h : 0 < pool.length then
      (pool, g) :: turns n (pool.eraseIdx (drawIndex R pool h g).1) (drawIndex R pool h g).2
    else []

/-- What the draw of a turn takes. -/
def picked (t : List (α × ℚ) × σ) : Option (α × ℚ) :=
  if h : 0 < t.1.length then some (t.1.get (drawIndex R t.1 h t.2).1) else none

/-- No item of weight zero goes before one of a positive weight. -/
def Fair (t : List (α × ℚ) × σ) : Prop := (∃ p ∈ t.1, 0 < p.2) → ∃ p, picked R t = some p ∧ 0 < p.2

/-- The draw is exactly 0, and the first item of the pool has no weight while another one has. -/
def ZeroDraw (t : List (α × ℚ) × σ) : Prop :=
  (R.random t.2).1 = 0 ∧ (∃ p ∈ t.1, 0 < p.2) ∧ ∃ p, t.1.head? = some p ∧ p.2 = 0

theorem turns_succ (n : ℕ) {pool : List (α × ℚ)} (h : 0 < pool.length) (g : σ) : turns R (n + 1) pool g =
    (pool, g) :: turns R n (pool.eraseIdx (drawIndex R pool h g).1) (drawIndex R pool h g).2 := by
  rw [turns, dif_pos h]

theorem drawAll_eq_picked (n : ℕ) (pool : List (α × ℚ)) (g : σ) :
    (drawAll R n pool g).1 = (turns R n pool g).filterMap fun t ↦ (picked R t).map Prod.fst := by
  induction n generalizing pool g with
  | zero => rfl
  | succ n ih =>
    by_cases h : 0 < pool.length
    · have hpicked : picked R (pool, g) = some pool[(drawIndex R pool h g).1] := dif_pos h
      rw [drawAll_succ R n h, turns_succ R n h, ih, List.filterMap_cons, hpicked]
      rfl
    · rw [drawAll, dif_neg h, turns, dif_neg h]
      rfl

variable {R}

/-- A property of the pools that no draw breaks holds before each one. -/
theorem turns_invariant {P : List (α × ℚ) → Prop} (hP : ∀ pool i, P pool → P (pool.eraseIdx i)) {n : ℕ}
    {pool : List (α × ℚ)} {g : σ} (h : P pool) : ∀ t ∈ turns R n pool g, P t.1 := by
  induction n generalizing pool g with
  | zero => simp [turns]
  | succ n ih =>
    by_cases hpos : 0 < pool.length
    · rw [turns_succ R n hpos]
      exact List.forall_mem_cons.mpr ⟨h, ih (hP pool _ h)⟩
    · simp [turns, hpos]

/-- A threshold strictly inside the weights is crossed at a positive one. -/
theorem crossing_pos {threshold running : ℚ} {weights : List ℚ} (hlow : running < threshold)
    (hhigh : threshold < running + weights.sum) (h : crossing threshold running weights < weights.length) :
    0 < weights[crossing threshold running weights] := by
  induction weights generalizing running with
  | nil => cases h
  | cons w ws ih =>
    cases ws with
    | nil =>
      rw [List.sum_singleton] at hhigh
      change 0 < w
      linarith
    | cons v ws =>
      by_cases hcross : threshold ≤ running + w
      · have hzero : crossing threshold running (w :: v :: ws) = 0 := by rw [crossing, if_pos hcross]
        simp only [hzero, List.getElem_cons_zero]
        linarith
      · have hnext : crossing threshold running (w :: v :: ws) =
            crossing threshold (running + w) (v :: ws) + 1 := by rw [crossing, if_neg hcross]
        rw [List.sum_cons, ← add_assoc] at hhigh
        simp only [hnext, List.getElem_cons_succ]
        exact ih (not_le.mp hcross) hhigh _

theorem crossing_zero {weights : List ℚ} (h : ∀ w ∈ weights, 0 ≤ w) : crossing 0 0 weights = 0 := by
  cases weights with
  | nil => rfl
  | cons w ws =>
    cases ws with
    | nil => rfl
    | cons v ws =>
      rw [crossing, if_pos]
      rw [zero_add]
      exact h w List.mem_cons_self

theorem sum_pos_iff {pool : List (α × ℚ)} (h : ∀ p ∈ pool, 0 ≤ p.2) :
    0 < (pool.map Prod.snd).sum ↔ ∃ p ∈ pool, 0 < p.2 := by
  induction pool with
  | nil => simp
  | cons p pool ih =>
    obtain ⟨hp, hpool⟩ := List.forall_mem_cons.mp h
    have hrest : 0 ≤ (pool.map Prod.snd).sum := by
      apply List.sum_nonneg
      simpa using fun b a hab ↦ hpool (a, b) hab
    rw [List.map_cons, List.sum_cons, List.exists_mem_cons_iff, ← ih hpool]
    constructor
    · intro hsum
      by_contra hnone
      obtain ⟨hfirst, hothers⟩ := not_or.mp hnone
      linarith
    · rintro (hpos | hpos)
      · linarith
      · linarith

/-- One draw is fair unless it is at 0 with a first item of weight zero. -/
theorem fair_iff (hrandom : ∀ g, 0 ≤ (R.random g).1 ∧ (R.random g).1 < 1) {t : List (α × ℚ) × σ}
    (hweights : ∀ p ∈ t.1, 0 ≤ p.2) : Fair R t ↔ ¬ ZeroDraw R t := by
  obtain ⟨pool, g⟩ := t
  by_cases hsome : ∃ p ∈ pool, 0 < p.2
  · have hsum := (sum_pos_iff hweights).mpr hsome
    have hpos : 0 < pool.length := List.length_pos_of_mem hsome.choose_spec.1
    obtain ⟨hlow, hhigh⟩ := hrandom g
    have hindex : ((drawIndex R pool hpos g).1 : ℕ) =
        crossing ((R.random g).1 * (pool.map Prod.snd).sum) 0 (pool.map Prod.snd) := by
      rw [drawIndex, if_neg (not_le.mpr hsum)]
    have hpicked : picked R (pool, g) = some pool[(drawIndex R pool hpos g).1] := dif_pos hpos
    obtain hzero | hdraw := hlow.eq_or_lt
    · have hfirst : ((drawIndex R pool hpos g).1 : ℕ) = 0 := by
        rw [hindex, ← hzero, zero_mul]
        apply crossing_zero
        simpa using fun w a haw ↦ hweights (a, w) haw
      have hhead : pool.head? = some pool[(drawIndex R pool hpos g).1] := by
        rw [List.head?_eq_getElem?, List.getElem?_eq_getElem hpos]
        simp only [Fin.getElem_fin, hfirst]
      have hnonneg := hweights _ (List.getElem_mem (drawIndex R pool hpos g).1.isLt)
      constructor
      · rintro hfair ⟨-, -, p, hp, hpzero⟩
        obtain ⟨q, hq, hqpos⟩ := hfair hsome
        rw [hhead, ← hpicked, hq] at hp
        rw [Option.some.inj hp, hpzero] at hqpos
        exact lt_irrefl 0 hqpos
      · intro hnot _
        refine ⟨_, hpicked, lt_of_le_of_ne hnonneg fun hpzero ↦ hnot ⟨hzero.symm, hsome, _, hhead, hpzero.symm⟩⟩
    · have hthreshold : 0 < (R.random g).1 * (pool.map Prod.snd).sum := mul_pos hdraw hsum
      have hinside : (R.random g).1 * (pool.map Prod.snd).sum < 0 + (pool.map Prod.snd).sum := by
        rw [zero_add]
        exact mul_lt_of_lt_one_left hsum hhigh
      have hcross := crossing_pos hthreshold hinside (crossing_map_lt _ hpos |>.trans_eq (List.length_map _).symm)
      refine iff_of_true (fun _ ↦ ⟨_, hpicked, ?_⟩) fun h ↦ hdraw.ne' h.1
      simpa only [Fin.getElem_fin, hindex, List.getElem_map] using hcross
  · exact iff_of_true (fun h ↦ absurd h hsome) fun h ↦ hsome h.2.1

namespace OortSelector

/-- The turns of the loop. -/
def weightedTurns (R : Rng σ) (items : List String) (weights : List ℚ) (count : ℕ) (g : σ) :
    List (List (String × ℚ) × σ) :=
  turns R (min count items.length) (items.zip (weights.map (max · 0))) g

/-- `_weighted_sample_without_replacement` returns as many items as it can, each once, and takes an item of weight
zero early exactly at a draw of 0 with such an item first. -/
theorem weightedSample_fair_iff (hrandom : ∀ g, 0 ≤ (R.random g).1 ∧ (R.random g).1 < 1) {items : List String}
    {weights : List ℚ} (hlength : weights.length = items.length) (count : ℕ) (g : σ) :
    (((weightedSample R items weights count g).1.length = min count items.length ∧
        (weightedSample R items weights count g).1.Subperm items) ∧
      (weightedSample R items weights count g).1 =
        (weightedTurns R items weights count g).filterMap (fun t ↦ (picked R t).map Prod.fst) ∧
      ∀ t ∈ weightedTurns R items weights count g, Fair R t) ↔
    ∀ t ∈ weightedTurns R items weights count g, ¬ ZeroDraw R t := by
  have hzip : min count items.length ≤ (items.zip (weights.map (max · 0))).length := by
    rw [List.length_zip, List.length_map, hlength, Nat.min_self]
    exact min_le_right _ _
  have hpool : ∀ p ∈ items.zip (weights.map (max · 0)), 0 ≤ p.2 := by
    intro p hp
    obtain ⟨w, -, hw⟩ := List.mem_map.mp (List.of_mem_zip hp).2
    exact hw ▸ le_max_right w 0
  have hnonneg := @turns_invariant σ String R (fun pool ↦ ∀ p ∈ pool, 0 ≤ p.2)
    (fun pool i h p hp ↦ h p (List.mem_of_mem_eraseIdx hp)) (min count items.length) _ g hpool
  have hall : (∀ t ∈ weightedTurns R items weights count g, Fair R t) ↔
      ∀ t ∈ weightedTurns R items weights count g, ¬ ZeroDraw R t :=
    forall₂_congr fun t ht ↦ fair_iff hrandom (hnonneg t ht)
  rw [← hall]
  constructor
  · exact fun h ↦ h.2.2
  · exact fun h ↦ ⟨⟨drawAll_length R _ hzip g, weightedSample_subperm items weights count g⟩,
      drawAll_eq_picked R _ _ g, h⟩

theorem weightedSample_fair_iff_first : ((weightedSample firstDraws ["a", "b"] [1, 0] 2 ()).1.length = 2 ∧
      (weightedSample firstDraws ["a", "b"] [1, 0] 2 ()).1.Subperm ["a", "b"]) ∧
    (weightedSample firstDraws ["a", "b"] [1, 0] 2 ()).1 =
      (weightedTurns firstDraws ["a", "b"] [1, 0] 2 ()).filterMap (fun t ↦ (picked firstDraws t).map Prod.fst) ∧
    ∀ t ∈ weightedTurns firstDraws ["a", "b"] [1, 0] 2 (), Fair firstDraws t := by
  have hrange : ∀ g, 0 ≤ (firstDraws.random g).1 ∧ (firstDraws.random g).1 < 1 := fun _ ↦ ⟨le_rfl, zero_lt_one⟩
  refine (@weightedSample_fair_iff Unit firstDraws hrange ["a", "b"] [1, 0] rfl 2 ()).mpr ?_
  have hturns : weightedTurns firstDraws ["a", "b"] [1, 0] 2 () = [([("a", 1), ("b", 0)], ()), ([("b", 0)], ())] := by
    decide +kernel
  rw [hturns]
  simp [ZeroDraw]

/-- A draw of 0 takes an item of weight zero. -/
theorem zero_weight_taken : ¬ ∀ (R : Rng Unit), (∀ g, 0 ≤ (R.random g).1 ∧ (R.random g).1 < 1) →
    ∀ (items : List String) (weights : List ℚ), weights.length = items.length → (∀ w ∈ weights, 0 ≤ w) →
      ∀ count g, ∀ t ∈ weightedTurns R items weights count g, Fair R t := by
  intro hall
  have hturns : ([("a", 0), ("b", 1)], ()) ∈ weightedTurns firstDraws ["a", "b"] [0, 1] 1 () := by decide +kernel
  obtain ⟨p, hp, hpos⟩ := hall firstDraws (fun _ ↦ ⟨le_rfl, zero_lt_one⟩) ["a", "b"] [0, 1] rfl (by simp) 1 () _ hturns
    ⟨("b", 1), by simp, zero_lt_one⟩
  have hfirst : picked firstDraws ([("a", (0 : ℚ)), ("b", 1)], ()) = some ("a", 0) := by decide +kernel
  rw [hfirst] at hp
  cases hp
  exact lt_irrefl 0 hpos

end OortSelector

end SplitFleet.ClientSelection
