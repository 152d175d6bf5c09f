import Mathlib.Algebra.BigOperators.Group.List.Basic
import Mathlib.Algebra.Order.Ring.Rat
import Mathlib.Data.List.Perm.Subperm

set_option autoImplicit false

namespace SplitFleet.Lib

theorem nodup_of_subperm {α : Type} {l l' : List α} (h : l.Subperm l') (hn : l'.Nodup) : l.Nodup := by
  obtain ⟨u, hu, hsub⟩ := h
  exact hu.nodup_iff.mp (hsub.nodup hn)

theorem map_fst_zip_sublist {α β : Type} (as : List α) (bs : List β) : ((as.zip bs).map Prod.fst).Sublist as := by
  induction as generalizing bs with
  | nil => exact List.Sublist.refl _
  | cons a as ih =>
    cases bs with
    | nil => exact List.nil_sublist _
    | cons b bs => exact (ih bs).cons_cons a

/-- A generator of draws with state `σ`. -/
structure Rng (σ : Type) where
  random : σ → ℚ × σ
  /-- `randrange(n)` of a positive `n`. -/
  randrange : (n : ℕ) → 0 < n → σ → Fin n × σ
  /-- `sample(items, k)` of at most as many as there are. -/
  sample : {α : Type} → List α → ℕ → σ → List α × σ
  sample_length : ∀ {α : Type} (l : List α) (k : ℕ) (g : σ), k ≤ l.length → (sample l k g).1.length = k
  sample_subperm : ∀ {α : Type} (l : List α) (k : ℕ) (g : σ), k ≤ l.length → (sample l k g).1.Subperm l

/-- The first index where the running sum reaches the threshold, or the last one. -/
def crossing (threshold : ℚ) : ℚ → List ℚ → ℕ
  | _, [] => 0
  | _, [_] => 0
  | running, w :: v :: ws =>
    if threshold ≤ running + w then 0 else crossing threshold (running + w) (v :: ws) + 1

theorem crossing_lt (threshold running : ℚ) {weights : List ℚ} (h : 0 < weights.length) :
    crossing threshold running weights < weights.length := by
  induction weights generalizing running with
  | nil => cases h
  | cons w ws ih =>
    cases ws with
    | nil => exact Nat.one_pos
    | cons v ws =>
      have hrest := ih (running + w) (Nat.succ_pos _)
      rw [crossing]
      split_ifs
      · exact Nat.succ_pos _
      · simpa using hrest

theorem crossing_map_lt {α : Type} (threshold : ℚ) {pool : List (α × ℚ)} (h : 0 < pool.length) :
    crossing threshold 0 (pool.map Prod.snd) < pool.length := by
  have hlen : (pool.map Prod.snd).length = pool.length := List.length_map _
  have hlt := crossing_lt threshold 0 (hlen ▸ h)
  rwa [hlen] at hlt

variable {σ α : Type} (R : Rng σ)

/-- An index of the pool, drawn by the weights. -/
def drawIndex (pool : List (α × ℚ)) (h : 0 < pool.length) (g : σ) : Fin pool.length × σ :=
  if (pool.map Prod.snd).sum ≤ 0 then R.randrange pool.length h g
  else
    let (u, g') := R.random g
    (⟨crossing (u * (pool.map Prod.snd).sum) 0 (pool.map Prod.snd), crossing_map_lt _ h⟩, g')

/-- Draws without replacement, until the pool is empty. -/
def drawAll : ℕ → List (α × ℚ) → σ → List α × σ
  | 0, _, g => ([], g)
  | n + 1, pool, g =>
    if h : 0 < pool.length then
      let (i, g') := drawIndex R pool h g
      let (rest, g'') := drawAll n (pool.eraseIdx i) g'
      (pool[i].1 :: rest, g'')
    else ([], g)

theorem drawAll_succ (n : ℕ) {pool : List (α × ℚ)} (h : 0 < pool.length) (g : σ) :
    (drawAll R (n + 1) pool g).1 = pool[(drawIndex R pool h g).1].1 ::
      (drawAll R n (pool.eraseIdx (drawIndex R pool h g).1) (drawIndex R pool h g).2).1 := by
  rw [drawAll, dif_pos h]

theorem drawAll_length (n : ℕ) {pool : List (α × ℚ)} (h : n ≤ pool.length) (g : σ) :
    (drawAll R n pool g).1.length = n := by
  induction n generalizing pool g with
  | zero => rfl
  | succ n ih =>
    have hpos : 0 < pool.length := by omega
    have hrest : n ≤ (pool.eraseIdx (drawIndex R pool hpos g).1).length := by
      rw [List.length_eraseIdx_of_lt (drawIndex R pool hpos g).1.isLt]
      omega
    rw [drawAll_succ R n hpos, List.length_cons, ih hrest]

/-- What is drawn comes from the pool, each item once. -/
theorem drawAll_subperm (n : ℕ) (pool : List (α × ℚ)) (g : σ) :
    (drawAll R n pool g).1.Subperm (pool.map Prod.fst) := by
  induction n generalizing pool g with
  | zero => exact List.nil_subperm
  | succ n ih =>
    by_cases hpos : 0 < pool.length
    · have hperm := List.getElem_cons_eraseIdx_perm (drawIndex R pool hpos g).1.isLt
      have hrest := ih (pool.eraseIdx (drawIndex R pool hpos g).1) (drawIndex R pool hpos g).2
      rw [drawAll_succ R n hpos]
      have hcons := (List.subperm_cons pool[(drawIndex R pool hpos g).1].1).mpr hrest
      exact hcons.trans (hperm.map Prod.fst).subperm
    · rw [drawAll, dif_neg hpos]
      exact List.nil_subperm

end SplitFleet.Lib
