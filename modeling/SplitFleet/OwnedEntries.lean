import SplitFleet.Lib.Lists
import SplitFleet.Lib.MeanOf
import SplitFleet.OwnedValidation

set_option autoImplicit false

namespace SplitFleet

/-- The numbers of a kind of dtype. -/
def Kind.Admits : Kind → ℚ → Prop
  | .float, _ => True
  | .int, q => ∃ n : ℤ, q = n
  | .uint, q => ∃ n : ℕ, q = n
  | .bool, q => q = 0 ∨ q = 1

/-- An array has as many entries as its shape says, each a number of its dtype. -/
structure Tensor.WellFormed (t : Tensor) : Prop where
  length : t.data.length = t.shape.prod
  admits : ∀ q ∈ t.data, t.dtype.kind.Admits q

namespace Tensor

theorem cast_of_admits {d : DType} {q : ℚ} (h : d.kind.Admits q) : cast d q = q := by
  unfold cast
  cases hk : d.kind with
  | float => rfl
  | int =>
    rw [hk] at h
    obtain ⟨n, rfl⟩ := h
    dsimp only
    rw [truncate_intCast]
  | uint =>
    rw [hk] at h
    obtain ⟨n, rfl⟩ := h
    have hn : ((n : ℕ) : ℚ) = ((n : ℤ) : ℚ) := by norm_num
    dsimp only
    rw [hn, truncate_intCast]
  | bool =>
    rw [hk] at h
    rcases h with rfl | rfl
    · exact if_pos rfl
    · exact if_neg one_ne_zero

theorem admits_zero (k : Kind) : k.Admits 0 := by
  cases k with
  | float => trivial
  | int => exact ⟨0, by norm_num⟩
  | uint => exact ⟨0, by norm_num⟩
  | bool => exact .inl rfl

/-- Rounding does not pass an integer. -/
theorem le_rint {n : ℤ} {q : ℚ} (h : (n : ℚ) ≤ q) : n ≤ rint q := by
  have hn := Int.le_floor.mpr h
  unfold rint
  split_ifs <;> omega

theorem rint_le {n : ℤ} {q : ℚ} (h : q ≤ n) : rint q ≤ n := by
  have hfloor : ⌊q⌋ ≤ n := by
    have hq := Int.floor_le q
    have : (⌊q⌋ : ℚ) ≤ n := by linarith
    exact_mod_cast this
  rcases hfloor.eq_or_lt with he | hlt
  · -- nothing is left to round up
    have hq : q - ⌊q⌋ < 1 / 2 := by
      rw [he]
      linarith
    rw [rint, if_pos hq, he]
  · unfold rint
    split_ifs <;> omega

end Tensor

namespace OwnedAggregation

open Lib StateOwnership Reassembly

variable {initial a b : List Tensor} {p j : ℕ}

/-- An entry of the array at a position of a state. -/
def entryAt (state : List Tensor) (p j : ℕ) : ℚ := (state[p]?.bind fun t ↦ t.data[j]?).getD 0

/-- The arrays of two states have the same shapes and as many entries. -/
def Congruent (a b : List Tensor) : Prop :=
  List.Forall₂ (fun x y ↦ x.shape = y.shape ∧ x.data.length = y.data.length) a b

theorem Congruent.symm (h : Congruent a b) : Congruent b a := by
  apply List.Forall₂.flip
  exact h.imp fun _ _ hxy ↦ ⟨hxy.1.symm, hxy.2.symm⟩

theorem Congruent.trans {c : List Tensor} (h : Congruent a b) (h' : Congruent b c) : Congruent a c :=
  forall₂_trans (fun _ _ _ hxy hyz ↦ ⟨hxy.1.trans hyz.1, hxy.2.trans hyz.2⟩) h h'

theorem Congruent.at (h : Congruent a b) {x y : Tensor} (hx : a[p]? = some x) (hy : b[p]? = some y) :
    x.shape = y.shape ∧ x.data.length = y.data.length := by
  obtain ⟨hpa, rfl⟩ := List.getElem?_eq_some_iff.mp hx
  obtain ⟨hpb, rfl⟩ := List.getElem?_eq_some_iff.mp hy
  exact h.get hpa hpb

theorem entryAt_zip {f : ℚ → ℚ → ℚ} (hf : f 0 0 = 0) (h : Congruent a b) (p j : ℕ) :
    entryAt (List.zipWith (Tensor.zip f) a b) p j = f (entryAt a p j) (entryAt b p j) := by
  induction h generalizing p with
  | nil => simp [entryAt, hf]
  | @cons x y xs ys hxy _ ih =>
    cases p with
    | succ p => exact ih p
    | zero =>
      obtain ⟨-, hl⟩ := hxy
      simp only [entryAt, List.zipWith_cons_cons, List.getElem?_cons_zero, Option.bind_some, Tensor.zip,
        List.getElem?_zipWith]
      by_cases hj : j < x.data.length
      · rw [List.getElem?_eq_getElem hj, List.getElem?_eq_getElem (hl ▸ hj)]
        rfl
      · rw [List.getElem?_eq_none (not_lt.mp hj), List.getElem?_eq_none (hl ▸ not_lt.mp hj)]
        simp [hf]

theorem congruent_zip {f : ℚ → ℚ → ℚ} (h : Congruent a b) : Congruent (List.zipWith (Tensor.zip f) a b) a := by
  induction h with
  | nil => exact .nil
  | @cons x y xs ys hxy _ ih =>
    refine .cons ⟨rfl, ?_⟩ ih
    rw [Tensor.zip, List.length_zipWith, ← hxy.2, min_self]

theorem entryAt_map {f : ℚ → ℚ} (hf : f 0 = 0) (d : Tensor → DType) (a : List Tensor) (p j : ℕ) :
    entryAt (a.map fun t ↦ t.mapTo (d t) f) p j = f (entryAt a p j) := by
  rw [entryAt, List.getElem?_map, entryAt]
  cases a[p]? with
  | none => exact hf.symm
  | some t =>
    simp only [Option.map_some, Option.bind_some, Tensor.mapTo, List.getElem?_map]
    cases t.data[j]? with
    | none => exact hf.symm
    | some q => rfl

theorem congruent_map (f : ℚ → ℚ) (d : Tensor → DType) (a : List Tensor) :
    Congruent (a.map fun t ↦ t.mapTo (d t) f) a := by
  induction a with
  | nil => exact .nil
  | cons t a ih => exact .cons ⟨rfl, List.length_map _⟩ ih

/-! ### Means and maxima, entry by entry -/

section Entries

variable {xs : List (List Tensor × ℚ)}

/-- The entries of one place, with the weights. -/
def column (xs : List (List Tensor × ℚ)) (p j : ℕ) : List (ℚ × ℚ) := xs.map fun x ↦ (x.2, entryAt x.1 p j)

theorem congruent_sums {sums : List Tensor} (hs : Congruent sums initial) (h : ∀ x ∈ xs, Congruent x.1 initial) :
    Congruent (xs.foldl (fun acc u ↦ List.zipWith Tensor.add acc (u.1.map (Tensor.scale u.2))) sums) initial ∧
      ∀ p j, entryAt (xs.foldl (fun acc u ↦ List.zipWith Tensor.add acc (u.1.map (Tensor.scale u.2))) sums) p j =
        entryAt sums p j + ((column xs p j).map fun q ↦ q.1 * q.2).sum := by
  induction xs generalizing sums with
  | nil => exact ⟨hs, fun p j ↦ by simp [column]⟩
  | cons x xs ih =>
    obtain ⟨hx, hxs⟩ := List.forall_mem_cons.mp h
    have hscaled : Congruent (x.1.map (Tensor.scale x.2)) initial := (congruent_map _ _ x.1).trans hx
    have hadd := hs.trans hscaled.symm
    obtain ⟨hfold, hentry⟩ := ih ((congruent_zip hadd).trans hs) hxs
    refine ⟨hfold, fun p j ↦ (hentry p j).trans ?_⟩
    have hzip := entryAt_zip (f := (· + ·)) (add_zero 0) hadd p j
    have hmap := entryAt_map (f := (· * x.2)) (zero_mul _) (fun t ↦ t.dtype.promoted) x.1 p j
    change entryAt (List.zipWith Tensor.add sums (x.1.map (Tensor.scale x.2))) p j + _ = _
    simp only [column, List.map_cons, List.sum_cons]
    rw [show entryAt (List.zipWith Tensor.add sums (x.1.map (Tensor.scale x.2))) p j =
      entryAt sums p j + entryAt x.1 p j * x.2 from hzip.trans (congrArg _ hmap)]
    ring

theorem foldl_add (w : ℚ) (l : List ℚ) : l.foldl (· + ·) w = w + l.sum := by
  have h := @List.foldl_assoc ℚ (· + ·) _ l w 0
  rwa [add_zero, ← List.sum_eq_foldl] at h

theorem congruent_weightedMean (hne : xs ≠ []) (h : ∀ x ∈ xs, Congruent x.1 initial) :
    Congruent (weightedMean xs) initial ∧ ∀ p j, entryAt (weightedMean xs) p j = meanOf (column xs p j) := by
  cases xs with
  | nil => exact absurd rfl hne
  | cons x xs =>
    obtain ⟨hx, hxs⟩ := List.forall_mem_cons.mp h
    have hscaled : Congruent (x.1.map (Tensor.scale x.2)) initial := (congruent_map _ _ x.1).trans hx
    obtain ⟨hfold, hentry⟩ := congruent_sums hscaled hxs
    refine ⟨(congruent_map _ _ _).trans hfold, fun p j ↦ ?_⟩
    have hmap := entryAt_map (f := (· * x.2)) (zero_mul _) (fun t ↦ t.dtype.promoted) x.1 p j
    have htotal : (xs.map Prod.snd).foldl (· + ·) x.2 = ((column (x :: xs) p j).map Prod.fst).sum := by
      rw [foldl_add, column, List.map_map]
      rfl
    have hdiv := entryAt_map (f := (· / (xs.map Prod.snd).foldl (· + ·) x.2)) (zero_div _) (fun t ↦ t.dtype)
      (xs.foldl (fun acc u ↦ List.zipWith Tensor.add acc (u.1.map (Tensor.scale u.2))) (x.1.map (Tensor.scale x.2)))
      p j
    refine hdiv.trans ?_
    rw [htotal, hentry, meanOf]
    congr 1
    rw [show entryAt (x.1.map (Tensor.scale x.2)) p j = entryAt x.1 p j * x.2 from hmap, mul_comm]
    simp [column]

/-- The largest entry of a place. -/
def IsTop (xs : List (List Tensor × ℚ)) (p j : ℕ) (q : ℚ) : Prop :=
  (∃ x ∈ xs, q = entryAt x.1 p j) ∧ ∀ x ∈ xs, entryAt x.1 p j ≤ q

theorem congruent_tops {tops : List Tensor} (ht : Congruent tops initial) (h : ∀ x ∈ xs, Congruent x.1 initial) :
    Congruent (xs.foldl (fun acc u ↦ List.zipWith Tensor.maximum acc u.1) tops) initial ∧
      ∀ p j, entryAt (xs.foldl (fun acc u ↦ List.zipWith Tensor.maximum acc u.1) tops) p j =
        (xs.map fun x ↦ entryAt x.1 p j).foldl max (entryAt tops p j) := by
  induction xs generalizing tops with
  | nil => exact ⟨ht, fun p j ↦ rfl⟩
  | cons x xs ih =>
    obtain ⟨hx, hxs⟩ := List.forall_mem_cons.mp h
    have hmax := ht.trans hx.symm
    obtain ⟨hfold, hentry⟩ := ih ((congruent_zip hmax).trans ht) hxs
    refine ⟨hfold, fun p j ↦ (hentry p j).trans ?_⟩
    have hzip := entryAt_zip (f := max) (max_self 0) hmax p j
    rw [List.map_cons, List.foldl_cons, ← hzip]

theorem isTop_foldl (x : List Tensor × ℚ) (p j : ℕ) :
    IsTop (x :: xs) p j ((xs.map fun y ↦ entryAt y.1 p j).foldl max (entryAt x.1 p j)) := by
  induction xs using List.reverseRecOn with
  | nil => exact ⟨⟨x, List.mem_cons_self, rfl⟩, by simp⟩
  | append_singleton xs y ih =>
    obtain ⟨⟨z, hz, heq⟩, hle⟩ := ih
    rw [List.map_append, List.foldl_append]
    simp only [List.map_cons, List.map_nil, List.foldl_cons, List.foldl_nil]
    have hmem (w : List Tensor × ℚ) (hw : w ∈ x :: xs) : w ∈ x :: (xs ++ [y]) := by
      simp only [List.mem_cons, List.mem_append] at hw ⊢
      tauto
    constructor
    · rcases max_choice ((xs.map fun y ↦ entryAt y.1 p j).foldl max (entryAt x.1 p j)) (entryAt y.1 p j) with hm | hm
      · exact ⟨z, hmem z hz, hm.trans heq⟩
      · exact ⟨y, by simp, hm⟩
    · intro w hw
      have hw : w ∈ x :: xs ∨ w = y := by
        simp only [List.mem_cons, List.mem_append] at hw ⊢
        tauto
      rcases hw with hw | rfl
      · exact (hle w hw).trans (le_max_left _ _)
      · exact le_max_right _ _

theorem congruent_maximumState (hne : xs ≠ []) (h : ∀ x ∈ xs, Congruent x.1 initial) :
    Congruent (maximumState xs) initial ∧ ∀ p j, IsTop xs p j (entryAt (maximumState xs) p j) := by
  cases xs with
  | nil => exact absurd rfl hne
  | cons x xs =>
    obtain ⟨hx, hxs⟩ := List.forall_mem_cons.mp h
    obtain ⟨hfold, hentry⟩ := congruent_tops hx hxs
    refine ⟨hfold, fun p j ↦ ?_⟩
    have htop := @isTop_foldl xs x p j
    rwa [← hentry] at htop

end Entries

end OwnedAggregation

end SplitFleet
