import Mathlib.Algebra.BigOperators.Fin
import Mathlib.Algebra.Order.BigOperators.Group.Finset
import Mathlib.Algebra.Order.Field.Rat
import Mathlib.Data.List.GetD
import Mathlib.Tactic.Linarith
import Mathlib.Tactic.Positivity
import SplitFleet.Lib.Python

set_option autoImplicit false

namespace SplitFleet.Segmentation

open Lib

/-- A confusion matrix, by the class of the target and that of the prediction. -/
abbrev Confusion (n : ℕ) := Fin n → Fin n → ℕ

section Code

/-- The pixels that are counted: their classes and those that are predicted. -/
def pixels (targets predictions : List ℤ) (numClasses : ℕ) (ignoreIndex : Option ℤ) : List (ℤ × ℤ) :=
  (targets.zip predictions).filter fun p ↦ decide (0 ≤ p.1 ∧ p.1 < numClasses ∧ ignoreIndex ≠ some p.1)

/-- `num_classes * expected + observed` -/
def code (numClasses : ℕ) (p : ℤ × ℤ) : ℕ := (numClasses * p.1 + p.2).toNat

/-- `np.bincount(codes, minlength=minlength)` -/
def bincount (codes : List ℕ) (minlength : ℕ) : List ℕ :=
  (List.range (codes.foldl (fun m code ↦ max m (code + 1)) minlength)).map fun value ↦ codes.count value

/-- `counts.reshape(n, n)` -/
def reshape (n : ℕ) (counts : List ℕ) : Except PyError (Confusion n) :=
  if counts.length = n * n then .ok fun i j ↦ counts.getD (n * i + j) 0
  else .error (.valueError "cannot reshape array")

def segmentationConfusionMatrix (targets predictions : List ℤ) (numClasses : ℕ) (ignoreIndex : Option ℤ) :
    Except PyError (Confusion numClasses) := do
  require (0 < numClasses) (.valueError "num_classes must be positive.")
  require (targets ≠ [] ∧ targets.length = predictions.length)
    (.valueError "Segmentation targets and predictions must be non-empty and aligned.")
  let valid := pixels targets predictions numClasses ignoreIndex
  require (∀ p ∈ valid, 0 ≤ p.2 ∧ p.2 < numClasses)
    (.valueError "Segmentation predictions contain labels outside num_classes.")
  reshape numClasses (bincount (valid.map (code numClasses)) (numClasses * numClasses))

variable {n : ℕ} (m : Confusion n)

def intersection (c : Fin n) : ℚ := m c c

/-- `matrix.sum(axis=0) + matrix.sum(axis=1)` -/
def marked (c : Fin n) : ℚ := ∑ i, (m i c : ℚ) + ∑ j, (m c j : ℚ)

def union (c : Fin n) : ℚ := marked m c - intersection m c

/-- `np.mean` of the scores of some classes. -/
def meanOver (classes : Finset (Fin n)) (score : Fin n → ℚ) : Except PyError ℚ :=
  if classes = ∅ then .error (.valueError "No valid segmentation pixels remain after filtering.")
  else .ok ((∑ c ∈ classes, score c) / classes.card)

def iouOf : Except PyError ℚ :=
  meanOver (Finset.univ.filter fun c ↦ 0 < union m c) fun c ↦ intersection m c / union m c

def diceOf : Except PyError ℚ :=
  meanOver (Finset.univ.filter fun c ↦ 0 < marked m c) fun c ↦ 2 * intersection m c / marked m c

def meanIou (targets predictions : List ℤ) (numClasses : ℕ) (ignoreIndex : Option ℤ) : Except PyError ℚ := do
  let matrix ← segmentationConfusionMatrix targets predictions numClasses ignoreIndex
  iouOf matrix

def meanDice (targets predictions : List ℤ) (numClasses : ℕ) (ignoreIndex : Option ℤ) : Except PyError ℚ := do
  let matrix ← segmentationConfusionMatrix targets predictions numClasses ignoreIndex
  diceOf matrix

end Code

/-! ### The confusion matrix -/

section Counting

variable {n : ℕ}

theorem foldl_bound {codes : List ℕ} {bound : ℕ} (h : ∀ code ∈ codes, code < bound) :
    codes.foldl (fun m code ↦ max m (code + 1)) bound = bound := by
  induction codes with
  | nil => rfl
  | cons code codes ih =>
    rw [List.foldl_cons, Nat.max_eq_left (h code List.mem_cons_self)]
    exact ih fun c hc ↦ h c (List.mem_cons_of_mem _ hc)

theorem code_lt {a b n : ℕ} (ha : a < n) (hb : b < n) : n * a + b < n * n :=
  calc n * a + b < n * a + n := Nat.add_lt_add_left hb _
    _ = n * (a + 1) := (Nat.mul_succ n a).symm
    _ ≤ n * n := Nat.mul_le_mul_left n ha

/-- A code has one pair of classes. -/
theorem code_inj {a b c d n : ℕ} (hb : b < n) (hd : d < n) (h : n * a + b = n * c + d) : a = c ∧ b = d := by
  have hpos : 0 < n := Nat.zero_lt_of_lt hb
  have hdiv := congrArg (· / n) h
  have hmod := congrArg (· % n) h
  simp only [Nat.mul_add_div hpos, Nat.div_eq_of_lt hb, Nat.div_eq_of_lt hd, Nat.add_zero, Nat.mul_add_mod,
    Nat.mod_eq_of_lt hb, Nat.mod_eq_of_lt hd] at hdiv hmod
  exact ⟨hdiv, hmod⟩

/-- The pixels of a class that are predicted as a class. -/
def Counts (valid : List (ℤ × ℤ)) (m : Confusion n) : Prop := ∀ i j : Fin n, m i j = valid.count ((i : ℤ), (j : ℤ))

theorem count_codes {valid : List (ℤ × ℤ)} (h : ∀ p ∈ valid, (0 ≤ p.1 ∧ p.1 < n) ∧ 0 ≤ p.2 ∧ p.2 < n) (i j : Fin n) :
    (valid.map (code n)).count (n * i + j) = valid.count ((i : ℤ), (j : ℤ)) := by
  rw [List.count_eq_countP, List.countP_map, List.count_eq_countP]
  refine List.countP_congr fun p hp ↦ ?_
  obtain ⟨⟨h1, h1'⟩, h2, h2'⟩ := h p hp
  obtain ⟨a, b⟩ := p
  obtain ⟨a, rfl⟩ := Int.eq_ofNat_of_zero_le h1
  obtain ⟨b, rfl⟩ := Int.eq_ofNat_of_zero_le h2
  have hcode : code n ((a : ℤ), (b : ℤ)) = n * a + b := by
    rw [code, ← Int.natCast_mul, ← Int.natCast_add, Int.toNat_natCast]
  simp only [Function.comp_apply, hcode, beq_iff_eq, Prod.mk.injEq, Int.natCast_inj]
  constructor
  · exact code_inj (Int.ofNat_lt.mp h2') j.isLt
  · rintro ⟨rfl, rfl⟩
    rfl

theorem reshape_bincount {codes : List ℕ} (h : ∀ code ∈ codes, code < n * n) :
    reshape n (bincount codes (n * n)) = .ok fun i j ↦ codes.count (n * i + j) := by
  have hlength : (bincount codes (n * n)).length = n * n := by
    rw [bincount, foldl_bound h, List.length_map, List.length_range]
  rw [reshape, if_pos hlength]
  refine congrArg Except.ok (funext fun i ↦ funext fun j ↦ ?_)
  have hlt := code_lt i.isLt j.isLt
  rw [List.getD_eq_getElem _ _ (hlt.trans_eq hlength.symm)]
  simp [bincount]

end Counting

/-! ### Scores -/

section Scores

variable {n : ℕ} {m : Confusion n} {c : Fin n}

theorem intersection_nonneg (m : Confusion n) (c : Fin n) : 0 ≤ intersection m c := Nat.cast_nonneg _

theorem intersection_le_column (m : Confusion n) (c : Fin n) : intersection m c ≤ ∑ i, (m i c : ℚ) :=
  Finset.single_le_sum (f := fun i ↦ (m i c : ℚ)) (fun _ _ ↦ Nat.cast_nonneg _) (Finset.mem_univ c)

theorem intersection_le_row (m : Confusion n) (c : Fin n) : intersection m c ≤ ∑ j, (m c j : ℚ) :=
  Finset.single_le_sum (f := fun j ↦ (m c j : ℚ)) (fun _ _ ↦ Nat.cast_nonneg _) (Finset.mem_univ c)

theorem intersection_le_union (m : Confusion n) (c : Fin n) : intersection m c ≤ union m c := by
  have hcolumn := intersection_le_column m c
  have hrow := intersection_le_row m c
  rw [union, marked]
  linarith

theorem marked_eq (m : Confusion n) (c : Fin n) : marked m c = union m c + intersection m c := by
  rw [union, sub_add_cancel]

/-- Both scores are about the same classes. -/
theorem union_pos_iff : 0 < union m c ↔ 0 < marked m c := by
  have hle := intersection_le_union m c
  have hpos := intersection_nonneg m c
  rw [marked_eq]
  constructor
  · intro h
    linarith
  · intro h
    by_contra hno
    linarith

theorem iou_nonneg (m : Confusion n) (c : Fin n) : 0 ≤ intersection m c / union m c :=
  div_nonneg (intersection_nonneg m c) ((intersection_nonneg m c).trans (intersection_le_union m c))

theorem iou_le_dice (h : 0 < union m c) : intersection m c / union m c ≤ 2 * intersection m c / marked m c := by
  have hle := intersection_le_union m c
  have hpos := intersection_nonneg m c
  rw [div_le_div_iff₀ h (union_pos_iff.mp h), marked_eq]
  nlinarith

theorem dice_le_one (h : 0 < union m c) : 2 * intersection m c / marked m c ≤ 1 := by
  have hle := intersection_le_union m c
  rw [div_le_one (union_pos_iff.mp h), marked_eq]
  linarith

theorem iou_eq_one_iff (h : 0 < union m c) : intersection m c / union m c = 1 ↔ intersection m c = union m c :=
  div_eq_one_iff_eq h.ne'

theorem dice_eq_one_iff (h : 0 < union m c) :
    2 * intersection m c / marked m c = 1 ↔ intersection m c = union m c := by
  rw [div_eq_one_iff_eq (union_pos_iff.mp h).ne', marked_eq]
  constructor
  · intro he
    linarith
  · intro he
    linarith

/-- A mean of scores up to 1 is 1 only where they all are. -/
theorem meanOver_eq_one_iff {classes : Finset (Fin n)} {score : Fin n → ℚ} (hne : classes.Nonempty)
    (h : ∀ c ∈ classes, score c ≤ 1) :
    (∑ c ∈ classes, score c) / classes.card = 1 ↔ ∀ c ∈ classes, score c = 1 := by
  have hcard : (classes.card : ℚ) ≠ 0 := Nat.cast_ne_zero.mpr hne.card_pos.ne'
  rw [div_eq_one_iff_eq hcard]
  have hsum : (classes.card : ℚ) = ∑ _c ∈ classes, (1 : ℚ) := by simp
  rw [hsum]
  exact Finset.sum_eq_sum_iff_of_le h

end Scores

/-! ### What the metrics say -/

section Law

variable {n : ℕ} {valid : List (ℤ × ℤ)} {m : Confusion n}

theorem count_pos_row (hcounts : Counts valid m) {a b : Fin n} (h : ((a : ℤ), (b : ℤ)) ∈ valid) : 0 < (m a b : ℚ) := by
  rw [hcounts a b]
  exact Nat.cast_pos.mpr (List.count_pos_iff.mpr h)

/-- A pair of classes of a pixel that is counted. -/
theorem exists_classes (hrange : ∀ p ∈ valid, (0 ≤ p.1 ∧ p.1 < n) ∧ 0 ≤ p.2 ∧ p.2 < n) {p : ℤ × ℤ} (hp : p ∈ valid) :
    ∃ a b : Fin n, p = ((a : ℤ), (b : ℤ)) := by
  obtain ⟨⟨h1, h1'⟩, h2, h2'⟩ := hrange p hp
  obtain ⟨a, ha⟩ := Int.eq_ofNat_of_zero_le h1
  obtain ⟨b, hb⟩ := Int.eq_ofNat_of_zero_le h2
  rw [ha] at h1'
  rw [hb] at h2'
  exact ⟨⟨a, Int.ofNat_lt.mp h1'⟩, ⟨b, Int.ofNat_lt.mp h2'⟩, Prod.ext ha hb⟩

variable (hcounts : Counts valid m) (hrange : ∀ p ∈ valid, (0 ≤ p.1 ∧ p.1 < n) ∧ 0 ≤ p.2 ∧ p.2 < n)

include hcounts hrange

/-- Some class is scored if some pixel is counted. -/
theorem exists_union_pos_iff : (∃ c, 0 < union m c) ↔ valid ≠ [] := by
  constructor
  · rintro ⟨c, hc⟩ rfl
    have hzero (i j : Fin n) : (m i j : ℚ) = 0 := by
      rw [hcounts i j, List.count_nil, Nat.cast_zero]
    rw [union_pos_iff, marked] at hc
    simp only [hzero, Finset.sum_const_zero, add_zero, lt_irrefl] at hc
  · intro hne
    obtain ⟨p, hp⟩ := List.exists_mem_of_ne_nil valid hne
    obtain ⟨a, b, rfl⟩ := exists_classes hrange hp
    refine ⟨a, union_pos_iff.mpr ?_⟩
    have hentry := count_pos_row hcounts hp
    have hrow : (m a b : ℚ) ≤ ∑ j, (m a j : ℚ) :=
      Finset.single_le_sum (f := fun j ↦ (m a j : ℚ)) (fun _ _ ↦ Nat.cast_nonneg _) (Finset.mem_univ b)
    have hcolumn := (intersection_nonneg m a).trans (intersection_le_column m a)
    rw [marked]
    linarith

/-- Every class is predicted as itself if every pixel is. -/
theorem all_intersections_iff : (∀ c, 0 < union m c → intersection m c = union m c) ↔ ∀ p ∈ valid, p.1 = p.2 := by
  constructor
  · intro hall p hp
    obtain ⟨a, b, rfl⟩ := exists_classes hrange hp
    by_contra hne
    have hentry := count_pos_row hcounts hp
    have hab : b ≠ a := fun h ↦ hne (by rw [h])
    -- The row of the class has the pixels on the diagonal, and this one.
    have hrow : intersection m a + (m a b : ℚ) ≤ ∑ j, (m a j : ℚ) := by
      rw [← Finset.add_sum_erase _ _ (Finset.mem_univ a)]
      refine add_le_add le_rfl ?_
      exact Finset.single_le_sum (f := fun j ↦ (m a j : ℚ)) (fun _ _ ↦ Nat.cast_nonneg _)
        (Finset.mem_erase.mpr ⟨hab, Finset.mem_univ b⟩)
    have hcolumn := intersection_le_column m a
    have hpos := intersection_nonneg m a
    have hunion : intersection m a < union m a := by
      rw [union, marked]
      linarith
    exact absurd (hall a (hpos.trans_lt hunion)) hunion.ne
  · intro hdiag c _
    have hoff {i j : Fin n} (hij : i ≠ j) : (m i j : ℚ) = 0 := by
      rw [hcounts i j, Nat.cast_eq_zero, List.count_eq_zero]
      intro hmem
      exact hij (Fin.ext (Int.ofNat_inj.mp (hdiag _ hmem)))
    have hcolumn : ∑ i, (m i c : ℚ) = intersection m c :=
      Finset.sum_eq_single c (fun i _ hi ↦ hoff hi) fun h ↦ absurd (Finset.mem_univ c) h
    have hrow : ∑ j, (m c j : ℚ) = intersection m c :=
      Finset.sum_eq_single c (fun j _ hj ↦ hoff (Ne.symm hj)) fun h ↦ absurd (Finset.mem_univ c) h
    rw [union, marked, hcolumn, hrow, add_sub_cancel_right]

omit hcounts hrange in
/-- The classes that the Dice score takes are those of the IoU. -/
theorem dice_classes (m : Confusion n) :
    (Finset.univ.filter fun c ↦ 0 < marked m c) = Finset.univ.filter fun c ↦ 0 < union m c :=
  Finset.filter_congr fun _ _ ↦ union_pos_iff.symm

/-- Without a pixel that counts neither metric has a class to score. -/
theorem scores_error (hempty : valid = []) :
    ∃ message, iouOf m = .error (.valueError message) ∧ diceOf m = .error (.valueError message) := by
  have hclasses : (Finset.univ.filter fun c ↦ 0 < union m c) = ∅ := by
    rw [Finset.eq_empty_iff_forall_notMem]
    intro c hc
    exact (exists_union_pos_iff hcounts hrange).mp ⟨c, (Finset.mem_filter.mp hc).2⟩ hempty
  refine ⟨_, if_pos hclasses, ?_⟩
  rw [diceOf, dice_classes]
  exact if_pos hclasses

theorem scores_ok (hne : valid ≠ []) :
    ∃ iou dice, iouOf m = .ok iou ∧ diceOf m = .ok dice ∧ 0 ≤ iou ∧ iou ≤ dice ∧ dice ≤ 1 ∧
      (iou = 1 ↔ ∀ p ∈ valid, p.1 = p.2) ∧ (dice = 1 ↔ ∀ p ∈ valid, p.1 = p.2) := by
  have hall := all_intersections_iff hcounts hrange
  obtain ⟨c, hc⟩ := (exists_union_pos_iff hcounts hrange).mpr hne
  rw [iouOf, diceOf, dice_classes]
  generalize hclasses : (Finset.univ.filter fun c ↦ 0 < union m c) = classes
  have hmem (c : Fin n) : c ∈ classes ↔ 0 < union m c := by simp [← hclasses]
  have hnonempty : classes.Nonempty := ⟨c, (hmem c).mpr hc⟩
  have hcard : (0 : ℚ) < classes.card := Nat.cast_pos.mpr hnonempty.card_pos
  have hle : ∀ c ∈ classes, intersection m c / union m c ≤ 2 * intersection m c / marked m c :=
    fun c hc ↦ iou_le_dice ((hmem c).mp hc)
  have hone : ∀ c ∈ classes, 2 * intersection m c / marked m c ≤ 1 := fun c hc ↦ dice_le_one ((hmem c).mp hc)
  refine ⟨_, _, if_neg hnonempty.ne_empty, if_neg hnonempty.ne_empty, ?_, ?_, ?_, ?_, ?_⟩
  · exact div_nonneg (Finset.sum_nonneg fun c _ ↦ iou_nonneg m c) hcard.le
  · exact div_le_div_of_nonneg_right (Finset.sum_le_sum hle) hcard.le
  · rw [div_le_one hcard]
    simpa using Finset.sum_le_card_nsmul classes _ 1 hone
  · rw [meanOver_eq_one_iff hnonempty fun c hc ↦ (hle c hc).trans (hone c hc), ← hall]
    exact forall_congr' fun c ↦ imp_congr_ctx (hmem c) fun hc ↦ iou_eq_one_iff hc
  · rw [meanOver_eq_one_iff hnonempty hone, ← hall]
    exact forall_congr' fun c ↦ imp_congr_ctx (hmem c) fun hc ↦ dice_eq_one_iff hc

end Law

section Metrics

variable (targets predictions : List ℤ) (numClasses : ℕ) (ignoreIndex : Option ℤ)

/-- The arguments that the confusion matrix takes. -/
structure Accepts : Prop where
  classes : 0 < numClasses
  aligned : targets ≠ [] ∧ targets.length = predictions.length
  inside : ∀ p ∈ pixels targets predictions numClasses ignoreIndex, 0 ≤ p.2 ∧ p.2 < numClasses

variable {targets predictions numClasses ignoreIndex}

theorem Accepts.range (h : Accepts targets predictions numClasses ignoreIndex) :
    ∀ p ∈ pixels targets predictions numClasses ignoreIndex,
      (0 ≤ p.1 ∧ p.1 < numClasses) ∧ 0 ≤ p.2 ∧ p.2 < numClasses := by
  intro p hp
  obtain ⟨hlow, hhigh, -⟩ := of_decide_eq_true (List.mem_filter.mp hp).2
  exact ⟨⟨hlow, hhigh⟩, h.inside p hp⟩

theorem confusion_ok (h : Accepts targets predictions numClasses ignoreIndex) :
    ∃ m, segmentationConfusionMatrix targets predictions numClasses ignoreIndex = .ok m ∧
      Counts (pixels targets predictions numClasses ignoreIndex) m := by
  have hcodes : ∀ value ∈ (pixels targets predictions numClasses ignoreIndex).map (code numClasses),
      value < numClasses * numClasses := by
    intro value hvalue
    obtain ⟨p, hp, rfl⟩ := List.mem_map.mp hvalue
    obtain ⟨a, b, rfl⟩ := exists_classes h.range hp
    rw [code, ← Int.natCast_mul, ← Int.natCast_add, Int.toNat_natCast]
    exact code_lt a.isLt b.isLt
  refine ⟨_, ?_, count_codes h.range⟩
  simp only [segmentationConfusionMatrix, bind, Except.bind, require_of h.classes, require_of h.aligned,
    require_of h.inside]
  exact reshape_bincount hcodes

theorem confusion_error (h : ¬Accepts targets predictions numClasses ignoreIndex) :
    ∃ message, segmentationConfusionMatrix targets predictions numClasses ignoreIndex =
      .error (.valueError message) := by
  by_cases hclasses : 0 < numClasses
  · by_cases haligned : targets ≠ [] ∧ targets.length = predictions.length
    · have hinside : ¬∀ p ∈ pixels targets predictions numClasses ignoreIndex, 0 ≤ p.2 ∧ p.2 < numClasses :=
        fun hinside ↦ h ⟨hclasses, haligned, hinside⟩
      refine ⟨"Segmentation predictions contain labels outside num_classes.", ?_⟩
      simp only [segmentationConfusionMatrix, bind, Except.bind, require_of hclasses, require_of haligned]
      rw [require, if_neg hinside]
    · refine ⟨"Segmentation targets and predictions must be non-empty and aligned.", ?_⟩
      simp only [segmentationConfusionMatrix, bind, Except.bind, require_of hclasses]
      rw [require, if_neg haligned]
  · refine ⟨"num_classes must be positive.", ?_⟩
    simp only [segmentationConfusionMatrix, bind, Except.bind]
    rw [require, if_neg hclasses]

variable (targets predictions numClasses ignoreIndex)

/-- The two segmentation metrics are defined for the same masks. The mean IoU is at most the mean Dice, and either is 1
exactly where every pixel that counts is predicted. -/
theorem segmentation_scores :
    (∀ m, segmentationConfusionMatrix targets predictions numClasses ignoreIndex = .ok m →
      Counts (pixels targets predictions numClasses ignoreIndex) m) ∧
    ((Accepts targets predictions numClasses ignoreIndex ∧ pixels targets predictions numClasses ignoreIndex ≠ [] ∧
        ∃ iou dice, meanIou targets predictions numClasses ignoreIndex = .ok iou ∧
          meanDice targets predictions numClasses ignoreIndex = .ok dice ∧ 0 ≤ iou ∧ iou ≤ dice ∧ dice ≤ 1 ∧
          (iou = 1 ↔ ∀ p ∈ pixels targets predictions numClasses ignoreIndex, p.1 = p.2) ∧
          (dice = 1 ↔ ∀ p ∈ pixels targets predictions numClasses ignoreIndex, p.1 = p.2)) ∨
      ¬(Accepts targets predictions numClasses ignoreIndex ∧ pixels targets predictions numClasses ignoreIndex ≠ []) ∧
        ∃ message, meanIou targets predictions numClasses ignoreIndex = .error (.valueError message) ∧
          meanDice targets predictions numClasses ignoreIndex = .error (.valueError message)) := by
  by_cases haccepts : Accepts targets predictions numClasses ignoreIndex
  · obtain ⟨m, hm, hcounts⟩ := confusion_ok haccepts
    refine ⟨fun m' hm' ↦ ?_, ?_⟩
    · rw [hm] at hm'
      cases hm'
      exact hcounts
    have hiou : meanIou targets predictions numClasses ignoreIndex = iouOf m := by
      rw [meanIou, hm]
      rfl
    have hdice : meanDice targets predictions numClasses ignoreIndex = diceOf m := by
      rw [meanDice, hm]
      rfl
    rw [hiou, hdice]
    by_cases hne : pixels targets predictions numClasses ignoreIndex = []
    · exact .inr ⟨fun h ↦ h.2 hne, scores_error hcounts haccepts.range hne⟩
    · exact .inl ⟨haccepts, hne, scores_ok hcounts haccepts.range hne⟩
  · obtain ⟨message, herror⟩ := confusion_error haccepts
    refine ⟨fun m hm ↦ ?_, .inr ⟨fun h ↦ haccepts h.1, message, ?_, ?_⟩⟩
    · rw [herror] at hm
      cases hm
    · rw [meanIou, herror]
      rfl
    · rw [meanDice, herror]
      rfl

end Metrics

end SplitFleet.Segmentation
