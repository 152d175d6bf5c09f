import SplitFleet.DetectionMap
import SplitFleet.Lib.Lists

set_option autoImplicit false

namespace SplitFleet.DetectionMap

open Lib

/-! ### Means -/

section Mean

variable {values others : List ℚ}

theorem mean_nonneg (h : ∀ v ∈ values, 0 ≤ v) : 0 ≤ mean values :=
  div_nonneg (List.sum_nonneg h) (Nat.cast_nonneg _)

theorem mean_le_one (h : ∀ v ∈ values, v ≤ 1) : mean values ≤ 1 := by
  have hsum := List.sum_le_card_nsmul values 1 h
  rw [nsmul_one] at hsum
  exact div_le_one_of_le₀ hsum (Nat.cast_nonneg _)

theorem mean_eq_one (hne : values ≠ []) (h : ∀ v ∈ values, v = 1) : mean values = 1 := by
  have hlength : (values.length : ℚ) ≠ 0 := Nat.cast_ne_zero.mpr (List.length_eq_zero_iff.not.mpr hne)
  rw [mean, List.sum_eq_card_nsmul values 1 h, nsmul_one, div_self hlength]

theorem mean_mono (h : List.Forall₂ (· ≤ ·) values others) : mean values ≤ mean others := by
  rw [mean, mean, h.length_eq]
  exact div_le_div_of_nonneg_right h.sum_le_sum (Nat.cast_nonneg _)

end Mean

/-! ### Curves -/

section Curve

variable {total tp fp : ℕ} {outs : List Outcome} {o : Outcome} {mode : ApMode}

def trues (outs : List Outcome) : ℕ := (outs.map Outcome.isTrue).sum

def falses (outs : List Outcome) : ℕ := (outs.map Outcome.isFalse).sum

theorem trues_cons : trues (o :: outs) = o.isTrue + trues outs := rfl

theorem falses_cons : falses (o :: outs) = o.isFalse + falses outs := rfl

theorem precision_nonneg : 0 ≤ (point total tp fp).2 := by
  unfold point
  split
  · exact div_nonneg (Nat.cast_nonneg _) (Nat.cast_nonneg _)
  · exact le_rfl

theorem precision_le_one : (point total tp fp).2 ≤ 1 := by
  unfold point
  split
  · exact div_le_one_of_le₀ (Nat.cast_le.mpr (Nat.le_add_right tp fp)) (Nat.cast_nonneg _)
  · exact zero_le_one

/-- As long as there are no more true positives than objects, recall rises to 1 at most. -/
theorem rising_curve (htotal : 0 < total) (h : tp + trues outs ≤ total) :
    Rising ((tp : ℚ) / total) (curve total tp fp outs ++ [(1, 0)]) := by
  have hpos : (0 : ℚ) < total := Nat.cast_pos.mpr htotal
  induction outs generalizing tp fp with
  | nil =>
    have hone : (tp : ℚ) / total ≤ 1 := (div_le_one hpos).mpr (Nat.cast_le.mpr h)
    exact .cons hone le_rfl zero_le_one (.nil le_rfl)
  | cons o outs ih =>
    rw [trues_cons] at h
    refine .cons ?_ precision_nonneg precision_le_one (ih (by omega))
    exact div_le_div_of_nonneg_right (Nat.cast_le.mpr (Nat.le_add_right _ _)) hpos.le

theorem recall_le_one (htotal : 0 < total) (h : tp + trues outs ≤ total) : ∀ q ∈ curve total tp fp outs, q.1 ≤ 1 := by
  have hpos : (0 : ℚ) < total := Nat.cast_pos.mpr htotal
  induction outs generalizing tp fp with
  | nil => simp [curve]
  | cons o outs ih =>
    rw [trues_cons] at h
    refine List.forall_mem_cons.mpr ⟨?_, ih (by omega)⟩
    exact (div_le_one hpos).mpr (Nat.cast_le.mpr (by omega))

theorem precision_mem (q : ℚ × ℚ) (hq : q ∈ curve total tp fp outs) : 0 ≤ q.2 ∧ q.2 ≤ 1 := by
  induction outs generalizing tp fp with
  | nil => cases hq
  | cons o outs ih =>
    obtain rfl | hq := List.mem_cons.mp hq
    · exact ⟨precision_nonneg, precision_le_one⟩
    · exact ih hq

theorem curve_concat : curve total tp fp (outs ++ [o]) =
    curve total tp fp outs ++ [point total (tp + trues (outs ++ [o])) (fp + falses (outs ++ [o]))] := by
  induction outs generalizing tp fp with
  | nil => simp [curve, trues, falses]
  | cons p outs ih =>
    rw [List.cons_append, curve, ih, curve, List.cons_append, trues_cons, falses_cons, Nat.add_assoc, Nat.add_assoc]

/-! ### Average precision -/

theorem averagePrecision_allPoint (points : List (ℚ × ℚ)) :
    averagePrecision .allPoint points = area 0 (points ++ [(1, 0)]) := by
  have h := stepSum_envelope (0 : ℚ) 0 (points ++ [(1, 0)])
  rw [List.map_append, List.map_append] at h
  exact h

theorem max?_getD_mem_unit {values : List ℚ} (h : ∀ v ∈ values, 0 ≤ v ∧ v ≤ 1) :
    0 ≤ values.max?.getD 0 ∧ values.max?.getD 0 ≤ 1 := by
  cases hmax : values.max? with
  | none => exact ⟨le_rfl, zero_le_one⟩
  | some m => exact h m (List.max?_mem hmax)

theorem le_max?_getD {values : List ℚ} {v : ℚ} (hv : v ∈ values) : v ≤ values.max?.getD 0 := by
  cases hmax : values.max? with
  | none =>
    rw [List.max?_eq_none_iff.mp hmax] at hv
    cases hv
  | some m => exact (List.max?_eq_some_iff.mp hmax).2 v hv

theorem max?_getD_mono {values others : List ℚ} (h : values ⊆ others) (hpos : ∀ v ∈ others, 0 ≤ v ∧ v ≤ 1) :
    values.max?.getD 0 ≤ others.max?.getD 0 := by
  cases hmax : values.max? with
  | none => exact (max?_getD_mem_unit hpos).1
  | some m => exact le_max?_getD (h (List.max?_mem hmax))

theorem mem_levels {points : List (ℚ × ℚ)} {level v : ℚ} :
    v ∈ (points.filter (level ≤ ·.1)).map Prod.snd ↔ ∃ q ∈ points, level ≤ q.1 ∧ q.2 = v := by
  simp only [List.mem_map, List.mem_filter, decide_eq_true_eq, and_assoc]

theorem averagePrecision_mem_unit (htotal : 0 < total) (h : trues outs ≤ total) :
    0 ≤ averagePrecision mode (curve total 0 0 outs) ∧ averagePrecision mode (curve total 0 0 outs) ≤ 1 := by
  cases mode with
  | allPoint =>
    have hrising := @rising_curve total 0 0 _ htotal ((Nat.zero_add _).trans_le h)
    rw [Nat.cast_zero, zero_div] at hrising
    rw [averagePrecision_allPoint]
    exact ⟨hrising.area_nonneg, hrising.area_le.trans_eq (sub_zero 1)⟩
  | voc07ElevenPoint =>
    have hlevel : ∀ level,
        0 ≤ precisionAt (curve total 0 0 outs) level ∧ precisionAt (curve total 0 0 outs) level ≤ 1 := by
      intro level
      apply max?_getD_mem_unit
      intro v hv
      obtain ⟨q, hq, -, rfl⟩ := mem_levels.mp hv
      exact precision_mem q hq
    refine ⟨mean_nonneg fun v hv ↦ ?_, mean_le_one fun v hv ↦ ?_⟩
    · obtain ⟨i, -, rfl⟩ := List.mem_map.mp hv
      exact (hlevel _).1
    · obtain ⟨i, -, rfl⟩ := List.mem_map.mp hv
      exact (hlevel _).2

/-- One more prediction at the end of the ranking does not lower the average precision. -/
theorem averagePrecision_concat (htotal : 0 < total) (h : trues (outs ++ [o]) ≤ total) :
    averagePrecision mode (curve total 0 0 outs) ≤ averagePrecision mode (curve total 0 0 (outs ++ [o])) := by
  cases mode with
  | allPoint =>
    have hrising := @rising_curve total 0 0 _ htotal ((Nat.zero_add _).trans_le h)
    rw [Nat.cast_zero, zero_div, curve_concat, List.append_assoc] at hrising
    rw [averagePrecision_allPoint, averagePrecision_allPoint, curve_concat, List.append_assoc]
    exact hrising.area_le_insert
  | voc07ElevenPoint =>
    refine mean_mono (List.forall₂_map_left_iff.mpr (List.forall₂_map_right_iff.mpr (List.forall₂_same.mpr ?_)))
    intro i _
    apply max?_getD_mono
    · intro v hv
      obtain ⟨q, hq, hlevel, rfl⟩ := mem_levels.mp hv
      rw [curve_concat]
      exact mem_levels.mpr ⟨q, List.mem_append_left _ hq, hlevel, rfl⟩
    · intro v hv
      obtain ⟨q, hq, -, rfl⟩ := mem_levels.mp hv
      exact precision_mem q hq

/-- With every object found and no false positive, the average precision is 1. -/
theorem averagePrecision_full (htotal : 0 < total) (htrues : trues outs = total) (hfalses : falses outs = 0) :
    averagePrecision mode (curve total 0 0 outs) = 1 := by
  have hpos : (0 : ℚ) < total := Nat.cast_pos.mpr htotal
  have hlast : ∃ points, curve total 0 0 outs = points ++ [(1, 1)] := by
    obtain rfl | ⟨outs, o, rfl⟩ := List.eq_nil_or_concat outs
    · exact absurd htrues htotal.ne
    · rw [List.concat_eq_append] at htrues hfalses ⊢
      refine ⟨curve total 0 0 outs, ?_⟩
      rw [curve_concat, htrues, hfalses, point, Nat.zero_add, Nat.add_zero, if_pos htotal, div_self hpos.ne']
  obtain ⟨points, hpoints⟩ := hlast
  cases mode with
  | allPoint =>
    have hrising := @rising_curve total 0 0 _ htotal (((Nat.zero_add _).trans htrues).le)
    rw [Nat.cast_zero, zero_div, hpoints, List.append_assoc] at hrising
    rw [averagePrecision_allPoint, hpoints, List.append_assoc]
    exact hrising.area_eq.trans (sub_zero 1)
  | voc07ElevenPoint =>
    refine mean_eq_one (by simp) fun v hv ↦ ?_
    obtain ⟨i, hi, rfl⟩ := List.mem_map.mp hv
    have hlevel : (i : ℚ) / 10 ≤ 1 := by
      have hi : (i : ℚ) ≤ 10 := by exact_mod_cast Nat.le_of_lt_succ (List.mem_range.mp hi)
      linarith
    apply le_antisymm
    · refine (max?_getD_mem_unit fun v hv ↦ ?_).2
      obtain ⟨q, hq, -, rfl⟩ := mem_levels.mp hv
      exact precision_mem q hq
    · apply le_max?_getD
      rw [hpoints]
      exact mem_levels.mpr ⟨(1, 1), by simp, hlevel, rfl⟩

end Curve

/-! ### Matching -/

section Matching

variable {threshold : ℚ} {ground : List (List (Box × Bool))} {matched : List (ℕ × ℕ)} {p : Ranked} {l : List Ranked}

/-- The objects that true positives are for. -/
def truePositives (outs : List Outcome) : List (ℕ × ℕ) :=
  outs.filterMap fun o ↦ match o with
    | .truePositive image best => some (image, best)
    | .falsePositive => none
    | .ignored => none

theorem trues_eq (outs : List Outcome) : trues outs = (truePositives outs).length := by
  induction outs with
  | nil => rfl
  | cons o outs ih =>
    rw [trues_cons, ih]
    cases o with
    | truePositive image best => exact Nat.add_comm _ _
    | falsePositive => exact Nat.zero_add _
    | ignored => exact Nat.zero_add _

theorem argmax_spec {values : List ℚ} (hne : values ≠ []) :
    ∃ v, values[argmax values]? = some v ∧ ∀ w ∈ values, w ≤ v := by
  obtain ⟨m, hmax⟩ := Option.ne_none_iff_exists'.mp (mt List.max?_eq_none_iff.mp hne)
  obtain ⟨hm, hle⟩ := List.max?_eq_some_iff.mp hmax
  have hlt : argmax values < values.length :=
    List.findIdx_lt_length_of_exists ⟨m, hm, decide_eq_true hle⟩
  refine ⟨values[argmax values], List.getElem?_eq_getElem hlt, ?_⟩
  exact of_decide_eq_true (List.findIdx_getElem (w := hlt))

/-- A true positive is for an object of its image that is not difficult and not matched. -/
theorem of_truePositive {image best : ℕ} (h : assessOne threshold ground matched p = .truePositive image best) :
    (image, best) ∉ matched ∧ ∃ box, (ground.getD image [])[best]? = some (box, false) := by
  unfold assessOne at h
  dsimp only at h
  split at h
  · cases h
  · next hne =>
    split at h
    · cases h
    · next hdifficult =>
      split at h
      · next hfound =>
        obtain ⟨hover, hmatched⟩ := hfound
        cases h
        refine ⟨hmatched, ?_⟩
        have hvalues : boxIou p.box ((ground.getD p.image []).map Prod.fst) ≠ [] := by
          simpa only [boxIou, ne_eq, List.map_eq_nil_iff] using hne
        obtain ⟨v, hv, -⟩ := argmax_spec hvalues
        generalize argmax (boxIou p.box ((ground.getD p.image []).map Prod.fst)) = best
          at hv hdifficult hover hmatched ⊢
        simp only [boxIou, List.getElem?_map, Option.map_eq_some_iff] at hv
        obtain ⟨_, ⟨⟨box, flag⟩, hcandidate, rfl⟩, -⟩ := hv
        cases flag with
        | false => exact ⟨box, hcandidate⟩
        | true =>
          refine absurd ⟨hover, ?_⟩ hdifficult
          rw [List.getD_eq_getElem?_getD, List.getElem?_map, hcandidate]
          rfl
      · cases h

/-- An object is matched once. -/
theorem truePositives_sound : (truePositives (assess threshold ground matched l)).Nodup ∧
    ∀ q ∈ truePositives (assess threshold ground matched l), q ∉ matched ∧
      ∃ box, (ground.getD q.1 [])[q.2]? = some (box, false) := by
  induction l generalizing matched with
  | nil => simp [assess, truePositives]
  | cons p l ih =>
    have ih := @ih ((assessOne threshold ground matched p).mark matched)
    rw [assess]
    cases ho : assessOne threshold ground matched p with
    | truePositive image best =>
      rw [ho] at ih
      obtain ⟨hnodup, hall⟩ := ih
      refine ⟨List.nodup_cons.mpr ⟨fun hmem ↦ (hall _ hmem).1 List.mem_cons_self, hnodup⟩, ?_⟩
      refine List.forall_mem_cons.mpr ⟨of_truePositive ho, fun q hq ↦ ?_⟩
      obtain ⟨hmatched, hbox⟩ := hall q hq
      exact ⟨fun h ↦ hmatched (List.mem_cons_of_mem _ h), hbox⟩
    | falsePositive =>
      rw [ho] at ih
      exact ih
    | ignored =>
      rw [ho] at ih
      exact ih

/-- The objects that are not difficult. -/
def objects (ground : List (List (Box × Bool))) : List (ℕ × ℕ) :=
  ground.zipIdx.flatMap fun p ↦ (p.1.zipIdx.filter (·.1.2 = false)).map fun c ↦ (p.2, c.2)

theorem mem_objects {q : ℕ × ℕ} : q ∈ objects ground ↔ ∃ box, (ground.getD q.1 [])[q.2]? = some (box, false) := by
  obtain ⟨image, best⟩ := q
  simp only [objects, List.mem_flatMap, List.mem_map, List.mem_filter, decide_eq_true_eq, Prod.mk.injEq,
    List.getD_eq_getElem?_getD]
  constructor
  · rintro ⟨⟨candidates, i⟩, hi, ⟨⟨box, flag⟩, j⟩, ⟨hj, hflag⟩, rfl, rfl⟩
    have hi := List.mem_zipIdx_iff_getElem?.mp hi
    have hj := List.mem_zipIdx_iff_getElem?.mp hj
    dsimp only at hi hj hflag
    rw [hi]
    exact ⟨box, hflag ▸ hj⟩
  · rintro ⟨box, h⟩
    cases hi : ground[image]? with
    | none =>
      rw [hi] at h
      cases h
    | some candidates =>
      rw [hi] at h
      exact ⟨(candidates, image), List.mem_zipIdx_iff_getElem?.mpr hi, ((box, false), best),
        ⟨List.mem_zipIdx_iff_getElem?.mpr h, rfl⟩, rfl, rfl⟩

theorem length_objects : (objects ground).length =
    (ground.map fun candidates ↦ candidates.countP (·.2 = false)).sum := by
  have hcount : ∀ candidates : List (Box × Bool),
      (candidates.zipIdx.filter (·.1.2 = false)).length = candidates.countP (·.2 = false) := by
    intro candidates
    rw [← List.countP_eq_length_filter, ← List.zipIdx_map_fst 0 candidates, List.countP_map]
    simp [Function.comp_def]
  rw [objects, List.length_flatMap]
  simp only [List.length_map, hcount]
  rw [← List.zipIdx_map_fst 0 ground, List.map_map]
  simp [Function.comp_def]

theorem trues_le : trues (assess threshold ground matched l) ≤
    (ground.map fun candidates ↦ candidates.countP (·.2 = false)).sum := by
  obtain ⟨hnodup, hall⟩ := @truePositives_sound threshold ground matched l
  rw [trues_eq, ← length_objects]
  exact (List.subperm_of_subset hnodup fun q hq ↦ mem_objects.mpr (hall q hq).2).length_le

end Matching

end SplitFleet.DetectionMap
