import SplitFleet.DetectionMapLaw

set_option autoImplicit false

namespace SplitFleet.DetectionMap

open Lib

/-! ### Ranking -/

section Sorting

variable {α : Type} {r : α → α → Prop} [DecidableRel r] {x : α} {l₁ l₂ : List α}

theorem orderedInsert_concat {a : α} (h : r a x) (l : List α) :
    (l ++ [x]).orderedInsert r a = l.orderedInsert r a ++ [x] := by
  induction l with
  | nil => exact List.orderedInsert_cons_of_le r [] h
  | cons b l ih =>
    rw [List.cons_append, List.orderedInsert_cons, List.orderedInsert_cons, ih]
    split
    · rfl
    · rfl

theorem orderedInsert_last {l : List α} (h : ∀ b ∈ l, ¬ r x b) : l.orderedInsert r x = l ++ [x] := by
  induction l with
  | nil => rfl
  | cons b l ih =>
    rw [List.orderedInsert_of_not_le r l (h b List.mem_cons_self), ih fun b hb ↦ h b (List.mem_cons_of_mem _ hb)]
    rfl

/-- Sorting puts the lowest item at the end, wherever it is. -/
theorem insertionSort_insert (h₁ : ∀ a ∈ l₁, r a x) (h₂ : ∀ b ∈ l₂, ¬ r x b) :
    (l₁ ++ x :: l₂).insertionSort r = (l₁ ++ l₂).insertionSort r ++ [x] := by
  induction l₁ with
  | nil =>
    rw [List.nil_append, List.nil_append, List.insertionSort_cons]
    exact orderedInsert_last fun b hb ↦ h₂ b ((List.mem_insertionSort r).mp hb)
  | cons a l₁ ih =>
    obtain ⟨ha, h₁⟩ := List.forall_mem_cons.mp h₁
    rw [List.cons_append, List.cons_append, List.insertionSort_cons, List.insertionSort_cons, ih h₁,
      orderedInsert_concat ha]

end Sorting

section Append

variable {threshold : ℚ} {ground : List (List (Box × Bool))} {predictions : List Prediction}

theorem assess_concat (matched : List (ℕ × ℕ)) (l : List Ranked) (p : Ranked) :
    ∃ o, assess threshold ground matched (l ++ [p]) = assess threshold ground matched l ++ [o] := by
  induction l generalizing matched with
  | nil => exact ⟨_, rfl⟩
  | cons q l ih =>
    obtain ⟨o, ho⟩ := ih ((assessOne threshold ground matched q).mark matched)
    refine ⟨o, ?_⟩
    rw [List.cons_append, assess, ho, assess, List.cons_append]

theorem validatePrediction_ok {p : Prediction} :
    validatePrediction p = .ok () ↔ p.boxes.length = p.labels.length ∧ p.scores.length = p.boxes.length := by
  unfold validatePrediction require
  split <;> split <;> simp_all [bind, Except.bind]

def Prediction.add (box : Box) (label : ℤ) (score : ℚ) (p : Prediction) : Prediction :=
  ⟨p.boxes ++ [box], p.labels ++ [label], p.scores ++ [score]⟩

theorem validate_add {p : Prediction} (box : Box) (label : ℤ) (score : ℚ) (h : validatePrediction p = .ok ()) :
    validatePrediction (p.add box label score) = .ok () := by
  obtain ⟨hboxes, hscores⟩ := validatePrediction_ok.mp h
  apply validatePrediction_ok.mpr
  simp [Prediction.add, hboxes, hscores]

theorem ofClass_add {p : Prediction} (h : validatePrediction p = .ok ()) (box : Box) (label : ℤ) (score : ℚ)
    (own : ℤ) (image : ℕ) : (p.add box label score).ofClass own image =
      p.ofClass own image ++ if label = own then [⟨score, image, box⟩] else [] := by
  obtain ⟨hboxes, hscores⟩ := validatePrediction_ok.mp h
  have hzip : p.labels.length = (p.scores.zip p.boxes).length := by
    rw [List.length_zip, hscores, Nat.min_self, hboxes]
  simp only [Prediction.ofClass, Prediction.add, select, List.zip_append hscores, List.zip_append hzip,
    List.filter_append, List.map_append, List.zip_cons_cons, List.zip_nil_right, List.filter_singleton]
  by_cases hown : label = own
  · rw [if_pos hown, decide_eq_true hown]
    rfl
  · rw [if_neg hown, decide_eq_false hown]
    rfl

theorem collected_append (image : ℕ) {p : Prediction} (pre post : List Prediction) (own : ℤ)
    (hlength : pre.length = image) : collected own (pre ++ p :: post) =
      collected own pre ++ p.ofClass own image ++ (post.zipIdx (image + 1)).flatMap fun q ↦ q.1.ofClass own q.2 := by
  rw [collected, List.zipIdx_append, List.flatMap_append, List.zipIdx_cons, List.flatMap_cons, Nat.zero_add, hlength,
    List.append_assoc]
  rfl

/-- What one more prediction adds to the ranking of a class. -/
theorem ranked_add (image : ℕ) (himage : image < predictions.length)
    (hvalid : ∀ p ∈ predictions, validatePrediction p = .ok ()) (box : Box) (label : ℤ) (score : ℚ)
    (hlow : ∀ p ∈ collected label predictions, score < p.score) (own : ℤ) :
    ranked own (predictions.modify image (Prediction.add box label score)) =
      ranked own predictions ++ if label = own then [⟨score, image, box⟩] else [] := by
  have hsplit : predictions = predictions.take image ++ predictions[image] :: predictions.drop (image + 1) := by
    rw [List.getElem_cons_drop, List.take_append_drop]
  have hlength : (predictions.take image).length = image := List.length_take_of_le himage.le
  have hown := hvalid _ (List.getElem_mem himage)
  have hnew : collected own (predictions.modify image (Prediction.add box label score)) =
      collected own (predictions.take image) ++ (predictions[image].ofClass own image ++
        if label = own then [⟨score, image, box⟩] else []) ++
      ((predictions.drop (image + 1)).zipIdx (image + 1)).flatMap fun q ↦ q.1.ofClass own q.2 := by
    rw [List.modify_eq_take_cons_drop himage, collected_append image _ _ _ hlength, ofClass_add hown]
  have hold := collected_append image (p := predictions[image]) _ (predictions.drop (image + 1)) own hlength
  rw [← hsplit] at hold
  rw [ranked, ranked, hnew, hold]
  split
  · next hlabel =>
    rw [← hlabel] at hold ⊢
    rw [hold] at hlow
    simp only [List.append_assoc, List.singleton_append] at hlow ⊢
    rw [← List.append_assoc, insertionSort_insert, List.append_assoc]
    · intro a ha
      exact (hlow a (by simp only [List.mem_append] at ha ⊢; tauto)).le
    · intro b hb
      exact not_le.mpr (hlow b (by simp only [List.mem_append]; tauto))
  · simp only [List.append_nil]

end Append

/-! ### Exact predictions -/

section Overlap

variable {a b : Box}

theorem intersection_self (a : Box) : a.intersection a = a.area := by
  simp only [Box.intersection, Box.area, min_self, max_self]

theorem iou_self (h : 0 < a.area) : a.iou a = 1 := by
  rw [Box.iou, intersection_self, add_sub_cancel_right, if_pos h, div_self h.ne']

/-- The sides of an intersection are no longer than those of the boxes. -/
theorem side_le (a₁ a₂ b₁ b₂ : ℚ) : max 0 (min a₂ b₂ - max a₁ b₁) ≤ max 0 (a₂ - a₁) :=
  max_le_max le_rfl (sub_le_sub (min_le_left _ _) (le_max_left _ _))

theorem intersection_le_area (a b : Box) : a.intersection b ≤ a.area :=
  mul_le_mul (side_le _ _ _ _) (side_le _ _ _ _) (le_max_left _ _) (le_max_left _ _)

theorem intersection_comm (a b : Box) : a.intersection b = b.intersection a := by
  simp only [Box.intersection, min_comm, max_comm]

theorem iou_le_one (a b : Box) : a.iou b ≤ 1 := by
  unfold Box.iou
  split
  · next hunion =>
    have ha := intersection_le_area a b
    have hb := intersection_le_area b a
    rw [intersection_comm b a] at hb
    rw [div_le_one hunion]
    linarith
  · exact zero_le_one

/-- A side that an intersection keeps is within the other box. -/
theorem side_eq {a₁ a₂ b₁ b₂ : ℚ} (hpos : 0 < max 0 (a₂ - a₁))
    (h : max 0 (min a₂ b₂ - max a₁ b₁) = max 0 (a₂ - a₁)) : a₁ = max a₁ b₁ ∧ a₂ = min a₂ b₂ := by
  have hside : 0 < a₂ - a₁ := (lt_max_iff.mp hpos).resolve_left (lt_irrefl 0)
  have hinter : 0 < min a₂ b₂ - max a₁ b₁ := (lt_max_iff.mp (h ▸ hpos)).resolve_left (lt_irrefl 0)
  rw [max_eq_right hside.le, max_eq_right hinter.le] at h
  have hlow := le_max_left a₁ b₁
  have hhigh := min_le_left a₂ b₂
  constructor <;> linarith

/-- An intersection as large as a box is that box. -/
theorem eq_of_area_le (h : 0 < a.area) (hfull : a.area ≤ a.intersection b) :
    (a.x1 = max a.x1 b.x1 ∧ a.x2 = min a.x2 b.x2) ∧ a.y1 = max a.y1 b.y1 ∧ a.y2 = min a.y2 b.y2 := by
  have hx : 0 < max 0 (a.x2 - a.x1) := pos_of_mul_pos_left h (le_max_left _ _)
  have hy : 0 < max 0 (a.y2 - a.y1) := pos_of_mul_pos_right h (le_max_left _ _)
  have hkept := h.trans_le hfull
  have hsides := eq_and_eq_of_pos_of_le_of_mul_le_mul (pos_of_mul_pos_left hkept (le_max_left _ _))
    (pos_of_mul_pos_right hkept (le_max_left _ _)) (side_le _ _ _ _) (side_le _ _ _ _) hfull
  exact ⟨side_eq hx hsides.1, side_eq hy hsides.2⟩

theorem eq_of_one_le_iou (ha : 0 < a.area) (hb : 0 < b.area) (h : 1 ≤ a.iou b) : a = b := by
  have hab := intersection_le_area a b
  have hba := intersection_le_area b a
  rw [intersection_comm b a] at hba
  have hunion : 0 < a.area + b.area - a.intersection b := by linarith
  rw [Box.iou, if_pos hunion, one_le_div hunion] at h
  have hafull : a.area ≤ a.intersection b := by linarith
  have hbfull : b.area ≤ b.intersection a := by
    rw [intersection_comm]
    linarith
  obtain ⟨⟨hx₁, hx₂⟩, hy₁, hy₂⟩ := eq_of_area_le ha hafull
  obtain ⟨⟨kx₁, kx₂⟩, ky₁, ky₂⟩ := eq_of_area_le hb hbfull
  rw [max_comm] at kx₁ ky₁
  rw [min_comm] at kx₂ ky₂
  cases a
  cases b
  rw [Box.mk.injEq]
  exact ⟨hx₁.trans kx₁.symm, hy₁.trans ky₁.symm, hx₂.trans kx₂.symm, hy₂.trans ky₂.symm⟩

end Overlap

section Exact

variable {threshold : ℚ} {ground : List (List (Box × Bool))} {matched : List (ℕ × ℕ)}

/-- The boxes of the class in an image. -/
def boxesOf (ground : List (List (Box × Bool))) (image : ℕ) : List Box := (ground.getD image []).map Prod.fst

/-- The boxes of each image are different and have an area. -/
structure Distinct (ground : List (List (Box × Bool))) : Prop where
  nodup : ∀ image, (boxesOf ground image).Nodup
  positive : ∀ image, ∀ box ∈ boxesOf ground image, 0 < box.area

theorem getElem?_boxesOf {image best : ℕ} {box : Box} {flag : Bool}
    (h : (ground.getD image [])[best]? = some (box, flag)) : (boxesOf ground image)[best]? = some box := by
  rw [boxesOf, List.getElem?_map, h]
  rfl

theorem Distinct.argmax_eq (h : Distinct ground) {image best : ℕ} {box : Box}
    (hbox : (boxesOf ground image)[best]? = some box) :
    argmax (boxIou box (boxesOf ground image)) = best ∧ (boxIou box (boxesOf ground image)).getD best 0 = 1 := by
  have hmem := List.mem_of_getElem? hbox
  have hself := iou_self (h.positive image box hmem)
  have hone : 1 ∈ boxIou box (boxesOf ground image) := List.mem_map.mpr ⟨box, hmem, hself⟩
  obtain ⟨v, hv, hgreatest⟩ := argmax_spec (List.ne_nil_of_mem hone)
  rw [boxIou, List.getElem?_map, Option.map_eq_some_iff] at hv
  obtain ⟨other, hother, rfl⟩ := hv
  have hpositive := h.positive image
  have hsame := eq_of_one_le_iou (hpositive _ hmem) (hpositive _ (List.mem_of_getElem? hother)) (hgreatest 1 hone)
  refine ⟨getElem?_inj_of_nodup (h.nodup image) (hsame ▸ hother) hbox, ?_⟩
  rw [boxIou, List.getD_eq_getElem?_getD, List.getElem?_map, hbox]
  exact hself

/-- A prediction of a box that is not matched yet finds it. -/
theorem Distinct.assessOne_eq (h : Distinct ground) (hthreshold : threshold ≤ 1) {p : Ranked} {best : ℕ} {flag : Bool}
    (hp : (ground.getD p.image [])[best]? = some (p.box, flag)) (hfresh : (p.image, best) ∉ matched) :
    assessOne threshold ground matched p = if flag = true then .ignored else .truePositive p.image best := by
  have hne : ground.getD p.image [] ≠ [] := by
    intro hnil
    rw [hnil] at hp
    cases hp
  obtain ⟨hbest, hone⟩ := h.argmax_eq (getElem?_boxesOf hp)
  have hflag : ((ground.getD p.image []).map Prod.snd).getD best false = flag := by
    rw [List.getD_eq_getElem?_getD, List.getElem?_map, hp]
    rfl
  unfold assessOne
  rw [boxesOf] at hbest hone
  dsimp only
  rw [if_neg hne, hbest, hone, hflag]
  cases flag with
  | true => rw [if_pos ⟨hthreshold, rfl⟩, if_pos rfl]
  | false =>
    rw [if_neg fun hdifficult ↦ Bool.false_ne_true hdifficult.2, if_pos ⟨hthreshold, hfresh⟩]
    rfl

theorem Distinct.assess_eq (h : Distinct ground) (hthreshold : threshold ≤ 1) {l : List Ranked}
    (hl : ∀ p ∈ l, p.box ∈ boxesOf ground p.image) (hnodup : (l.map fun p ↦ (p.image, p.box)).Nodup)
    (hfresh : ∀ p ∈ l, ∀ best, (p.image, best) ∈ matched → (boxesOf ground p.image)[best]? ≠ some p.box) :
    falses (assess threshold ground matched l) = 0 ∧ ∀ p ∈ l, ∀ best,
      (ground.getD p.image [])[best]? = some (p.box, false) →
        (p.image, best) ∈ truePositives (assess threshold ground matched l) := by
  induction l generalizing matched with
  | nil => simp [assess, falses]
  | cons p l ih =>
    obtain ⟨hp, hl⟩ := List.forall_mem_cons.mp hl
    obtain ⟨hpl, hnodup⟩ := List.nodup_cons.mp hnodup
    obtain ⟨hpfresh, hfresh⟩ := List.forall_mem_cons.mp hfresh
    obtain ⟨⟨box, flag⟩, hmem, hbox⟩ := List.mem_map.mp hp
    obtain ⟨best, hbest⟩ := List.mem_iff_getElem?.mp hmem
    obtain rfl : box = p.box := hbox
    have hnew := fun hmatched ↦ hpfresh best hmatched (getElem?_boxesOf hbest)
    have ho := h.assessOne_eq hthreshold hbest hnew
    rw [assess, ho]
    have hunique : ∀ other, (ground.getD p.image [])[other]? = some (p.box, false) → other = best ∧ flag = false := by
      intro other hother
      obtain rfl := getElem?_inj_of_nodup (h.nodup p.image) (getElem?_boxesOf hother) (getElem?_boxesOf hbest)
      rw [hbest] at hother
      exact ⟨rfl, congrArg Prod.snd (Option.some.inj hother)⟩
    cases flag with
    | true =>
      obtain ⟨hfalses, htrues⟩ := ih hl hnodup hfresh
      refine ⟨(falses_cons.trans (Nat.zero_add _)).trans hfalses, List.forall_mem_cons.mpr ⟨?_, htrues⟩⟩
      intro other hother
      cases (hunique other hother).2
    | false =>
      have hstill : ∀ q ∈ l, ∀ other, (q.image, other) ∈ (p.image, best) :: matched →
          (boxesOf ground q.image)[other]? ≠ some q.box := by
        intro q hq other hother hqbox
        obtain heq | hold := List.mem_cons.mp hother
        · obtain ⟨himage, rfl⟩ := Prod.mk.inj heq
          rw [himage, getElem?_boxesOf hbest, Option.some.injEq] at hqbox
          exact hpl (List.mem_map.mpr ⟨q, hq, Prod.ext himage hqbox.symm⟩)
        · exact hfresh q hq other hold hqbox
      obtain ⟨hfalses, htrues⟩ := ih hl hnodup hstill
      refine ⟨(falses_cons.trans (Nat.zero_add _)).trans hfalses, List.forall_mem_cons.mpr ⟨?_, ?_⟩⟩
      · intro other hother
        rw [(hunique other hother).1]
        exact List.mem_cons_self
      · exact fun q hq other hother ↦ List.mem_cons_of_mem _ (htrues q hq other hother)

theorem pairwise_zipIdx {α : Type} (l : List α) : l.zipIdx.Pairwise fun a b ↦ a.2 ≠ b.2 := by
  apply List.pairwise_map.mp
  rw [List.zipIdx_map_snd]
  exact List.nodup_range'

theorem objects_nodup (ground : List (List (Box × Bool))) : (objects ground).Nodup := by
  refine List.nodup_flatMap.mpr ⟨fun p _ ↦ ?_, (pairwise_zipIdx ground).imp fun hne q hq hq' ↦ ?_⟩
  · exact List.pairwise_map.mpr (((pairwise_zipIdx p.1).filter _).imp fun hne heq ↦ hne (Prod.mk.inj heq).2)
  · obtain ⟨_, -, rfl⟩ := List.mem_map.mp hq
    obtain ⟨_, -, heq⟩ := List.mem_map.mp hq'
    exact hne (Prod.mk.inj heq).1.symm

/-! ### Records -/

theorem validateTarget_ok {t : Target} :
    validateTarget t = .ok () ↔
      t.boxes.length = t.labels.length ∧ ∀ flags ∈ t.difficult, flags.length = t.boxes.length := by
  unfold validateTarget require
  split <;> split <;> simp_all [bind, Except.bind]

theorem length_flags {t : Target} (h : validateTarget t = .ok ()) : t.boxes.length = t.flags.length := by
  obtain ⟨hboxes, hflags⟩ := validateTarget_ok.mp h
  unfold Target.flags
  cases hdifficult : t.difficult with
  | none => rw [Option.getD_none, List.length_replicate, hboxes]
  | some flags => exact (hflags flags hdifficult).symm

theorem map_select {α β : Type} (f : α → β) (label : ℤ) (labels : List ℤ) (values : List α) :
    (select label labels values).map f = select label labels (values.map f) := by
  simp only [select, List.zip_map_right, List.filter_map, List.map_map]
  rfl

theorem select_perm {α : Type} {label : ℤ} {labels labels' : List ℤ} {values values' : List α}
    (h : (labels.zip values).Perm (labels'.zip values')) :
    (select label labels values).Perm (select label labels' values') :=
  (h.filter _).map _

theorem select_nodup {α : Type} {label : ℤ} {labels : List ℤ} {values : List α} (h : (labels.zip values).Nodup) :
    (select label labels values).Nodup := by
  refine (h.filter _).map_on ?_
  intro p hp q hq heq
  obtain ⟨-, hp⟩ := List.mem_filter.mp hp
  obtain ⟨-, hq⟩ := List.mem_filter.mp hq
  exact Prod.ext ((of_decide_eq_true hp).trans (of_decide_eq_true hq).symm) heq

theorem candidates_fst {t : Target} (h : validateTarget t = .ok ()) (label : ℤ) :
    (t.candidates label).map Prod.fst = select label t.labels t.boxes := by
  rw [Target.candidates, map_select, List.map_fst_zip (length_flags h).le]

theorem ofClass_key {p : Prediction} (h : validatePrediction p = .ok ()) (label : ℤ) (image : ℕ) :
    (p.ofClass label image).map (fun q ↦ (q.image, q.box)) = (select label p.labels p.boxes).map (Prod.mk image) := by
  have hboxes := map_select Prod.snd label p.labels (p.scores.zip p.boxes)
  rw [List.map_snd_zip (validatePrediction_ok.mp h).2.ge] at hboxes
  rw [Prediction.ofClass, List.map_map, ← hboxes, List.map_map]
  rfl

theorem mem_collected {label : ℤ} {predictions : List Prediction} {q : Ranked} : q ∈ collected label predictions ↔
    ∃ p, predictions[q.image]? = some p ∧ q ∈ p.ofClass label q.image := by
  simp only [collected, List.mem_flatMap, Prod.exists, List.mem_zipIdx_iff_getElem?]
  constructor
  · rintro ⟨p, i, hp, hq⟩
    have himage : q.image = i := by
      obtain ⟨_, -, rfl⟩ := List.mem_map.mp hq
      rfl
    exact ⟨p, himage ▸ hp, himage ▸ hq⟩
  · rintro ⟨p, hp, hq⟩
    exact ⟨p, q.image, hp, hq⟩

/-- The predictions of an image are its objects, in any order. -/
structure Exact (targets : List Target) (predictions : List Prediction) : Prop where
  same : List.Forall₂ (fun (t : Target) (p : Prediction) ↦ (p.labels.zip p.boxes).Perm (t.labels.zip t.boxes))
    targets predictions
  distinct : ∀ t ∈ targets, (t.labels.zip t.boxes).Nodup
  positive : ∀ t ∈ targets, ∀ box ∈ t.boxes, 0 < box.area

/-- What `detection_map` accepts. -/
structure Valid (threshold : ℚ) (targets : List Target) (predictions : List Prediction) : Prop where
  pos : 0 < threshold
  le_one : threshold ≤ 1
  aligned : targets.length = predictions.length
  targets_ok : ∀ t ∈ targets, validateTarget t = .ok ()
  predictions_ok : ∀ p ∈ predictions, validatePrediction p = .ok ()
  object : ∃ t ∈ targets, false ∈ t.flags

variable {targets : List Target} {predictions : List Prediction}

theorem boxesOf_groundTruth (h : Valid threshold targets predictions) (label : ℤ) (image : ℕ) :
    boxesOf (groundTruth label targets) image =
      (targets[image]?.map fun t ↦ select label t.labels t.boxes).getD [] := by
  rw [boxesOf, groundTruth, List.getD_eq_getElem?_getD, List.getElem?_map]
  cases ht : targets[image]? with
  | none => rfl
  | some t => exact candidates_fst (h.targets_ok t (List.mem_of_getElem? ht)) label

theorem Exact.distinct_ground (hexact : Exact targets predictions) (h : Valid threshold targets predictions)
    (label : ℤ) : Distinct (groundTruth label targets) := by
  constructor
  · intro image
    rw [boxesOf_groundTruth h]
    cases ht : targets[image]? with
    | none => exact List.nodup_nil
    | some t => exact select_nodup (hexact.distinct t (List.mem_of_getElem? ht))
  · intro image box hbox
    rw [boxesOf_groundTruth h] at hbox
    cases ht : targets[image]? with
    | none =>
      rw [ht] at hbox
      cases hbox
    | some t =>
      rw [ht] at hbox
      obtain ⟨p, hp, rfl⟩ := List.mem_map.mp hbox
      exact hexact.positive t (List.mem_of_getElem? ht) _ (List.of_mem_zip (List.mem_of_mem_filter hp)).2

/-- The predictions of a class are the objects of the class, image by image. -/
theorem Exact.key_perm (hexact : Exact targets predictions) (h : Valid threshold targets predictions) (label : ℤ)
    {image : ℕ} {p : Prediction} (hp : predictions[image]? = some p) :
    ((p.ofClass label image).map fun q ↦ (q.image, q.box)).Perm
      ((boxesOf (groundTruth label targets) image).map (Prod.mk image)) := by
  obtain ⟨himage, rfl⟩ := List.getElem?_eq_some_iff.mp hp
  have htargets : image < targets.length := h.aligned ▸ himage
  have hsame := hexact.same.get htargets himage
  rw [ofClass_key (h.predictions_ok _ (List.getElem_mem himage)), boxesOf_groundTruth h,
    List.getElem?_eq_getElem htargets]
  exact (select_perm hsame).map _

theorem Exact.mem_ranked (hexact : Exact targets predictions) (h : Valid threshold targets predictions) {label : ℤ}
    {image : ℕ} {box : Box} : box ∈ boxesOf (groundTruth label targets) image ↔
      ∃ q ∈ ranked label predictions, q.image = image ∧ q.box = box := by
  simp only [ranked, List.mem_insertionSort, mem_collected]
  constructor
  · intro hbox
    have himage : image < predictions.length := by
      by_contra hge
      rw [boxesOf_groundTruth h, List.getElem?_eq_none (h.aligned ▸ not_lt.mp hge)] at hbox
      cases hbox
    have hp := List.getElem?_eq_getElem himage
    have hmem := (hexact.key_perm h label hp).mem_iff.mpr (List.mem_map_of_mem hbox)
    obtain ⟨q, hq, heq⟩ := List.mem_map.mp hmem
    obtain ⟨rfl, hqbox⟩ := Prod.mk.inj heq
    exact ⟨q, ⟨_, hp, hq⟩, rfl, hqbox⟩
  · rintro ⟨q, ⟨p, hp, hq⟩, rfl, rfl⟩
    have hmem := (hexact.key_perm h label hp).mem_iff.mp (List.mem_map_of_mem hq)
    obtain ⟨box, hbox, heq⟩ := List.mem_map.mp hmem
    exact (Prod.mk.inj heq).2 ▸ hbox

theorem Exact.ranked_nodup (hexact : Exact targets predictions) (h : Valid threshold targets predictions) (label : ℤ) :
    ((ranked label predictions).map fun q ↦ (q.image, q.box)).Nodup := by
  have hperm := (List.perm_insertionSort (fun a b : Ranked ↦ b.score ≤ a.score) (collected label predictions)).map
    fun q ↦ (q.image, q.box)
  rw [ranked, hperm.nodup_iff, collected, List.map_flatMap]
  refine List.nodup_flatMap.mpr ⟨?_, (pairwise_zipIdx predictions).imp ?_⟩
  · rintro ⟨p, image⟩ hp
    have hp := List.mem_zipIdx_iff_getElem?.mp hp
    rw [(hexact.key_perm h label hp).nodup_iff]
    exact ((hexact.distinct_ground h label).nodup image).map fun _ _ heq ↦ (Prod.mk.inj heq).2
  · intro a b hne q hqa hqb
    simp only [Prediction.ofClass, List.map_map, List.mem_map, Function.comp_apply] at hqa hqb
    obtain ⟨_, -, rfl⟩ := hqa
    obtain ⟨_, -, heq⟩ := hqb
    exact hne (Prod.mk.inj heq).1.symm

/-- Exact predictions find every object, and nothing else. -/
theorem Exact.outcomes_full (hexact : Exact targets predictions) (h : Valid threshold targets predictions) (label : ℤ) :
    trues (outcomes threshold label targets predictions) = totalGroundTruth label targets ∧
      falses (outcomes threshold label targets predictions) = 0 := by
  obtain ⟨hfalses, htrues⟩ := (hexact.distinct_ground h label).assess_eq h.le_one
    (fun q hq ↦ (hexact.mem_ranked h).mpr ⟨q, hq, rfl, rfl⟩) (hexact.ranked_nodup h label)
    fun _ _ _ hmatched ↦ absurd hmatched List.not_mem_nil
  refine ⟨le_antisymm trues_le ?_, hfalses⟩
  have hsubset :
      objects (groundTruth label targets) ⊆ truePositives (outcomes threshold label targets predictions) := by
    rintro ⟨image, best⟩ hobject
    obtain ⟨box, hbox⟩ := mem_objects.mp hobject
    obtain ⟨q, hq, rfl, rfl⟩ := (hexact.mem_ranked h).mp (List.mem_of_getElem? (getElem?_boxesOf hbox))
    exact htrues q hq best hbox
  rw [trues_eq, totalGroundTruth, ← length_objects]
  exact (List.subperm_of_subset (objects_nodup _) hsubset).length_le

end Exact

/-! ### The metric -/

section Metric

variable {threshold : ℚ} {mode : ApMode} {targets : List Target} {predictions : List Prediction} {r : ℚ}

/-- `average_precisions` -/
def precisions (threshold : ℚ) (mode : ApMode) (targets : List Target) (predictions : List Prediction) : List ℚ :=
  (classes targets).filterMap (classPrecision threshold mode targets predictions)

theorem mem_precisions {v : ℚ} : v ∈ precisions threshold mode targets predictions ↔
    ∃ label ∈ classes targets, totalGroundTruth label targets ≠ 0 ∧ averagePrecision mode
      (curve (totalGroundTruth label targets) 0 0 (outcomes threshold label targets predictions)) = v := by
  simp only [precisions, List.mem_filterMap, classPrecision]
  refine exists_congr fun label ↦ and_congr_right fun _ ↦ ?_
  split
  · next hzero => simp [hzero]
  · next hpos => simp [hpos]

theorem totalGroundTruth_ne_zero {label : ℤ} :
    totalGroundTruth label targets ≠ 0 ↔ ∃ t ∈ targets, ∃ box, (box, false) ∈ t.candidates label := by
  rw [totalGroundTruth, ne_eq, List.sum_eq_zero_iff]
  simp only [groundTruth, List.map_map, List.mem_map, Function.comp_apply, forall_exists_index, and_imp,
    forall_apply_eq_imp_iff₂, List.countP_eq_zero, not_forall, decide_eq_true_eq, not_not, exists_prop]
  refine exists_congr fun t ↦ and_congr_right fun _ ↦ ?_
  constructor
  · rintro ⟨⟨box, flag⟩, hmem, rfl⟩
    exact ⟨box, hmem⟩
  · rintro ⟨box, hmem⟩
    exact ⟨(box, false), hmem, rfl⟩

theorem mem_candidates {t : Target} {label : ℤ} {c : Box × Bool} :
    c ∈ t.candidates label ↔ (label, c) ∈ t.labels.zip (t.boxes.zip t.flags) := by
  simp only [Target.candidates, select, List.mem_map, List.mem_filter, decide_eq_true_eq]
  constructor
  · rintro ⟨⟨own, c⟩, ⟨hmem, rfl⟩, rfl⟩
    exact hmem
  · exact fun hmem ↦ ⟨(label, c), ⟨hmem, rfl⟩, rfl⟩

theorem mem_classes {label : ℤ} : label ∈ classes targets ↔ ∃ t ∈ targets, label ∈ t.labels := by
  simp only [classes, List.mem_insertionSort, List.mem_dedup, List.mem_flatMap]

/-- There is a class to average for when an object is not difficult. -/
theorem object_iff (h : ∀ t ∈ targets, validateTarget t = .ok ()) :
    (∃ label ∈ classes targets, totalGroundTruth label targets ≠ 0) ↔ ∃ t ∈ targets, false ∈ t.flags := by
  simp only [totalGroundTruth_ne_zero, mem_classes, mem_candidates]
  constructor
  · rintro ⟨label, -, t, ht, box, hmem⟩
    exact ⟨t, ht, (List.of_mem_zip (List.of_mem_zip hmem).2).2⟩
  · rintro ⟨t, ht, hflag⟩
    have hflags := length_flags (h t ht)
    have hzip : (t.boxes.zip t.flags).length = t.labels.length := by
      rw [List.length_zip, ← hflags, Nat.min_self, (validateTarget_ok.mp (h t ht)).1]
    rw [← List.map_snd_zip hflags.ge, ← List.map_snd_zip hzip.le] at hflag
    simp only [List.map_map, List.mem_map, Function.comp_apply] at hflag
    obtain ⟨⟨label, box, flag⟩, hmem, rfl⟩ := hflag
    exact ⟨label, ⟨t, ht, (List.of_mem_zip hmem).1⟩, t, ht, box, hmem⟩

theorem precisions_ne_nil (h : ∀ t ∈ targets, validateTarget t = .ok ()) :
    precisions threshold mode targets predictions ≠ [] ↔ ∃ t ∈ targets, false ∈ t.flags := by
  rw [← object_iff h]
  constructor
  · intro hne
    obtain ⟨v, hv⟩ := List.exists_mem_of_ne_nil _ hne
    obtain ⟨label, hlabel, htotal, -⟩ := mem_precisions.mp hv
    exact ⟨label, hlabel, htotal⟩
  · rintro ⟨label, hlabel, htotal⟩
    exact List.ne_nil_of_mem (mem_precisions.mpr ⟨label, hlabel, htotal, rfl⟩)

/-- It returns the mean of the classes exactly for valid arguments. -/
theorem detectionMap_eq_ok_iff : detectionMap threshold mode targets predictions = .ok r ↔
    Valid threshold targets predictions ∧ mean (precisions threshold mode targets predictions) = r := by
  unfold detectionMap
  constructor
  · intro h
    obtain ⟨_, hthreshold, h⟩ := bind_eq_ok h
    obtain ⟨_, haligned, h⟩ := bind_eq_ok h
    obtain ⟨_, htargets, h⟩ := bind_eq_ok h
    obtain ⟨_, hpredictions, h⟩ := bind_eq_ok h
    obtain ⟨_, -, h⟩ := bind_eq_ok h
    obtain ⟨_, hprecisions, h⟩ := bind_eq_ok h
    obtain ⟨hpos, hone⟩ := of_require hthreshold
    have htargets := forM_eq_ok_iff.mp htargets
    refine ⟨⟨hpos, hone, (of_require haligned).2, htargets, forM_eq_ok_iff.mp hpredictions, ?_⟩, Except.ok.inj h⟩
    exact (precisions_ne_nil htargets).mp (of_require hprecisions)
  · rintro ⟨h, rfl⟩
    obtain ⟨label, hlabel, -⟩ := (object_iff h.targets_ok).mpr h.object
    have hne : targets ≠ [] := List.ne_nil_of_mem h.object.choose_spec.1
    rw [require_of ⟨h.pos, h.le_one⟩, ok_bind, require_of ⟨hne, h.aligned⟩, ok_bind,
      forM_eq_ok_iff.mpr h.targets_ok, ok_bind, forM_eq_ok_iff.mpr h.predictions_ok, ok_bind,
      require_of (List.ne_nil_of_mem hlabel), ok_bind]
    have hprecisions := (@precisions_ne_nil threshold mode _ predictions h.targets_ok).mpr h.object
    rw [precisions] at hprecisions ⊢
    dsimp only
    rw [require_of hprecisions]
    rfl

theorem Valid.add (h : Valid threshold targets predictions) (image : ℕ) (box : Box) (label : ℤ) (score : ℚ) :
    Valid threshold targets (predictions.modify image (Prediction.add box label score)) := by
  refine ⟨h.pos, h.le_one, by rw [List.length_modify, h.aligned], h.targets_ok, ?_, h.object⟩
  intro p hp
  obtain ⟨i, hi⟩ := List.mem_iff_getElem?.mp hp
  rw [List.getElem?_modify, Option.map_eq_map, Option.map_eq_some_iff] at hi
  obtain ⟨q, hq, rfl⟩ := hi
  have hq := h.predictions_ok q (List.mem_of_getElem? hq)
  split
  · exact validate_add box label score hq
  · exact hq

/-- A last prediction does not lower the precision of any class. -/
theorem precisions_add (h : Valid threshold targets predictions) {image : ℕ} (himage : image < predictions.length)
    (box : Box) (label : ℤ) (score : ℚ) (hlow : ∀ p ∈ collected label predictions, score < p.score) :
    List.Forall₂ (· ≤ ·) (precisions threshold mode targets predictions)
      (precisions threshold mode targets (predictions.modify image (Prediction.add box label score))) := by
  unfold precisions
  induction classes targets with
  | nil => exact .nil
  | cons own rest ih =>
    by_cases htotal : totalGroundTruth own targets = 0
    · have hnone : ∀ ps, classPrecision threshold mode targets ps own = none := fun _ ↦ if_pos htotal
      rw [List.filterMap_cons_none (hnone _), List.filterMap_cons_none (hnone _)]
      exact ih
    · have hsome : ∀ ps, classPrecision threshold mode targets ps own = some (averagePrecision mode
          (curve (totalGroundTruth own targets) 0 0 (outcomes threshold own targets ps))) := fun _ ↦ if_neg htotal
      rw [List.filterMap_cons_some (hsome _), List.filterMap_cons_some (hsome _)]
      refine .cons ?_ ih
      rw [outcomes, outcomes, ranked_add image himage h.predictions_ok box label score hlow own]
      split
      · obtain ⟨o, ho⟩ := @assess_concat threshold (groundTruth own targets) []
          (ranked own predictions) ⟨score, image, box⟩
        have hle := @trues_le threshold (groundTruth own targets) [] (ranked own predictions ++ [⟨score, image, box⟩])
        rw [ho] at hle ⊢
        exact averagePrecision_concat (Nat.pos_of_ne_zero htotal) hle
      · rw [List.append_nil]

theorem collected_score {label : ℤ} {p : Ranked} (h : p ∈ collected label predictions) :
    ∃ q ∈ predictions, (label, p.score) ∈ q.labels.zip q.scores := by
  obtain ⟨q, hq, hp⟩ := mem_collected.mp h
  refine ⟨q, List.mem_of_getElem? hq, ?_⟩
  obtain ⟨⟨score, box⟩, hmem, heq⟩ := List.mem_map.mp hp
  obtain ⟨⟨own, pair⟩, hmem, rfl⟩ := List.mem_map.mp hmem
  obtain ⟨hmem, hown⟩ := List.mem_filter.mp hmem
  obtain ⟨i, hi⟩ := List.mem_iff_getElem?.mp hmem
  obtain ⟨hlabel, hpair⟩ := List.getElem?_zip_eq_some.mp hi
  obtain rfl : own = label := of_decide_eq_true hown
  have hscore : p.score = score := by rw [← heq]
  rw [hscore]
  exact List.mem_of_getElem? (List.getElem?_zip_eq_some.mpr ⟨hlabel, (List.getElem?_zip_eq_some.mp hpair).1⟩)

theorem precisions_mem_unit {v : ℚ} (hv : v ∈ precisions threshold mode targets predictions) : 0 ≤ v ∧ v ≤ 1 := by
  obtain ⟨label, -, htotal, rfl⟩ := mem_precisions.mp hv
  exact averagePrecision_mem_unit (Nat.pos_of_ne_zero htotal) trues_le

end Metric

end SplitFleet.DetectionMap
