import SplitFleet.OwnedEntries

set_option autoImplicit false

namespace SplitFleet.OwnedAggregation

open Lib StateOwnership Reassembly

variable {initial out : List Tensor} {policy : IntegerPolicy} {updates : List OwnedUpdate}
  {xs : List (List Tensor × ℚ)}

/-! ### Well formed states -/

section States

variable {s t : List Tensor} {p j : ℕ} {base : Tensor}

theorem congruent_of_schema (hs : ∀ x ∈ s, x.WellFormed) (ht : ∀ x ∈ t, x.WellFormed)
    (h : List.Forall₂ SameSchema s t) : Congruent s t := by
  induction h with
  | nil => exact .nil
  | @cons x y xs ys hxy _ ih =>
    obtain ⟨hx, hxs⟩ := List.forall_mem_cons.mp hs
    obtain ⟨hy, hys⟩ := List.forall_mem_cons.mp ht
    refine .cons ⟨hxy.1, ?_⟩ (ih hxs hys)
    rw [hx.length, hxy.1, hy.length]

theorem getElem?_of_schema (h : List.Forall₂ SameSchema s t) {y : Tensor} (hy : t[p]? = some y) :
    ∃ x, s[p]? = some x ∧ SameSchema x y := by
  induction h generalizing p with
  | nil => cases hy
  | @cons x _ xs _ hxy _ ih =>
    cases p with
    | zero =>
      cases hy
      exact ⟨x, rfl, hxy⟩
    | succ p => exact ih hy

theorem entryAt_of_getElem? {x : Tensor} (h : s[p]? = some x) (j : ℕ) : entryAt s p j = x.data[j]?.getD 0 := by
  rw [entryAt, h]
  rfl

theorem entryAt_of_length_le (h : s.length ≤ p) (j : ℕ) : entryAt s p j = 0 := by
  rw [entryAt, List.getElem?_eq_none h]
  rfl

theorem entryAt_admits (hs : ∀ x ∈ s, x.WellFormed) (h : List.Forall₂ SameSchema s initial)
    (hb : initial[p]? = some base) : base.dtype.kind.Admits (entryAt s p j) := by
  obtain ⟨x, hx, hsame⟩ := getElem?_of_schema h hb
  rw [entryAt_of_getElem? hx, ← hsame.2]
  cases hq : x.data[j]? with
  | none => exact Tensor.admits_zero _
  | some q => exact (hs x (List.mem_of_getElem? hx)).admits q (List.mem_of_getElem? hq)

/-- The entries tell well formed states of one schema apart. -/
theorem state_ext (hs : ∀ x ∈ s, x.WellFormed) (ht : ∀ x ∈ t, x.WellFormed)
    (hsi : List.Forall₂ SameSchema s initial) (hti : List.Forall₂ SameSchema t initial)
    (h : ∀ p, p < initial.length → ∀ j, entryAt s p j = entryAt t p j) : s = t := by
  apply List.ext_getElem?
  intro p
  cases hb : initial[p]? with
  | none =>
    have hp := List.getElem?_eq_none_iff.mp hb
    rw [List.getElem?_eq_none (hsi.length_eq ▸ hp), List.getElem?_eq_none (hti.length_eq ▸ hp)]
  | some base =>
    obtain ⟨x, hx, hxb⟩ := getElem?_of_schema hsi hb
    obtain ⟨y, hy, hyb⟩ := getElem?_of_schema hti hb
    have hxl := (hs x (List.mem_of_getElem? hx)).length
    have hyl := (ht y (List.mem_of_getElem? hy)).length
    have hshape := hxb.1.trans hyb.1.symm
    have hdata : x.data = y.data := by
      apply List.ext_getElem (by rw [hxl, hyl, hshape])
      intro j hjx hjy
      have hj := h p (List.getElem?_eq_some_iff.mp hb).1 j
      rw [entryAt_of_getElem? hx, entryAt_of_getElem? hy, List.getElem?_eq_getElem hjx,
        List.getElem?_eq_getElem hjy] at hj
      exact hj
    obtain ⟨dx, sx, vx⟩ := x
    obtain ⟨dy, sy, vy⟩ := y
    obtain rfl : dx = dy := hxb.2.trans hyb.2.symm
    obtain rfl : sx = sy := hshape
    obtain rfl : vx = vy := hdata
    rw [hx, hy]

end States

/-! ### The aggregate of logical states -/

/-- What a state has to be as an aggregate of weighted states. -/
structure IsAggregate (policy : IntegerPolicy) (initial : List Tensor) (xs : List (List Tensor × ℚ))
    (out : List Tensor) : Prop where
  schema : List.Forall₂ SameSchema out initial
  wellFormed : ∀ t ∈ out, t.WellFormed
  float : ∀ (p : ℕ) (base : Tensor), initial[p]? = some base → base.dtype.inexact = true →
    ∀ j, entryAt out p j = meanOf (column xs p j)
  rounded : ∀ (p : ℕ) (base : Tensor), initial[p]? = some base → base.dtype.inexact = false →
    policy = .weightedRound → ∀ j, entryAt out p j = Tensor.rint (meanOf (column xs p j))
  maximum : ∀ (p : ℕ) (base : Tensor), initial[p]? = some base → base.dtype.inexact = false →
    policy = .maximum → ∀ j, IsTop xs p j (entryAt out p j)

/-- The states that go into an aggregate. -/
structure Inputs (initial : List Tensor) (xs : List (List Tensor × ℚ)) : Prop where
  nonempty : xs ≠ []
  pos : ∀ x ∈ xs, 0 < x.2
  schema : ∀ x ∈ xs, List.Forall₂ SameSchema x.1 initial
  wellFormed : ∀ x ∈ xs, ∀ t ∈ x.1, t.WellFormed

section Aggregate

variable {p j : ℕ} {base : Tensor}

theorem IsTop.unique {q q' : ℚ} (h : IsTop xs p j q) (h' : IsTop xs p j q') : q = q' := by
  obtain ⟨⟨x, hx, hq⟩, hle⟩ := h
  obtain ⟨⟨y, hy, hq'⟩, hle'⟩ := h'
  apply le_antisymm
  · rw [hq]
    exact hle' x hx
  · rw [hq']
    exact hle y hy

/-- There is one aggregate. -/
theorem IsAggregate.unique {out' : List Tensor} (h : IsAggregate policy initial xs out)
    (h' : IsAggregate policy initial xs out') : out = out' := by
  refine state_ext h.wellFormed h'.wellFormed h.schema h'.schema fun p hp j ↦ ?_
  have hb := List.getElem?_eq_getElem hp
  cases hx : initial[p].dtype.inexact with
  | true => rw [h.float p _ hb hx, h'.float p _ hb hx]
  | false =>
    cases policy with
    | weightedRound => rw [h.rounded p _ hb hx rfl, h'.rounded p _ hb hx rfl]
    | maximum => exact (h.maximum p _ hb hx rfl j).unique (h'.maximum p _ hb hx rfl j)

theorem IsAggregate.perm {ys : List (List Tensor × ℚ)} (h : IsAggregate policy initial xs out) (hp : xs.Perm ys) :
    IsAggregate policy initial ys out where
  schema := h.schema
  wellFormed := h.wellFormed
  float p base hb hx j := (h.float p base hb hx j).trans (meanOf_perm (hp.map _))
  rounded p base hb hx hm j := by rw [h.rounded p base hb hx hm j, column, meanOf_perm (hp.map _), column]
  maximum p base hb hx hm j := by
    obtain ⟨⟨x, hxs, hq⟩, hle⟩ := h.maximum p base hb hx hm j
    exact ⟨⟨x, hp.mem_iff.mp hxs, hq⟩, fun y hy ↦ hle y (hp.mem_iff.mpr hy)⟩

/-- The states with their weights in another unit. -/
def rescale (c : ℚ) (xs : List (List Tensor × ℚ)) : List (List Tensor × ℚ) := xs.map fun x ↦ (x.1, c * x.2)

theorem meanOf_rescale {c : ℚ} (hc : c ≠ 0) (xs : List (List Tensor × ℚ)) (p j : ℕ) :
    meanOf (column (rescale c xs) p j) = meanOf (column xs p j) := by
  rw [← meanOf_scaled hc (column xs p j), column, column, rescale, List.map_map, List.map_map]
  rfl

theorem IsAggregate.of_rescale {c : ℚ} (hc : c ≠ 0) (h : IsAggregate policy initial (rescale c xs) out) :
    IsAggregate policy initial xs out where
  schema := h.schema
  wellFormed := h.wellFormed
  float p base hb hx j := by rw [h.float p base hb hx j, meanOf_rescale hc]
  rounded p base hb hx hm j := by rw [h.rounded p base hb hx hm j, meanOf_rescale hc]
  maximum p base hb hx hm j := by
    obtain ⟨⟨x, hxs, hq⟩, hle⟩ := h.maximum p base hb hx hm j
    obtain ⟨y, hy, rfl⟩ := List.mem_map.mp hxs
    exact ⟨⟨y, hy, hq⟩, fun z hz ↦ hle (z.1, c * z.2) (List.mem_map_of_mem hz)⟩

theorem column_pos (hpos : ∀ x ∈ xs, 0 < x.2) : ∀ q ∈ column xs p j, 0 < q.1 := List.forall_mem_map.mpr hpos

theorem column_ne_nil (hne : xs ≠ []) : column xs p j ≠ [] := fun h ↦ hne (List.map_eq_nil_iff.mp h)

/-- The mean of a place has an entry below it and one above it. -/
theorem Inputs.mean_between (h : Inputs initial xs) (p j : ℕ) :
    (∃ x ∈ xs, entryAt x.1 p j ≤ meanOf (column xs p j)) ∧ ∃ x ∈ xs, meanOf (column xs p j) ≤ entryAt x.1 p j := by
  obtain ⟨x, hx, hleast⟩ := exists_least (fun x : List Tensor × ℚ ↦ entryAt x.1 p j) h.nonempty
  obtain ⟨y, hy, hgreatest⟩ := exists_greatest (fun x : List Tensor × ℚ ↦ entryAt x.1 p j) h.nonempty
  refine ⟨⟨x, hx, ?_⟩, y, hy, ?_⟩
  · exact le_meanOf (column_pos h.pos) (column_ne_nil h.nonempty) (List.forall_mem_map.mpr hleast)
  · exact meanOf_le (column_pos h.pos) (column_ne_nil h.nonempty) (List.forall_mem_map.mpr hgreatest)

theorem integer_of_admits {d : DType} {q : ℚ} (hd : d.inexact = false) (h : d.kind.Admits q) : ∃ n : ℤ, q = n := by
  unfold DType.inexact at hd
  cases hk : d.kind with
  | float =>
    rw [hk] at hd
    cases hd
  | int =>
    rw [hk] at h
    exact h
  | uint =>
    rw [hk] at h
    obtain ⟨n, rfl⟩ := h
    exact ⟨n, by norm_num⟩
  | bool =>
    rw [hk] at h
    rcases h with rfl | rfl
    · exact ⟨0, by norm_num⟩
    · exact ⟨1, by norm_num⟩

theorem Inputs.rint_between (h : Inputs initial xs) (hb : initial[p]? = some base) (hx : base.dtype.inexact = false)
    (j : ℕ) : (∃ x ∈ xs, entryAt x.1 p j ≤ Tensor.rint (meanOf (column xs p j))) ∧
      ∃ x ∈ xs, (Tensor.rint (meanOf (column xs p j)) : ℚ) ≤ entryAt x.1 p j := by
  obtain ⟨⟨x, hxs, hle⟩, y, hys, hge⟩ := h.mean_between p j
  obtain ⟨m, hm⟩ := integer_of_admits hx (entryAt_admits (h.wellFormed x hxs) (h.schema x hxs) hb)
  obtain ⟨n, hn⟩ := integer_of_admits hx (entryAt_admits (h.wellFormed y hys) (h.schema y hys) hb)
  refine ⟨⟨x, hxs, ?_⟩, y, hys, ?_⟩
  · rw [hm] at hle ⊢
    exact_mod_cast Tensor.le_rint hle
  · rw [hn] at hge ⊢
    exact_mod_cast Tensor.rint_le hge

theorem IsAggregate.between (h : IsAggregate policy initial xs out) (hi : Inputs initial xs) (p j : ℕ) :
    (∃ x ∈ xs, entryAt x.1 p j ≤ entryAt out p j) ∧ ∃ x ∈ xs, entryAt out p j ≤ entryAt x.1 p j := by
  cases hb : initial[p]? with
  | none =>
    have hp := List.getElem?_eq_none_iff.mp hb
    obtain ⟨x, hx⟩ := List.exists_mem_of_ne_nil xs hi.nonempty
    have hout := entryAt_of_length_le (h.schema.length_eq ▸ hp) j
    have hin := entryAt_of_length_le ((hi.schema x hx).length_eq ▸ hp) j
    exact ⟨⟨x, hx, (hin.trans hout.symm).le⟩, x, hx, (hout.trans hin.symm).le⟩
  | some base =>
    cases hx : base.dtype.inexact with
    | true =>
      rw [h.float p base hb hx j]
      exact hi.mean_between p j
    | false =>
      cases policy with
      | weightedRound =>
        rw [h.rounded p base hb hx rfl j]
        exact hi.rint_between hb hx j
      | maximum =>
        obtain ⟨⟨x, hxs, hq⟩, -⟩ := h.maximum p base hb hx rfl j
        exact ⟨⟨x, hxs, hq.ge⟩, x, hxs, hq.le⟩

/-- One state alone aggregates to itself. -/
theorem IsAggregate.eq_of_forall_eq (h : IsAggregate policy initial xs out) (hi : Inputs initial xs)
    {x : List Tensor} (hx : ∀ y ∈ xs, y.1 = x) : out = x := by
  obtain ⟨y, hy⟩ := List.exists_mem_of_ne_nil xs hi.nonempty
  have hxw := hi.wellFormed y hy
  have hxs := hi.schema y hy
  rw [hx y hy] at hxw hxs
  refine state_ext h.wellFormed hxw h.schema hxs fun p _ j ↦ ?_
  obtain ⟨⟨a, ha, hle⟩, b, hb, hge⟩ := h.between hi p j
  rw [hx a ha] at hle
  rw [hx b hb] at hge
  exact le_antisymm hge hle

end Aggregate

/-! ### The code computes it -/

section Updates

variable {u : OwnedUpdate} {x : List Tensor × ℚ}

theorem mem_slice_of_getElem? {stage : Owner} {os : List Owner} {s : List Tensor} {p : ℕ} {t : Tensor}
    (ho : os[p]? = some stage) (ht : s[p]? = some t) : t ∈ slice stage os s := by
  induction os generalizing s p with
  | nil => cases ho
  | cons o os ih =>
    cases s with
    | nil => cases ht
    | cons y ys =>
      cases p with
      | zero =>
        cases ho
        cases ht
        rw [slice, if_pos rfl]
        exact List.mem_cons_self
      | succ p =>
        have hrest : t ∈ slice stage os ys := ih ho ht
        rw [slice]
        split_ifs
        · exact List.mem_cons_of_mem _ hrest
        · exact hrest

/-- A logical state is made of the tensors of the update and of the initial state. -/
theorem StandsFor.mem {y : List Tensor} (hm : Matches initial u) (h : StandsFor initial u y) {t : Tensor}
    (ht : t ∈ y) : t ∈ u.prefixValues ∨ t ∈ u.suffixValues ∨ t ∈ initial := by
  obtain ⟨p, hp, rfl⟩ := List.getElem_of_mem ht
  have hpo : p < u.manifest.owners.length := by
    rw [hm.owners_length, ← h.schema.length_eq]
    exact hp
  have ho := List.getElem?_eq_getElem hpo
  have hy := List.getElem?_eq_getElem hp
  cases hk : u.manifest.owners[p] with
  | prefixStage =>
    rw [hk] at ho
    exact .inl (h.prefixValues ▸ mem_slice_of_getElem? ho hy)
  | suffixStage =>
    rw [hk] at ho
    exact .inr (.inl (h.suffixValues ▸ mem_slice_of_getElem? ho hy))
  | initial =>
    rw [hk] at ho
    rw [h.rest p ho] at hy
    exact .inr (.inr (List.mem_of_getElem? hy))
  | unknown text =>
    have hany : u.manifest.owners.any Owner.isUnknown = true :=
      List.any_eq_true.mpr ⟨_, List.getElem_mem hpo, by rw [hk, Owner.isUnknown]⟩
    rw [hm.owners_known] at hany
    cases hany

/-- The tensors of an update are arrays. -/
def OwnedUpdate.WellFormed (u : OwnedUpdate) : Prop := ∀ t ∈ u.prefixValues ++ u.suffixValues, t.WellFormed

theorem inputs_of_valid (hinitial : ∀ t ∈ initial, t.WellFormed) (hne : updates ≠ [])
    (hu : ∀ u ∈ updates, OwnedUpdate.WellFormed u) (h : List.Forall₂ (Valid initial) updates xs) :
    Inputs initial xs := by
  have hmem : ∀ x ∈ xs, ∃ u ∈ updates, Valid initial u x := fun x hx ↦ forall₂_exists_of_mem_right h hx
  refine ⟨fun he ↦ ?_, fun x hx ↦ ?_, fun x hx ↦ ?_, fun x hx t ht ↦ ?_⟩
  · rw [he, List.forall₂_nil_right_iff] at h
    exact hne h
  · obtain ⟨u, -, _, _, _, _, hw, _⟩ := hmem x hx
    exact (finitePositive_eq_ok_iff.mp hw).2
  · obtain ⟨u, -, hv⟩ := hmem x hx
    exact hv.standsFor.schema
  · obtain ⟨u, hmu, hv⟩ := hmem x hx
    rcases hv.standsFor.mem hv.matched ht with hp | hs | hi
    · exact hu u hmu t (List.mem_append_left _ hp)
    · exact hu u hmu t (List.mem_append_right _ hs)
    · exact hinitial t hi

/-- The tensor of the policy state at one position. -/
def settled (policy : IntegerPolicy) (base mean top : Tensor) : Tensor :=
  if takesMaximum policy base then top.astype base.dtype
  else if base.dtype.inexact then mean
  else (mean.mapTo mean.dtype (fun q ↦ Tensor.rint q)).astype base.dtype

theorem policyState_getElem? {p : ℕ} {base mean top : Tensor} (hb : initial[p]? = some base)
    (hy : (weightedMean xs)[p]? = some mean) (ht : (maximumState xs)[p]? = some top) :
    (policyState policy initial xs)[p]? = some (settled policy base mean top) := by
  rw [policyState, List.getElem?_mapIdx, hb, Option.map_some, List.getD_eq_getElem?_getD, hy,
    List.getD_eq_getElem?_getD, ht]
  rfl

theorem settled_shape {base mean top : Tensor} (hm : mean.shape = base.shape ∧ mean.data.length = base.data.length)
    (hd : mean.dtype = base.dtype.promoted) (ht : top.shape = base.shape ∧ top.data.length = base.data.length) :
    SameSchema (settled policy base mean top) base ∧
      (settled policy base mean top).data.length = base.data.length := by
  unfold settled
  split_ifs with h₁ h₂
  · exact ⟨⟨ht.1, rfl⟩, (List.length_map _).trans ht.2⟩
  · refine ⟨⟨hm.1, ?_⟩, hm.2⟩
    rw [hd, DType.promoted, if_pos h₂]
  · exact ⟨⟨hm.1, rfl⟩, (List.length_map _).trans ((List.length_map _).trans hm.2)⟩

theorem getD_map {f : ℚ → ℚ} (hf : f 0 = 0) (l : List ℚ) (j : ℕ) :
    (l.map f)[j]?.getD 0 = f (l[j]?.getD 0) := by
  rw [List.getElem?_map]
  cases l[j]? with
  | none => exact hf.symm
  | some q => rfl

theorem cast_zero (d : DType) : Tensor.cast d 0 = 0 := Tensor.cast_of_admits (Tensor.admits_zero _)

theorem rint_zero : ((Tensor.rint 0 : ℤ) : ℚ) = 0 := by
  have h := Tensor.rint_intCast 0
  rw [Int.cast_zero] at h
  rw [h, Int.cast_zero]

theorem Inputs.admits_rint {p : ℕ} {base : Tensor} (h : Inputs initial xs) (hb : initial[p]? = some base)
    (hx : base.dtype.inexact = false) (j : ℕ) :
    base.dtype.kind.Admits (Tensor.rint (meanOf (column xs p j)) : ℚ) := by
  obtain ⟨⟨x, hxs, hle⟩, y, hys, hge⟩ := h.rint_between hb hx j
  have hlo := entryAt_admits (j := j) (h.wellFormed x hxs) (h.schema x hxs) hb
  have hhi := entryAt_admits (j := j) (h.wellFormed y hys) (h.schema y hys) hb
  cases hk : base.dtype.kind with
  | float => trivial
  | int => exact ⟨_, rfl⟩
  | uint =>
    rw [hk] at hlo
    obtain ⟨n, hn⟩ := hlo
    have hn : ((n : ℤ) : ℚ) ≤ Tensor.rint (meanOf (column xs p j)) := by
      rw [hn] at hle
      exact_mod_cast hle
    have hn : (n : ℤ) ≤ Tensor.rint (meanOf (column xs p j)) := by exact_mod_cast hn
    obtain ⟨m, hm⟩ := Int.eq_ofNat_of_zero_le ((Int.natCast_nonneg n).trans hn)
    exact ⟨m, by rw [hm, Int.cast_natCast]⟩
  | bool =>
    rw [hk] at hlo hhi
    have hlo : 0 ≤ entryAt x.1 p j := by
      rcases hlo with hq | hq <;> norm_num [hq]
    have hhi : entryAt y.1 p j ≤ 1 := by
      rcases hhi with hq | hq <;> norm_num [hq]
    have h₀ : (0 : ℤ) ≤ Tensor.rint (meanOf (column xs p j)) := by exact_mod_cast hlo.trans hle
    have h₁ : Tensor.rint (meanOf (column xs p j)) ≤ (1 : ℤ) := by exact_mod_cast hge.trans hhi
    rcases (by omega : Tensor.rint (meanOf (column xs p j)) = 0 ∨ Tensor.rint (meanOf (column xs p j)) = 1) with hr | hr
    · left
      rw [hr, Int.cast_zero]
    · right
      rw [hr, Int.cast_one]

/-- A place of the policy state, by its dtype and the policy. -/
theorem settled_entries {p : ℕ} {base mean top : Tensor} (hi : Inputs initial xs) (hb : initial[p]? = some base)
    (hmean : ∀ j, mean.data[j]?.getD 0 = meanOf (column xs p j)) (htop : ∀ j, IsTop xs p j (top.data[j]?.getD 0)) :
    (base.dtype.inexact = true → ∀ j, (settled policy base mean top).data[j]?.getD 0 = meanOf (column xs p j)) ∧
    (base.dtype.inexact = false → policy = .weightedRound →
      ∀ j, (settled policy base mean top).data[j]?.getD 0 = Tensor.rint (meanOf (column xs p j))) ∧
    (base.dtype.inexact = false → policy = .maximum →
      ∀ j, IsTop xs p j ((settled policy base mean top).data[j]?.getD 0)) := by
  unfold settled takesMaximum
  refine ⟨fun hx j ↦ ?_, fun hx hp j ↦ ?_, fun hx hp j ↦ ?_⟩
  · rw [if_neg (by simp [hx]), if_pos hx, hmean]
  · rw [if_neg (by simp [hp]), if_neg (by simp [hx])]
    have hcast := getD_map (cast_zero base.dtype) ((mean.mapTo mean.dtype fun q ↦ Tensor.rint q).data) j
    have hrint := getD_map (f := fun q ↦ (Tensor.rint q : ℚ)) rint_zero mean.data j
    refine hcast.trans ?_
    rw [show ((mean.mapTo mean.dtype fun q ↦ (Tensor.rint q : ℚ)).data)[j]?.getD 0 =
      (Tensor.rint (mean.data[j]?.getD 0) : ℚ) from hrint, hmean]
    exact Tensor.cast_of_admits (hi.admits_rint hb hx j)
  · rw [if_pos (by simp [hx, hp])]
    have hcast := getD_map (cast_zero base.dtype) top.data j
    obtain ⟨⟨x, hxs, hq⟩, hle⟩ := htop j
    have hadmits := entryAt_admits (j := j) (hi.wellFormed x hxs) (hi.schema x hxs) hb
    rw [← hq] at hadmits
    rw [show (top.astype base.dtype).data[j]?.getD 0 = top.data[j]?.getD 0 from
      hcast.trans (Tensor.cast_of_admits hadmits)]
    exact htop j

theorem isAggregate_policyState (hi : Inputs initial xs) (hinitial : ∀ t ∈ initial, t.WellFormed)
    (hne : updates ≠ []) (h : List.Forall₂ (Valid initial) updates xs) :
    IsAggregate policy initial xs (policyState policy initial xs) := by
  have hcong : ∀ x ∈ xs, Congruent x.1 initial := fun x hx ↦
    congruent_of_schema (hi.wellFormed x hx) hinitial (hi.schema x hx)
  obtain ⟨hmean, hentry⟩ := congruent_weightedMean hi.nonempty hcong
  obtain ⟨hmax, htop⟩ := congruent_maximumState hi.nonempty hcong
  have hplace (p : ℕ) (base : Tensor) (hb : initial[p]? = some base) : ∃ r,
      (policyState policy initial xs)[p]? = some r ∧ SameSchema r base ∧ r.data.length = base.data.length ∧
      (base.dtype.inexact = true → ∀ j, r.data[j]?.getD 0 = meanOf (column xs p j)) ∧
      (base.dtype.inexact = false → policy = .weightedRound →
        ∀ j, r.data[j]?.getD 0 = Tensor.rint (meanOf (column xs p j))) ∧
      (base.dtype.inexact = false → policy = .maximum → ∀ j, IsTop xs p j (r.data[j]?.getD 0)) := by
    obtain ⟨mean, top, hy, hd, ht⟩ := weightedMean_getElem? h hne hb
    obtain ⟨hschema, hlen⟩ := @settled_shape policy _ _ _ (hmean.at hy hb) hd (hmax.at ht hb)
    refine ⟨_, policyState_getElem? hb hy ht, hschema, hlen, settled_entries hi hb (fun j ↦ ?_) (fun j ↦ ?_)⟩
    · rw [← hentry, entryAt_of_getElem? hy]
    · rw [← entryAt_of_getElem? ht]
      exact htop p j
  have hlength : (policyState policy initial xs).length = initial.length := by
    rw [policyState, List.length_mapIdx]
  constructor
  · apply List.forall₂_iff_get.mpr
    refine ⟨hlength, fun p hp hb ↦ ?_⟩
    obtain ⟨r, hr, hschema, -⟩ := hplace p _ (List.getElem?_eq_getElem hb)
    obtain ⟨_, hr⟩ := List.getElem?_eq_some_iff.mp hr
    rw [List.get_eq_getElem, List.get_eq_getElem, hr]
    exact hschema
  · intro t ht
    obtain ⟨p, hp, rfl⟩ := List.getElem_of_mem ht
    have hb := List.getElem?_eq_getElem (hlength ▸ hp : p < initial.length)
    obtain ⟨r, hr, ⟨hshape, hdtype⟩, hlen, hfloat, hround, htops⟩ := hplace p _ hb
    obtain ⟨_, rfl⟩ := List.getElem?_eq_some_iff.mp hr
    have hbase := hinitial _ (List.mem_of_getElem? hb)
    refine ⟨by rw [hlen, hbase.length, hshape], fun q hq ↦ ?_⟩
    obtain ⟨j, hj, rfl⟩ := List.getElem_of_mem hq
    have hget : ((policyState policy initial xs)[p].data[j]?).getD 0 = (policyState policy initial xs)[p].data[j] := by
      rw [List.getElem?_eq_getElem hj, Option.getD_some]
    rw [hdtype, ← hget]
    cases hx : initial[p].dtype.inexact with
    | true =>
      have hk : initial[p].dtype.kind = .float := of_decide_eq_true hx
      rw [hk]
      trivial
    | false =>
      cases policy with
      | weightedRound =>
        rw [hround hx rfl]
        exact hi.admits_rint hb hx j
      | maximum =>
        obtain ⟨⟨x, hxs, he⟩, -⟩ := htops hx rfl j
        rw [he]
        exact entryAt_admits (hi.wellFormed x hxs) (hi.schema x hxs) hb
  · intro p base hb hx j
    obtain ⟨r, hr, -, -, hfloat, -⟩ := hplace p base hb
    rw [entryAt_of_getElem? hr, hfloat hx]
  · intro p base hb hx hp j
    obtain ⟨r, hr, -, -, -, hround, -⟩ := hplace p base hb
    rw [entryAt_of_getElem? hr, hround hx hp]
  · intro p base hb hx hp j
    obtain ⟨r, hr, -, -, -, -, htops⟩ := hplace p base hb
    rw [entryAt_of_getElem? hr]
    exact htops hx hp j

/-- The same update, its weight in another unit. -/
def rescaled (c : ℚ) (u : OwnedUpdate) : OwnedUpdate := { u with weight := u.weight.map (c * ·) }

theorem valid_rescaled {c : ℚ} (hc : 0 < c) (h : List.Forall₂ (Valid initial) updates xs) :
    List.Forall₂ (Valid initial) (updates.map (rescaled c)) (rescale c xs) := by
  induction h with
  | nil => exact .nil
  | @cons u x us xs hu _ ih =>
    obtain ⟨front, back, hf, hk, hw, hx⟩ := hu
    obtain ⟨hw, hpos⟩ := finitePositive_eq_ok_iff.mp hw
    refine .cons ⟨front, back, hf, hk, finitePositive_eq_ok_iff.mpr ⟨?_, mul_pos hc hpos⟩, hx⟩ ih
    rw [rescaled, hw, Option.map_some]

/-- An update with its logical state and its weight. -/
def Weighs (initial : List Tensor) (u : OwnedUpdate) (x : List Tensor × ℚ) : Prop :=
  StandsFor initial u x.1 ∧ u.weight = some x.2

theorem Valid.weighs (h : Valid initial u x) : Weighs initial u x := by
  refine ⟨h.standsFor, ?_⟩
  obtain ⟨_, _, _, _, hw, _⟩ := h
  exact (finitePositive_eq_ok_iff.mp hw).1

theorem weighs_unique {ys : List (List Tensor × ℚ)} (h : List.Forall₂ (Valid initial) updates xs)
    (hy : List.Forall₂ (Weighs initial) updates ys) : ys = xs := by
  induction h generalizing ys with
  | nil =>
    cases hy
    rfl
  | @cons u x us xs hu _ ih =>
    cases hy with
    | @cons _ y _ ys hyu hys =>
      rw [ih hys]
      have hstate := hyu.1.unique hu.matched hu.standsFor
      have hweight := Option.some.inj (hyu.2.symm.trans hu.weighs.2)
      rw [Prod.ext hstate hweight]

variable (initial policy updates) in
/-- What `aggregate_owned` refuses and what it computes. -/
theorem aggregateOwned_law (hinitial : ∀ t ∈ initial, t.WellFormed)
    (hupdates : ∀ u ∈ updates, OwnedUpdate.WellFormed u) :
    ((∃ e, aggregateOwned initial updates policy = .error e) ↔
      updates = [] ∨ ∃ u ∈ updates, ¬ (Matches initial u ∧ ∃ w, u.weight = some w ∧ 0 < w)) ∧
    ∀ out, aggregateOwned initial updates policy = .ok out →
      ∃ xs, List.Forall₂ (Weighs initial) updates xs ∧ (∀ ys, List.Forall₂ (Weighs initial) updates ys → ys = xs) ∧
        IsAggregate policy initial xs out ∧
        (∀ p j, (∃ x ∈ xs, entryAt x.1 p j ≤ entryAt out p j) ∧ ∃ x ∈ xs, entryAt out p j ≤ entryAt x.1 p j) ∧
        (∀ x, (∀ y ∈ xs, y.1 = x) → out = x) ∧
        (∀ updates', List.Perm updates' updates → aggregateOwned initial updates' policy = .ok out) ∧
        ∀ c, 0 < c → aggregateOwned initial (updates.map (rescaled c)) policy = .ok out := by
  refine ⟨aggregateOwned_raises_iff, fun out h ↦ ?_⟩
  obtain ⟨hne, xs, hxs⟩ := valid_of_aggregateOwned h
  have hi := inputs_of_valid hinitial hne hupdates hxs
  have hagg := @isAggregate_policyState _ policy _ _ hi hinitial hne hxs
  obtain rfl : out = policyState policy initial xs := Except.ok.inj (h.symm.trans (aggregateOwned_eq hxs hne))
  refine ⟨xs, hxs.imp fun _ _ hu ↦ hu.weighs, fun ys ↦ weighs_unique hxs, hagg, hagg.between hi,
    fun x ↦ hagg.eq_of_forall_eq hi, fun updates' hp ↦ ?_, fun c hc ↦ ?_⟩
  · obtain ⟨ys, hys, hperm⟩ := List.perm_comp_forall₂ hp hxs
    have hne' : updates' ≠ [] := fun he ↦ hne (List.nil_perm.mp (he ▸ hp))
    have hupdates' : ∀ u ∈ updates', OwnedUpdate.WellFormed u := fun u hu ↦ hupdates u (hp.mem_iff.mp hu)
    have hagg' := @isAggregate_policyState _ policy _ _ (inputs_of_valid hinitial hne' hupdates' hys) hinitial
      hne' hys
    rw [aggregateOwned_eq hys hne', (hagg'.perm hperm).unique hagg]
  · have hys := valid_rescaled hc hxs
    have hne' : updates.map (rescaled c) ≠ [] := fun he ↦ hne (List.map_eq_nil_iff.mp he)
    have hupdates' : ∀ u ∈ updates.map (rescaled c), OwnedUpdate.WellFormed u := List.forall_mem_map.mpr hupdates
    have hagg' := @isAggregate_policyState _ policy _ _ (inputs_of_valid hinitial hne' hupdates' hys) hinitial
      hne' hys
    rw [aggregateOwned_eq hys hne', (hagg'.of_rescale hc.ne').unique hagg]

/-- Two updates that the prefix and the suffix share out differently. -/
def sampleInitial : List Tensor := [⟨⟨.float, 4⟩, [1], [0]⟩, ⟨⟨.int, 8⟩, [1], [0]⟩]

def sampleUpdates : List OwnedUpdate :=
  [⟨⟨["weight", "steps"], [.prefixStage, .suffixStage], "a"⟩, [⟨⟨.float, 4⟩, [1], [3]⟩], [⟨⟨.int, 8⟩, [1], [1]⟩], some 1⟩,
    ⟨⟨["weight", "steps"], [.suffixStage, .suffixStage], "b"⟩, [], [⟨⟨.float, 4⟩, [1], [7]⟩, ⟨⟨.int, 8⟩, [1], [2]⟩],
      some 3⟩]

theorem aggregateOwned_law_sample :
    aggregateOwned sampleInitial (sampleUpdates.reverse.map (rescaled 2)) .weightedRound =
      .ok [⟨⟨.float, 4⟩, [1], [6]⟩, ⟨⟨.int, 8⟩, [1], [2]⟩] := by
  have hwf (d : DType) (q : ℚ) (h : d.kind.Admits q) : (⟨d, [1], [q]⟩ : Tensor).WellFormed :=
    ⟨rfl, fun q' hq' ↦ List.mem_singleton.mp hq' ▸ h⟩
  have hinitial : ∀ t ∈ sampleInitial, t.WellFormed :=
    List.forall_mem_cons.mpr ⟨hwf _ _ trivial, List.forall_mem_singleton.mpr (hwf _ _ ⟨0, rfl⟩)⟩
  have hfirst : ∀ t ∈ ([⟨⟨.float, 4⟩, [1], [3]⟩, ⟨⟨.int, 8⟩, [1], [1]⟩] : List Tensor), t.WellFormed :=
    List.forall_mem_cons.mpr ⟨hwf _ _ trivial, List.forall_mem_singleton.mpr (hwf _ _ ⟨1, rfl⟩)⟩
  have hsecond : ∀ t ∈ ([⟨⟨.float, 4⟩, [1], [7]⟩, ⟨⟨.int, 8⟩, [1], [2]⟩] : List Tensor), t.WellFormed :=
    List.forall_mem_cons.mpr ⟨hwf _ _ trivial, List.forall_mem_singleton.mpr (hwf _ _ ⟨2, rfl⟩)⟩
  have hupdates : ∀ u ∈ sampleUpdates, OwnedUpdate.WellFormed u :=
    List.forall_mem_cons.mpr ⟨hfirst, List.forall_mem_singleton.mpr hsecond⟩
  have hrun : aggregateOwned sampleInitial sampleUpdates .weightedRound =
      .ok [⟨⟨.float, 4⟩, [1], [6]⟩, ⟨⟨.int, 8⟩, [1], [2]⟩] := by decide +kernel
  obtain ⟨-, hlaw⟩ := aggregateOwned_law sampleInitial .weightedRound sampleUpdates.reverse hinitial
    (fun u hu ↦ hupdates u (List.mem_reverse.mp hu))
  obtain ⟨-, hlaw'⟩ := aggregateOwned_law sampleInitial .weightedRound sampleUpdates hinitial hupdates
  obtain ⟨_, -, -, -, -, -, hperm, -⟩ := hlaw' _ hrun
  obtain ⟨_, -, -, -, -, -, -, hscale⟩ := hlaw _ (hperm _ sampleUpdates.reverse_perm)
  exact hscale 2 two_pos

end Updates

end SplitFleet.OwnedAggregation
