import SplitFleet.OwnedAggregation

set_option autoImplicit false

namespace SplitFleet.OwnedAggregation

open Lib StateOwnership Reassembly

variable {initial values : List Tensor} {os : List Owner} {stage : Owner}

/-- A manifest and its tensors against the initial state. -/
structure Matches (initial : List Tensor) (u : OwnedUpdate) : Prop where
  names_length : u.manifest.names.length = initial.length
  owners_length : u.manifest.owners.length = initial.length
  owners_known : u.manifest.owners.any Owner.isUnknown = false
  prefixValues : List.Forall₂ SameSchema u.prefixValues (slice .prefixStage u.manifest.owners initial)
  suffixValues : List.Forall₂ SameSchema u.suffixValues (slice .suffixStage u.manifest.owners initial)

/-- The logical state of an update: what each stage sent where it owns, and the initial value elsewhere. -/
structure StandsFor (initial : List Tensor) (u : OwnedUpdate) (x : List Tensor) : Prop where
  schema : List.Forall₂ SameSchema x initial
  prefixValues : slice .prefixStage u.manifest.owners x = u.prefixValues
  suffixValues : slice .suffixStage u.manifest.owners x = u.suffixValues
  rest : ∀ p : ℕ, u.manifest.owners[p]? = some Owner.initial → x[p]? = initial[p]?

/-- A full state with a stage's values in their places. -/
def fill (stage : Owner) : List Owner → (initial values : List Tensor) → List Tensor
  | o :: os, b :: bs, v :: vs => if o = stage then v :: fill stage os bs vs else b :: fill stage os bs (v :: vs)
  | _, bs, _ => bs

theorem fill_nil (os : List Owner) (initial : List Tensor) : fill stage os initial [] = initial := by
  cases os <;> cases initial <;> rfl

theorem slice_fill (hv : List.Forall₂ SameSchema values (slice stage os initial)) :
    slice stage os (fill stage os initial values) = values := by
  induction os generalizing initial values with
  | nil =>
    cases hv
    cases initial <;> rfl
  | cons o os ih =>
    cases initial with
    | nil =>
      cases hv
      rfl
    | cons b bs =>
      rw [slice] at hv
      by_cases ho : o = stage
      · rw [if_pos ho] at hv
        cases hv with
        | @cons v _ vs _ _ hvs => rw [fill, if_pos ho, slice, if_pos ho, ih hvs]
      · rw [if_neg ho] at hv
        cases values with
        | nil =>
          have hrest := ih hv
          rw [fill_nil] at hrest
          rw [fill_nil, slice, if_neg ho, hrest]
        | cons v vs => rw [fill, if_neg ho, slice, if_neg ho, ih hv]

theorem fill_schema (hv : List.Forall₂ SameSchema values (slice stage os initial)) :
    List.Forall₂ SameSchema (fill stage os initial values) initial := by
  have hrefl (l : List Tensor) : List.Forall₂ SameSchema l l := List.forall₂_same.mpr fun x _ ↦ ⟨rfl, rfl⟩
  induction os generalizing initial values with
  | nil =>
    cases initial <;> exact hrefl _
  | cons o os ih =>
    cases initial with
    | nil => exact hrefl _
    | cons b bs =>
      rw [slice] at hv
      by_cases ho : o = stage
      · rw [if_pos ho] at hv
        cases hv with
        | @cons v _ vs _ hvb hvs =>
          rw [fill, if_pos ho]
          exact .cons hvb (ih hvs)
      · rw [if_neg ho] at hv
        cases values with
        | nil =>
          rw [fill_nil]
          exact hrefl _
        | cons v vs =>
          rw [fill, if_neg ho]
          exact .cons ⟨rfl, rfl⟩ (ih hv)

/-- The schemas that `zip(indices, values)` compares are those of the stage's slice. -/
theorem schema_of_zip {l : List Tensor} {i : ℕ} (hl : values.length = (indicesFrom stage i os).length)
    (ho : os.length = initial.length) (hi : ∀ k, l[i + k]? = initial[k]?)
    (h : ∀ p ∈ (indicesFrom stage i os).zip values, wrongSchema l p = false) :
    List.Forall₂ SameSchema values (slice stage os initial) := by
  induction os generalizing initial values i with
  | nil =>
    rw [indicesFrom, List.length_nil, List.length_eq_zero_iff] at hl
    rw [hl]
    cases initial <;> exact .nil
  | cons o os ih =>
    obtain ⟨b, bs, rfl⟩ := List.exists_cons_of_length_eq_add_one ho.symm
    have ho' : os.length = bs.length := Nat.succ.inj ho
    have hi' : ∀ k, l[i + 1 + k]? = bs[k]? := fun k ↦ by
      rw [Nat.add_right_comm, Nat.add_assoc]
      exact hi (k + 1)
    by_cases hs : o = stage
    · rw [indicesFrom, if_pos hs] at hl h
      obtain ⟨v, vs, rfl⟩ := List.exists_cons_of_length_eq_add_one hl
      obtain ⟨hv, hvs⟩ := List.forall_mem_cons.mp h
      have hb : l[i]? = some b := hi 0
      rw [slice, if_pos hs]
      refine .cons ?_ (ih (Nat.succ.inj hl) ho' hi' hvs)
      simpa [wrongSchema, hb, SameSchema] using hv
    · rw [indicesFrom, if_neg hs] at hl h
      rw [slice, if_neg hs]
      exact ih hl ho' hi' h

theorem schema_of_validateOwned_ok {m : Manifest} {l : List (ℕ × Tensor)}
    (h : validateOwned values m stage initial = .ok l) :
    m.names.length = initial.length ∧ m.owners.length = initial.length ∧
      m.owners.any Owner.isUnknown = false ∧
      List.Forall₂ SameSchema values (slice stage m.owners initial) ∧ l = (indices m stage).zip values := by
  unfold validateOwned at h
  split_ifs at h with h₁ h₂
  push Not at h₁ h₂
  obtain ⟨hn, ho, hk⟩ := h₁
  cases hf : ((indices m stage).zip values).find? (wrongSchema initial) with
  | some p =>
    rw [hf] at h
    cases h
  | none =>
    rw [hf] at h
    cases h
    refine ⟨hn, ho, Bool.not_eq_true _ ▸ hk, ?_, rfl⟩
    refine schema_of_zip h₂ ho (fun k ↦ by rw [Nat.zero_add]) fun p hp ↦ ?_
    exact Bool.not_eq_true _ ▸ List.find?_eq_none.mp hf p hp

/-- Validation passes exactly the values with the schemas of the stage's slice. -/
theorem validateOwned_of_schema {m : Manifest} (hn : m.names.length = initial.length)
    (ho : m.owners.length = initial.length) (hk : m.owners.any Owner.isUnknown = false)
    (hv : List.Forall₂ SameSchema values (slice stage m.owners initial)) :
    validateOwned values m stage initial = .ok ((indices m stage).zip values) := by
  have h := @validateOwned_slice m stage _ _ hn ho hk (fill_schema hv)
  rwa [slice_fill hv] at h

theorem slice_mergeOwned_prefix {client server : List Tensor} (ho : os.length = initial.length)
    (hc : client.length = initial.length) (hs : server.length = initial.length) :
    slice .prefixStage os (mergeOwned os initial client server) = slice .prefixStage os client := by
  induction os generalizing initial client server with
  | nil =>
    cases client <;> rfl
  | cons o os ih =>
    obtain ⟨b, bs, rfl⟩ := List.exists_cons_of_length_eq_add_one ho.symm
    obtain ⟨c, cs, rfl⟩ := List.exists_cons_of_length_eq_add_one hc
    obtain ⟨s, ss, rfl⟩ := List.exists_cons_of_length_eq_add_one hs
    have hrest := ih (Nat.succ.inj ho) (Nat.succ.inj hc) (Nat.succ.inj hs)
    rw [mergeOwned]
    by_cases hp : o = .prefixStage
    · rw [if_pos hp, slice, if_pos hp, slice, if_pos hp, hrest]
    · rw [if_neg hp, slice, if_neg hp, slice, if_neg hp, hrest]

theorem slice_mergeOwned_suffix {client server : List Tensor} (ho : os.length = initial.length)
    (hc : client.length = initial.length) (hs : server.length = initial.length) :
    slice .suffixStage os (mergeOwned os initial client server) = slice .suffixStage os server := by
  induction os generalizing initial client server with
  | nil =>
    cases server <;> rfl
  | cons o os ih =>
    obtain ⟨b, bs, rfl⟩ := List.exists_cons_of_length_eq_add_one ho.symm
    obtain ⟨c, cs, rfl⟩ := List.exists_cons_of_length_eq_add_one hc
    obtain ⟨s, ss, rfl⟩ := List.exists_cons_of_length_eq_add_one hs
    have hrest := ih (Nat.succ.inj ho) (Nat.succ.inj hc) (Nat.succ.inj hs)
    rw [mergeOwned]
    by_cases hq : o = .suffixStage
    · have hp : o ≠ .prefixStage := by
        rw [hq]
        decide
      rw [if_neg hp, if_pos hq, slice, if_pos hq, slice, if_pos hq, hrest]
    · rw [slice, if_neg hq, slice, if_neg hq, hrest]

variable {u : OwnedUpdate} {x : List Tensor × ℚ}

theorem Valid.matched (h : Valid initial u x) : Matches initial u := by
  obtain ⟨front, back, hf, hk, -, -⟩ := h
  obtain ⟨hn, ho, hu, hp, -⟩ := schema_of_validateOwned_ok hf
  obtain ⟨-, -, -, hs, -⟩ := schema_of_validateOwned_ok hk
  exact ⟨hn, ho, hu, hp, hs⟩

theorem Matches.valid (h : Matches initial u) {w : ℚ} (hw : finitePositive u.weight = .ok w) :
    ∃ x, Valid initial u (x, w) :=
  ⟨_, _, _, validateOwned_of_schema h.names_length h.owners_length h.owners_known h.prefixValues,
    validateOwned_of_schema h.names_length h.owners_length h.owners_known h.suffixValues, hw, rfl⟩

/-- The dictionaries of the loop give the logical state. -/
theorem Valid.standsFor (h : Valid initial u x) : StandsFor initial u x.1 := by
  have hm := h.matched
  have hsame := h
  obtain ⟨front, back, hf, hk, -, hx⟩ := h
  obtain ⟨-, -, -, -, rfl⟩ := schema_of_validateOwned_ok hf
  obtain ⟨-, -, -, -, rfl⟩ := schema_of_validateOwned_ok hk
  have hc := (fill_schema hm.prefixValues).length_eq
  have hs := (fill_schema hm.suffixValues).length_eq
  have hmerge : x.1 = mergeOwned u.manifest.owners initial
      (fill .prefixStage u.manifest.owners initial u.prefixValues)
      (fill .suffixStage u.manifest.owners initial u.suffixValues) := by
    have h := ownedValues_slices hm.owners_length hc hs
    rw [slice_fill hm.prefixValues, slice_fill hm.suffixValues] at h
    rw [hx, ← h]
    rfl
  constructor
  · apply List.forall₂_iff_get.mpr
    refine ⟨hsame.length, fun p hp hb ↦ ?_⟩
    obtain ⟨v, hv, hsv⟩ := hsame.schema (List.getElem?_eq_getElem hb)
    obtain ⟨_, hv⟩ := List.getElem?_eq_some_iff.mp hv
    rw [List.get_eq_getElem, List.get_eq_getElem, hv]
    exact hsv
  · rw [hmerge, slice_mergeOwned_prefix hm.owners_length hc hs, slice_fill hm.prefixValues]
  · rw [hmerge, slice_mergeOwned_suffix hm.owners_length hc hs, slice_fill hm.suffixValues]
  · intro p hp
    rw [hmerge, mergeOwned_getElem? hm.owners_length hc hs, hp, if_neg (by decide), if_neg (by decide)]

theorem getElem?_congr_of_slice {y z : List Tensor} (hy : os.length = y.length) (hz : os.length = z.length)
    (h : slice stage os y = slice stage os z) {k : ℕ} (hk : os[k]? = some stage) : y[k]? = z[k]? := by
  have hly := lookup_slice stage hy 0 k
  have hlz := lookup_slice stage hz 0 k
  rw [if_pos hk] at hly hlz
  rw [← hly, ← hlz, h]

/-- An update stands for one state. -/
theorem StandsFor.unique {y z : List Tensor} (hm : Matches initial u) (hy : StandsFor initial u y)
    (hz : StandsFor initial u z) : y = z := by
  have hly := hm.owners_length.trans hy.schema.length_eq.symm
  have hlz := hm.owners_length.trans hz.schema.length_eq.symm
  apply List.ext_getElem?
  intro k
  cases ho : u.manifest.owners[k]? with
  | none =>
    have hk := List.getElem?_eq_none_iff.mp ho
    rw [List.getElem?_eq_none (hly ▸ hk), List.getElem?_eq_none (hlz ▸ hk)]
  | some o =>
    cases o with
    | prefixStage => exact getElem?_congr_of_slice hly hlz (hy.prefixValues.trans hz.prefixValues.symm) ho
    | suffixStage => exact getElem?_congr_of_slice hly hlz (hy.suffixValues.trans hz.suffixValues.symm) ho
    | initial => rw [hy.rest k ho, hz.rest k ho]
    | unknown text =>
      have hany : u.manifest.owners.any Owner.isUnknown = true :=
        List.any_eq_true.mpr ⟨_, List.mem_of_getElem? ho, rfl⟩
      rw [hm.owners_known] at hany
      cases hany

section Raises

variable {policy : IntegerPolicy} {updates : List OwnedUpdate}

/-- What an update has to be for the loop to take it. -/
def Takes (initial : List Tensor) (u : OwnedUpdate) : Prop :=
  Matches initial u ∧ ∃ w, u.weight = some w ∧ 0 < w

theorem exists_valid_iff : (∃ x, Valid initial u x) ↔ Takes initial u := by
  constructor
  · rintro ⟨x, h⟩
    refine ⟨h.matched, x.2, ?_⟩
    obtain ⟨_, _, _, _, hw, _⟩ := h
    exact finitePositive_eq_ok_iff.mp hw
  · rintro ⟨hm, w, hw⟩
    obtain ⟨x, hx⟩ := hm.valid (finitePositive_eq_ok_iff.mpr hw)
    exact ⟨_, hx⟩

theorem exists_forall₂_valid (h : ∀ u ∈ updates, Takes initial u) :
    ∃ xs, List.Forall₂ (Valid initial) updates xs := by
  induction updates with
  | nil => exact ⟨[], .nil⟩
  | cons u us ih =>
    obtain ⟨hu, hus⟩ := List.forall_mem_cons.mp h
    obtain ⟨x, hx⟩ := exists_valid_iff.mpr hu
    obtain ⟨xs, hxs⟩ := ih hus
    exact ⟨x :: xs, .cons hx hxs⟩

theorem takes_of_forall₂ {xs : List (List Tensor × ℚ)} (h : List.Forall₂ (Valid initial) updates xs) :
    ∀ u ∈ updates, Takes initial u := by
  induction h with
  | nil => simp
  | cons hu _ ih => exact List.forall_mem_cons.mpr ⟨exists_valid_iff.mp ⟨_, hu⟩, ih⟩

theorem aggregateOwned_raises_iff : (∃ e, aggregateOwned initial updates policy = .error e) ↔
    updates = [] ∨ ∃ u ∈ updates, ¬ Takes initial u := by
  rw [exists_error_iff, ← not_iff_not, not_not, not_or]
  push Not
  constructor
  · rintro ⟨out, h⟩
    obtain ⟨hne, xs, hxs⟩ := valid_of_aggregateOwned h
    exact ⟨hne, takes_of_forall₂ hxs⟩
  · rintro ⟨hne, h⟩
    obtain ⟨xs, hxs⟩ := exists_forall₂_valid h
    exact ⟨_, aggregateOwned_eq hxs hne⟩

end Raises

end SplitFleet.OwnedAggregation
