import SplitFleet.Reassembly

set_option autoImplicit false

namespace SplitFleet.OwnedAggregation

open Lib StateOwnership Reassembly

variable {initial : List Tensor} {policy : IntegerPolicy}

/-- The elementwise maximum over the updates. -/
def maximumState : List (List Tensor × ℚ) → List Tensor
  | [] => []
  | (x, _) :: rest => rest.foldl (fun acc u ↦ List.zipWith Tensor.maximum acc u.1) x

/-- The weighted mean, except that integer tensors follow the integer policy and keep their dtype. -/
def policyState (policy : IntegerPolicy) (initial : List Tensor) (updates : List (List Tensor × ℚ)) :
    List Tensor :=
  initial.mapIdx fun i base ↦
    let mean := (weightedMean updates).getD i base
    if takesMaximum policy base then ((maximumState updates).getD i base).astype base.dtype
    else if base.dtype.inexact then mean
    else (mean.mapTo mean.dtype (fun q ↦ Tensor.rint q)).astype base.dtype

/-- An owned update that passes every check, with the logical state it stands for. -/
def Valid (initial : List Tensor) (u : OwnedUpdate) (x : List Tensor × ℚ) : Prop :=
  ∃ front back, validateOwned u.prefixValues u.manifest .prefixStage initial = .ok front ∧
    validateOwned u.suffixValues u.manifest .suffixStage initial = .ok back ∧
    finitePositive u.weight = .ok x.2 ∧ x.1 = ownedValues front back initial

theorem schema_of_validateOwned {values : List Tensor} {m : Manifest} {stage : Owner}
    {l : List (ℕ × Tensor)} (h : validateOwned values m stage initial = .ok l) {i : ℕ} {x base : Tensor}
    (hx : Dict.lookup l i = some x) (hb : initial[i]? = some base) : SameSchema x base := by
  unfold validateOwned at h
  split_ifs at h with h₁ h₂
  have hm : (i, x) ∈ l := by
    by_contra hm
    clear h
    induction l with
    | nil => simp [Dict.lookup] at hx
    | cons p l ih =>
      obtain ⟨a, y⟩ := p
      by_cases ha : a = i
      · simp_all [Dict.lookup]
      · exact ih (by simpa [Dict.lookup, ha] using hx) (fun h ↦ hm (List.mem_cons_of_mem _ h))
  cases hf : ((indices m stage).zip values).find? (wrongSchema initial) with
  | some p => simp [hf] at h
  | none =>
    have hl : (indices m stage).zip values = l := by simpa [hf] using h
    have hw := List.find?_eq_none.mp hf (i, x) (hl ▸ hm)
    simpa [wrongSchema, hb, SameSchema] using hw

/-- Every tensor of a validated update has the initial schema at its position. -/
theorem Valid.schema {u : OwnedUpdate} {x : List Tensor × ℚ} (h : Valid initial u x) {i : ℕ}
    {base : Tensor} (hb : initial[i]? = some base) : ∃ v, x.1[i]? = some v ∧ SameSchema v base := by
  obtain ⟨front, back, hf, hk, _, hx⟩ := h
  refine ⟨ownedValue front back i base, by simp [hx, ownedValues, hb], ?_⟩
  unfold ownedValue
  cases hl : Dict.lookup front i with
  | some v => exact schema_of_validateOwned hf hl hb
  | none =>
    cases hl' : Dict.lookup back i with
    | some v => exact schema_of_validateOwned hk hl' hb
    | none => exact ⟨rfl, rfl⟩

/-- One turn of the loop on a validated update. -/
theorem aggregateStep_valid {u : OwnedUpdate} {x : List Tensor × ℚ} (h : Valid initial u x)
    (state : Option (List Tensor) × ℚ) :
    aggregateStep policy initial state u = .ok
      (match state.1 with
        | none => some (startAll policy x.2 initial x.1)
        | some result => some (stepAll policy x.2 initial x.1 result), state.2 + x.2) := by
  obtain ⟨front, back, hf, hk, hw, hx⟩ := h
  rw [aggregateStep, hf, ok_bind, hk, ok_bind, hw, ok_bind, hx]
  obtain ⟨result, total⟩ := state
  cases result <;> rfl

/-- A turn that does not raise has validated its update. -/
theorem valid_of_aggregateStep {u : OwnedUpdate} {state state' : Option (List Tensor) × ℚ}
    (h : aggregateStep policy initial state u = .ok state') : ∃ x, Valid initial u x := by
  obtain ⟨front, hf, h⟩ := bind_eq_ok h
  obtain ⟨back, hk, h⟩ := bind_eq_ok h
  obtain ⟨w, hw, -⟩ := bind_eq_ok h
  exact ⟨(ownedValues front back initial, w), front, back, hf, hk, hw, rfl⟩

theorem valid_of_foldlM {updates : List OwnedUpdate} {state state' : Option (List Tensor) × ℚ}
    (h : updates.foldlM (aggregateStep policy initial) state = .ok state') :
    ∃ xs, List.Forall₂ (Valid initial) updates xs := by
  induction updates generalizing state with
  | nil => exact ⟨[], .nil⟩
  | cons u us ih =>
    rw [List.foldlM_cons] at h
    cases hs : aggregateStep policy initial state u with
    | error e => simp [hs, bind, Except.bind] at h
    | ok next =>
      obtain ⟨x, hx⟩ := valid_of_aggregateStep hs
      obtain ⟨xs, hxs⟩ := ih (by simpa [hs, bind, Except.bind] using h)
      exact ⟨x :: xs, .cons hx hxs⟩

/-- A successful aggregation saw at least one update, and each of them was valid. -/
theorem valid_of_aggregateOwned {updates : List OwnedUpdate} {out : List Tensor}
    (h : aggregateOwned initial updates policy = .ok out) :
    updates ≠ [] ∧ ∃ xs, List.Forall₂ (Valid initial) updates xs := by
  unfold aggregateOwned at h
  cases hf : updates.foldlM (aggregateStep policy initial) (none, 0) with
  | error e => simp [hf, bind, Except.bind] at h
  | ok state =>
    refine ⟨?_, valid_of_foldlM hf⟩
    rintro rfl
    cases hf
    cases h

/-! ### Slices put back together -/

theorem mergeOwned_getElem? {os : List Owner} {client server : List Tensor}
    (ho : os.length = initial.length) (hc : client.length = initial.length)
    (hs : server.length = initial.length) (i : ℕ) :
    (mergeOwned os initial client server)[i]? =
      if os[i]? = some .prefixStage then client[i]?
      else if os[i]? = some .suffixStage then server[i]? else initial[i]? := by
  induction initial generalizing os client server i with
  | nil =>
    obtain rfl := List.eq_nil_of_length_eq_zero ho
    simp [mergeOwned]
  | cons b bs ih =>
    obtain ⟨o, os, rfl⟩ := List.exists_cons_of_length_eq_add_one ho
    obtain ⟨c, cs, rfl⟩ := List.exists_cons_of_length_eq_add_one hc
    obtain ⟨s, ss, rfl⟩ := List.exists_cons_of_length_eq_add_one hs
    cases i with
    | zero =>
      by_cases hp : o = .prefixStage
      · simp [mergeOwned, hp]
      · by_cases hq : o = .suffixStage <;> simp [mergeOwned, hp, hq]
    | succ i => simpa [mergeOwned] using ih (Nat.succ.inj ho) (Nat.succ.inj hc) (Nat.succ.inj hs) i

/-- Two slices put back on the initial state give the merged state. -/
theorem ownedValues_slices {os : List Owner} {client server : List Tensor}
    (ho : os.length = initial.length) (hc : client.length = initial.length)
    (hs : server.length = initial.length) :
    ownedValues ((indicesFrom .prefixStage 0 os).zip (slice .prefixStage os client))
      ((indicesFrom .suffixStage 0 os).zip (slice .suffixStage os server)) initial =
      mergeOwned os initial client server := by
  apply List.ext_getElem?
  intro i
  rw [mergeOwned_getElem? ho hc hs, ownedValues, List.getElem?_mapIdx]
  have hf := lookup_slice .prefixStage (ho.trans hc.symm) 0 i
  have hb := lookup_slice .suffixStage (ho.trans hs.symm) 0 i
  rw [Nat.zero_add] at hf hb
  cases hi : initial[i]? with
  | none =>
    have hl := List.getElem?_eq_none_iff.mp hi
    simp [List.getElem?_eq_none (hc.trans_le hl), List.getElem?_eq_none (hs.trans_le hl)]
  | some b =>
    obtain ⟨hlt, -⟩ := List.getElem?_eq_some_iff.mp hi
    have hci := List.getElem?_eq_getElem (hc.symm ▸ hlt : i < client.length)
    have hsi := List.getElem?_eq_getElem (hs.symm ▸ hlt : i < server.length)
    by_cases hp : os[i]? = some .prefixStage
    · simp [ownedValue, hf, hp, hci]
    · by_cases hq : os[i]? = some .suffixStage
      · simp [ownedValue, hf, hb, hq, hsi]
      · simp [ownedValue, hf, hb, hp, hq]

/-! ### The accumulators against the weighted mean -/

theorem startAll_getElem? (w : ℚ) {values : List Tensor} {i : ℕ} {base v : Tensor}
    (hb : initial[i]? = some base) (hv : values[i]? = some v) :
    (startAll policy w initial values)[i]? = some (startAccumulator policy w base v) := by
  simp [startAll, List.getElem?_zipWith, hb, hv]

theorem stepAll_getElem? (w : ℚ) {initial values result : List Tensor} {i : ℕ} {base v acc : Tensor}
    (hb : initial[i]? = some base) (hv : values[i]? = some v) (ha : result[i]? = some acc) :
    (stepAll policy w initial values result)[i]? = some (stepAccumulator policy w base v acc) := by
  induction i generalizing initial values result with
  | zero =>
    cases initial <;> cases values <;> cases result <;> simp_all [stepAll]
  | succ i ih =>
    cases initial with
    | nil => simp at hb
    | cons b bs =>
      cases values with
      | nil => simp at hv
      | cons x xs =>
        cases result with
        | nil => simp at ha
        | cons a accs => exact ih (by simpa using hb) (by simpa using hv) (by simpa using ha)

theorem stepAll_length (w : ℚ) {initial values result : List Tensor}
    (hv : values.length = initial.length) (hr : result.length = initial.length) :
    (stepAll policy w initial values result).length = initial.length := by
  induction initial generalizing values result with
  | nil => simp [stepAll]
  | cons b bs ih =>
    obtain ⟨v, vs, rfl⟩ := List.exists_cons_of_length_eq_add_one hv
    obtain ⟨a, accs, rfl⟩ := List.exists_cons_of_length_eq_add_one hr
    simp only [stepAll, List.length_cons]
    rw [ih (Nat.succ.inj hv) (Nat.succ.inj hr)]

/-- The accumulator of one position holds the partial sum of the weighted mean, or the partial
maximum where the policy asks for it. -/
def Tracks (policy : IntegerPolicy) (base acc sum top : Tensor) : Prop :=
  if takesMaximum policy base then acc = top
  else acc = sum ∧ sum.dtype = base.dtype.promoted

theorem accumulatorDType_eq {base : Tensor} (h : takesMaximum policy base = false) :
    accumulatorDType policy base = base.dtype.promoted := by
  cases policy <;> by_cases hb : base.dtype.inexact = true <;>
    simp_all [accumulatorDType, takesMaximum, DType.promoted]

theorem tracks_start (w : ℚ) {base v : Tensor} (h : SameSchema v base) :
    Tracks policy base (startAccumulator policy w base v) (v.scale w) v := by
  cases hm : takesMaximum policy base
  · simp only [Tracks, startAccumulator, hm, Bool.false_eq_true, if_false]
    refine ⟨?_, ?_⟩
    · rw [accumulatorDType_eq hm, ← h.2]
      rfl
    · rw [← h.2]
      rfl
  · simp only [Tracks, startAccumulator, hm, if_true]
    rw [← h.2]

theorem tracks_step (w : ℚ) {base v acc sum top : Tensor} (h : SameSchema v base)
    (ht : Tracks policy base acc sum top) :
    Tracks policy base (stepAccumulator policy w base v acc) (sum.add (v.scale w)) (top.maximum v) := by
  cases hm : takesMaximum policy base
  · simp only [Tracks, stepAccumulator, hm, Bool.false_eq_true, if_false] at ht ⊢
    obtain ⟨rfl, hd⟩ := ht
    refine ⟨?_, hd⟩
    rw [hd, ← h.2]
    rfl
  · simp only [Tracks, stepAccumulator, hm, if_true] at ht ⊢
    rw [ht]

/-- The three folds at every position of the initial state. -/
def TracksAll (policy : IntegerPolicy) (initial result sums tops : List Tensor) : Prop :=
  ∀ (i : ℕ) base, initial[i]? = some base → ∃ acc s t, result[i]? = some acc ∧ sums[i]? = some s ∧
    tops[i]? = some t ∧ Tracks policy base acc s t

theorem tracksAll_start {u : OwnedUpdate} {x : List Tensor × ℚ} (hu : Valid initial u x) :
    TracksAll policy initial (startAll policy x.2 initial x.1) (x.1.map (Tensor.scale x.2)) x.1 := by
  intro i base hb
  obtain ⟨v, hv, hsch⟩ := hu.schema hb
  refine ⟨_, _, _, startAll_getElem? x.2 hb hv, ?_, hv, tracks_start x.2 hsch⟩
  rw [List.getElem?_map, hv, Option.map_some]

theorem tracksAll_step {u : OwnedUpdate} {x : List Tensor × ℚ} (hu : Valid initial u x)
    {result sums tops : List Tensor} (h : TracksAll policy initial result sums tops) :
    TracksAll policy initial (stepAll policy x.2 initial x.1 result)
      (List.zipWith Tensor.add sums (x.1.map (Tensor.scale x.2)))
      (List.zipWith Tensor.maximum tops x.1) := by
  intro i base hb
  obtain ⟨acc, s, t, ha, hs, ht, htr⟩ := h i base hb
  obtain ⟨v, hv, hsch⟩ := hu.schema hb
  refine ⟨_, _, _, stepAll_getElem? x.2 hb hv ha, ?_, ?_, tracks_step x.2 hsch htr⟩
  · rw [List.getElem?_zipWith, hs, List.getElem?_map, hv]
    rfl
  · rw [List.getElem?_zipWith, ht, hv]

theorem Valid.length {u : OwnedUpdate} {x : List Tensor × ℚ} (h : Valid initial u x) :
    x.1.length = initial.length := by
  obtain ⟨front, back, _, _, _, hx⟩ := h
  rw [hx, ownedValues, List.length_mapIdx]

theorem foldlM_valid {updates : List OwnedUpdate} {xs : List (List Tensor × ℚ)}
    (h : List.Forall₂ (Valid initial) updates xs) {result sums tops : List Tensor} (total : ℚ)
    (hl : result.length = initial.length) (hr : TracksAll policy initial result sums tops) :
    ∃ final, updates.foldlM (aggregateStep policy initial) (some result, total) =
        .ok (some final, (xs.map Prod.snd).foldl (· + ·) total) ∧
      TracksAll policy initial final
        (xs.foldl (fun a u ↦ List.zipWith Tensor.add a (u.1.map (Tensor.scale u.2))) sums)
        (xs.foldl (fun a u ↦ List.zipWith Tensor.maximum a u.1) tops) := by
  induction h generalizing result sums tops total with
  | nil => exact ⟨result, rfl, hr⟩
  | @cons u x us xs hu hus ih =>
    obtain ⟨final, hf, hfr⟩ := ih (total + x.2) (stepAll_length x.2 hu.length hl)
      (tracksAll_step hu hr)
    refine ⟨final, ?_, hfr⟩
    rw [List.foldlM_cons, aggregateStep_valid hu]
    exact hf

theorem finishAccumulator_eq (total : ℚ) {base acc s t : Tensor} (h : Tracks policy base acc s t) :
    finishAccumulator policy total base acc =
      if takesMaximum policy base then t.astype base.dtype
      else if base.dtype.inexact then s.mapTo s.dtype (· / total)
      else ((s.mapTo s.dtype (· / total)).mapTo s.dtype (fun q ↦ Tensor.rint q)).astype base.dtype := by
  cases hm : takesMaximum policy base
  · simp only [Tracks, hm, Bool.false_eq_true, if_false] at h
    obtain ⟨rfl, hd⟩ := h
    by_cases hx : base.dtype.inexact = true
    · have hdt : acc.dtype = base.dtype := by simpa [DType.promoted, hx] using hd
      have hself : (acc.mapTo base.dtype (· / total)).astype base.dtype = acc.mapTo base.dtype (· / total) :=
        @Tensor.astype_self_of_float (acc.mapTo base.dtype (· / total)) hx
      simp only [finishAccumulator, hm, hx, Bool.false_eq_true, if_false, if_true, hdt, hself]
    · simp only [finishAccumulator, hm, hx, Bool.false_eq_true, if_false]
      rfl
  · simp only [Tracks, hm, if_true] at h
    simp only [finishAccumulator, hm, if_true, h]

/-- The streaming accumulation of owned slices is the weighted mean of the logical states they
stand for, up to the integer policy. -/
theorem aggregateOwned_eq {updates : List OwnedUpdate} {xs : List (List Tensor × ℚ)}
    (h : List.Forall₂ (Valid initial) updates xs) (hne : updates ≠ []) :
    aggregateOwned initial updates policy = .ok (policyState policy initial xs) := by
  cases h with
  | nil => exact absurd rfl hne
  | @cons u x us xs hu hus =>
    have hl : (startAll policy x.2 initial x.1).length = initial.length := by
      simp [startAll, hu.length]
    obtain ⟨final, hfin, hfr⟩ := foldlM_valid hus (0 + x.2) hl (tracksAll_start hu)
    have hrun : aggregateOwned initial (u :: us) policy = .ok (List.zipWith
        (finishAccumulator policy ((xs.map Prod.snd).foldl (· + ·) (0 + x.2))) initial final) := by
      rw [aggregateOwned, List.foldlM_cons, aggregateStep_valid hu]
      simp only [bind, Except.bind] at hfin ⊢
      rw [hfin]
    rw [hrun, zero_add]
    congr 1
    apply List.ext_getElem?
    intro i
    cases hb : initial[i]? with
    | none => simp [policyState, List.getElem?_zipWith, hb]
    | some base =>
      obtain ⟨acc, s, t, ha, hs, ht, htr⟩ := hfr i base hb
      have hmean : (weightedMean (x :: xs)).getD i base =
          s.mapTo s.dtype (· / (xs.map Prod.snd).foldl (· + ·) x.2) := by
        rw [weightedMean, List.getD_eq_getElem?_getD, List.getElem?_map, hs]
        rfl
      have htop : (maximumState (x :: xs)).getD i base = t := by
        rw [maximumState, List.getD_eq_getElem?_getD, ht]
        rfl
      simp only [policyState, List.getElem?_zipWith, List.getElem?_mapIdx, hb, ha, Option.map_some,
        hmean, htop, finishAccumulator_eq _ htr]
      rfl

theorem foldl_add_length {xs : List (List Tensor × ℚ)} {sums : List Tensor} {n : ℕ}
    (hs : sums.length = n) (hx : ∀ x ∈ xs, x.1.length = n) :
    (xs.foldl (fun a u ↦ List.zipWith Tensor.add a (u.1.map (Tensor.scale u.2))) sums).length = n := by
  induction xs generalizing sums with
  | nil => exact hs
  | cons x xs ih =>
    have hl := hx x List.mem_cons_self
    exact ih (by simp [hs, hl]) (fun x' h ↦ hx x' (List.mem_cons_of_mem _ h))

theorem length_of_mem {updates : List OwnedUpdate} {xs : List (List Tensor × ℚ)}
    (h : List.Forall₂ (Valid initial) updates xs) : ∀ x ∈ xs, x.1.length = initial.length := by
  induction h with
  | nil => simp
  | cons hu _ ih => exact List.forall_mem_cons.mpr ⟨hu.length, ih⟩

theorem weightedMean_length {xs : List (List Tensor × ℚ)} {n : ℕ} (hne : xs ≠ [])
    (h : ∀ x ∈ xs, x.1.length = n) : (weightedMean xs).length = n := by
  cases xs with
  | nil => exact absurd rfl hne
  | cons x xs =>
    obtain ⟨hx, hxs⟩ := List.forall_mem_cons.mp h
    rw [weightedMean, List.length_map]
    exact foldl_add_length (by rw [List.length_map, hx]) hxs

/-- The mean of layers times Python floats is of a float dtype in every position. -/
theorem weightedMean_inexact {xs : List (List Tensor × ℚ)} :
    ∀ t ∈ weightedMean xs, t.dtype.inexact = true := by
  have hfold : ∀ (us : List (List Tensor × ℚ)) (sums : List Tensor),
      (∀ t ∈ sums, t.dtype.inexact = true) →
      ∀ t ∈ us.foldl (fun a u ↦ List.zipWith Tensor.add a (u.1.map (Tensor.scale u.2))) sums,
        t.dtype.inexact = true := by
    intro us
    induction us with
    | nil => exact fun sums h ↦ h
    | cons u us ih =>
      intro sums h
      apply ih
      intro t ht
      obtain ⟨i, hi, rfl⟩ := List.getElem_of_mem ht
      have hi' : i < sums.length := by
        rw [List.length_zipWith] at hi
        omega
      have hadd : ∀ a b : Tensor, (a.add b).dtype = a.dtype := fun a b ↦ rfl
      rw [List.getElem_zipWith, hadd]
      exact h _ (List.getElem_mem hi')
  cases xs with
  | nil => simp [weightedMean]
  | cons x xs =>
    intro t ht
    obtain ⟨s, hs, rfl⟩ := List.mem_map.mp ht
    refine hfold xs _ (fun t ht ↦ ?_) s hs
    obtain ⟨v, -, rfl⟩ := List.mem_map.mp ht
    exact v.dtype.promoted_inexact

theorem weightedMean_getElem? {updates : List OwnedUpdate} {xs : List (List Tensor × ℚ)}
    (h : List.Forall₂ (Valid initial) updates xs) (hne : updates ≠ []) {i : ℕ} {base : Tensor}
    (hb : initial[i]? = some base) :
    ∃ y top, (weightedMean xs)[i]? = some y ∧ y.dtype = base.dtype.promoted ∧
      (maximumState xs)[i]? = some top := by
  cases h with
  | nil => exact absurd rfl hne
  | @cons u x us xs hu hus =>
    -- under the rounding policy the accumulator is the partial sum itself
    have hl : (startAll .weightedRound x.2 initial x.1).length = initial.length := by
      simp [startAll, hu.length]
    obtain ⟨final, -, hfr⟩ := @foldlM_valid _ .weightedRound _ _ hus _ _ _ 0 hl (tracksAll_start hu)
    obtain ⟨acc, s, t, -, hs, ht, htr⟩ := hfr i base hb
    have hd : s.dtype = base.dtype.promoted := (by simpa [Tracks, takesMaximum] using htr : _ ∧ _).2
    refine ⟨s.mapTo s.dtype (· / (xs.map Prod.snd).foldl (· + ·) x.2), t, ?_, hd, ht⟩
    rw [weightedMean, List.getElem?_map, hs, Option.map_some]

end SplitFleet.OwnedAggregation
