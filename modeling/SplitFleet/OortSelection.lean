import SplitFleet.OortSelector
import Mathlib.Data.List.GetD

set_option autoImplicit false

namespace SplitFleet.ClientSelection

open Lib OortSelector

/-! ### Quantiles and the largest reward -/

/-- A quantile has a value of its list below it. -/
theorem exists_le_quantile {l : List ℚ} (hl : l ≠ []) {q : ℚ} (h₀ : 0 ≤ q) (h₁ : q ≤ 1) :
    ∃ x ∈ l, x ≤ quantile l q := by
  have hperm := List.perm_insertionSort (· ≤ ·) l
  have hsorted := List.pairwise_insertionSort (· ≤ ·) l
  have hlen : (l.insertionSort (· ≤ ·)).length = l.length := hperm.length_eq
  have hpos : 0 < l.length := List.length_pos_iff.mpr hl
  have hn : (1 : ℚ) ≤ l.length := by exact_mod_cast hpos
  have hposition : 0 ≤ q * (l.length - 1) := mul_nonneg h₀ (by linarith)
  have hle : q * (l.length - 1) ≤ l.length - 1 := by
    have hmul := mul_le_mul_of_nonneg_right h₁ (by linarith : (0 : ℚ) ≤ l.length - 1)
    linarith
  have hfloor : ⌊q * (l.length - 1)⌋.toNat < (l.insertionSort (· ≤ ·)).length := by
    have hf : (⌊q * (l.length - 1)⌋ : ℚ) ≤ l.length - 1 := (Int.floor_le _).trans hle
    have hf : ⌊q * (l.length - 1)⌋ ≤ (l.length : ℤ) - 1 := by exact_mod_cast hf
    omega
  have hbelow := List.getD_eq_getElem _ (0 : ℚ) hfloor
  refine ⟨_, hperm.mem_iff.mp (List.getElem_mem hfloor), ?_⟩
  rw [← hbelow]
  unfold quantile
  have hfract : 0 ≤ q * (l.length - 1) - ⌊q * (l.length - 1)⌋ := sub_nonneg.mpr (Int.floor_le _)
  have habove : (l.insertionSort (· ≤ ·)).getD ⌊q * (l.length - 1)⌋.toNat 0 ≤
      (l.insertionSort (· ≤ ·)).getD (⌊q * (l.length - 1)⌋.toNat + 1)
        ((l.insertionSort (· ≤ ·)).getD ⌊q * (l.length - 1)⌋.toNat 0) := by
    by_cases hs : ⌊q * (l.length - 1)⌋.toNat + 1 < (l.insertionSort (· ≤ ·)).length
    · rw [hbelow, List.getD_eq_getElem _ _ hs]
      exact List.pairwise_iff_getElem.mp hsorted _ _ hfloor hs (Nat.lt_succ_self _)
    · rw [List.getD_eq_default _ _ (not_lt.mp hs)]
  have hmul := mul_nonneg hfract (sub_nonneg.mpr habove)
  dsimp only
  linarith

theorem foldl_max_le_iff {l : List ℚ} {x b : ℚ} : l.foldl max x ≤ b ↔ x ≤ b ∧ ∀ y ∈ l, y ≤ b := by
  induction l generalizing x with
  | nil => simp
  | cons y l ih =>
    rw [List.foldl_cons, ih, max_le_iff, List.forall_mem_cons, and_assoc]

theorem maxOf_le_iff {l : List ℚ} (hl : l ≠ []) {b : ℚ} : maxOf l ≤ b ↔ ∀ y ∈ l, y ≤ b := by
  cases l with
  | nil => exact absurd rfl hl
  | cons x l => rw [maxOf, foldl_max_le_iff, List.forall_mem_cons]

variable (C : OortSelectorConfig)

theorem clipValue_nonneg {rewards : List ℚ} (hne : rewards ≠ []) (h : ∀ r ∈ rewards, 0 ≤ r) :
    0 ≤ clipValue C rewards := by
  obtain ⟨x, hx, hle⟩ := exists_le_quantile hne (le_min (le_max_right C.clipBound 0) zero_le_one)
    (min_le_right (max C.clipBound 0) 1)
  exact ((h x hx).trans hle).trans (le_max_left _ _)

/-- The divisor of the rewards is zero where nothing keeps it from it. -/
theorem maxReward_eq_zero_iff {rewards : List ℚ} (hne : rewards ≠ []) (h : ∀ r ∈ rewards, 0 ≤ r) :
    maxReward C rewards = 0 ↔ C.minDuration ≤ 0 ∧ ∀ r ∈ rewards, min r (clipValue C rewards) = 0 := by
  have hclip := clipValue_nonneg C hne h
  have hmap : rewards.map (min · (clipValue C rewards)) ≠ [] := fun he ↦ hne (List.map_eq_nil_iff.mp he)
  have hmin : ∀ r ∈ rewards, 0 ≤ min r (clipValue C rewards) := fun r hr ↦ le_min (h r hr) hclip
  constructor
  · intro hz
    obtain ⟨htop, hdur⟩ := max_le_iff.mp hz.le
    refine ⟨hdur, fun r hr ↦ le_antisymm ?_ (hmin r hr)⟩
    exact (maxOf_le_iff hmap).mp htop _ (List.mem_map_of_mem hr)
  · rintro ⟨hdur, hz⟩
    apply le_antisymm
    · refine max_le ((maxOf_le_iff hmap).mpr ?_) hdur
      exact List.forall_mem_map.mpr fun r hr ↦ (hz r hr).le
    · obtain ⟨r, hr⟩ := List.exists_mem_of_ne_nil rewards hne
      have hle := (maxOf_le_iff hmap).mp le_rfl _ (List.mem_map_of_mem hr)
      exact ((hmin r hr).trans hle).trans (le_max_left _ _)

namespace OortSelector

variable {σ : Type} {C} {M : Maths} {R : Rng σ} {s : OortSelector σ} {roundId : ℤ}

/-! ### What a selection keeps -/

theorem updatePacer_clients : (s.updatePacer C roundId).clients = s.clients := by
  unfold updatePacer
  dsimp only
  split_ifs <;> rfl

theorem updatePacer_blacklist : (s.updatePacer C roundId).blacklist = s.blacklist := by
  unfold updatePacer
  dsimp only
  split_ifs <;> rfl

theorem updatePacer_unexplored : (s.updatePacer C roundId).unexplored = s.unexplored ∧
    (s.updatePacer C roundId).successfulClients = s.successfulClients := by
  unfold updatePacer
  dsimp only
  split_ifs <;> exact ⟨rfl, rfl⟩

theorem updateRoundPreferDuration_kept : (s.updateRoundPreferDuration C).clients = s.clients ∧
    (s.updateRoundPreferDuration C).blacklist = s.blacklist ∧
    (s.updateRoundPreferDuration C).unexplored = s.unexplored ∧
    (s.updateRoundPreferDuration C).successfulClients = s.successfulClients := by
  unfold updateRoundPreferDuration
  dsimp only
  split_ifs <;> exact ⟨rfl, rfl, rfl, rfl⟩

/-- What pacing and decay leave as it is. -/
theorem prepare_kept : (s.prepare C roundId).clients = s.clients ∧ (s.prepare C roundId).blacklist = s.blacklist ∧
    (s.prepare C roundId).unexplored = s.unexplored ∧
    (s.prepare C roundId).successfulClients = s.successfulClients := by
  obtain ⟨hc, hb, hu, hs⟩ := @updateRoundPreferDuration_kept C _ (s.updatePacer C roundId)
  refine ⟨hc.trans updatePacer_clients, hb.trans updatePacer_blacklist, ?_, ?_⟩
  · exact hu.trans updatePacer_unexplored.1
  · exact hs.trans updatePacer_unexplored.2

theorem prefer_pos {prefer : ℚ} (h : (s.updateRoundPreferDuration C).roundPreferDuration = some prefer) :
    0 < prefer := by
  unfold updateRoundPreferDuration at h
  dsimp only at h
  split_ifs at h with h₁ h₂
  cases h
  obtain ⟨x, hx, hle⟩ := exists_le_quantile h₂
    (div_nonneg (le_min (le_max_right s.roundThreshold 0) (by norm_num)) (by norm_num))
    (div_le_one_of_le₀ (min_le_right (max s.roundThreshold 0) 100) (by norm_num))
  obtain ⟨state, hstate, rfl⟩ := List.mem_map.mp hx
  have hpos := of_decide_eq_true (List.mem_filter.mp hstate).2
  exact ((hpos.trans_le (le_max_left _ _)).trans_le hle).trans_le (le_max_left _ _)

theorem prepare_prefer_pos {prefer : ℚ} (h : (s.prepare C roundId).roundPreferDuration = some prefer) : 0 < prefer :=
  prefer_pos h

/-! ### When the scores raise -/

theorem divide_ok_iff {x y : ℚ} : (∃ z, divide x y = .ok z) ↔ y ≠ 0 := by
  rw [divide]
  split_ifs with hy
  · exact iff_of_false (by simp) (not_not.mpr hy)
  · exact iff_of_true ⟨_, rfl⟩ hy

theorem scoreOf_ok_iff (hprefer : ∀ prefer, s.roundPreferDuration = some prefer → 0 < prefer) {clip top : ℚ}
    {cid : String} : (∃ x, s.scoreOf C M roundId clip top cid = .ok x) ↔ top ≠ 0 := by
  rw [← @divide_ok_iff (min (max (s.client cid).reward 0) clip), scoreOf]
  constructor
  · rintro ⟨x, h⟩
    obtain ⟨utility, hu, -⟩ := bind_eq_ok h
    exact ⟨utility, hu⟩
  · rintro ⟨utility, hu⟩
    dsimp only
    rw [hu, ok_bind]
    cases hp : s.roundPreferDuration with
    | none => exact ⟨_, rfl⟩
    | some prefer =>
      dsimp only
      split_ifs with hslow
      · have hne : max (s.client cid).duration C.minDuration ≠ 0 :=
          (((hprefer prefer hp).trans hslow).trans_le (le_max_left _ _)).ne'
        obtain ⟨ratio, hr⟩ := (@divide_ok_iff prefer _).mpr hne
        rw [hr, ok_bind]
        exact ⟨_, rfl⟩
      · exact ⟨_, rfl⟩

theorem computeExploitationScores_ok_iff (hprefer : ∀ prefer, s.roundPreferDuration = some prefer → 0 < prefer)
    {eligible : List String} : (∃ scores, s.computeExploitationScores C M eligible roundId = .ok scores) ↔
      (s.exploitable eligible ≠ [] → maxReward C (s.rewardsOf (s.exploitable eligible)) ≠ 0) := by
  rw [computeExploitationScores]
  dsimp only
  by_cases hne : s.exploitable eligible = []
  · rw [if_pos hne]
    exact iff_of_true ⟨_, rfl⟩ fun h ↦ absurd hne h
  · rw [if_neg hne]
    constructor
    · rintro ⟨scores, h⟩ -
      obtain ⟨values, hv, -⟩ := bind_eq_ok h
      obtain ⟨cid, hcid⟩ := List.exists_mem_of_ne_nil _ hne
      exact (scoreOf_ok_iff hprefer).mp (exists_mapM_ok_iff.mp ⟨values, hv⟩ cid hcid)
    · intro h
      obtain ⟨values, hv⟩ := exists_mapM_ok_iff.mpr fun cid (_ : cid ∈ s.exploitable eligible) ↦
        (@scoreOf_ok_iff C σ M s roundId hprefer (clipValue C (s.rewardsOf (s.exploitable eligible)))
          (maxReward C (s.rewardsOf (s.exploitable eligible))) cid).mpr (h hne)
      exact ⟨_, by rw [hv, ok_bind]; rfl⟩

/-- The scores are those of the exploitable clients. -/
theorem keys_computeExploitationScores {eligible : List String} (hn : eligible.Nodup) {scores : Dict String ℚ}
    (h : s.computeExploitationScores C M eligible roundId = .ok scores) : scores.keys = s.exploitable eligible := by
  rw [computeExploitationScores] at h
  dsimp only at h
  by_cases hne : s.exploitable eligible = []
  · rw [if_pos hne] at h
    cases h
    exact hne.symm
  · rw [if_neg hne] at h
    obtain ⟨values, hv, h⟩ := bind_eq_ok h
    cases h
    have hlen : (s.exploitable eligible).length = values.length := (mapM_eq_ok_iff.mp hv).length_eq
    have hkeys : ((s.exploitable eligible).zip values).map Prod.fst = s.exploitable eligible :=
      List.map_fst_zip hlen.le
    have hnodup : (((s.exploitable eligible).zip values).map Prod.fst).Nodup := by
      rw [hkeys]
      exact hn.filter _
    rw [Dict.keys, Dict.entries_ofList hnodup, hkeys]

/-! ### The three kinds of draws -/

variable {eligible taken : List String} {scores : Dict String ℚ} {n : ℕ}

theorem weightedSample_subperm (items : List String) (weights : List ℚ) (count : ℕ) (g : σ) :
    (weightedSample R items weights count g).1.Subperm items := by
  refine (drawAll_subperm R _ _ g).trans ?_
  exact (map_fst_zip_sublist _ _).subperm

theorem sampleExploitationClients_subperm (exploitable : List String) (scores : Dict String ℚ) (count : ℤ) (g : σ) :
    (sampleExploitationClients C R exploitable scores count g).1.Subperm exploitable := by
  unfold sampleExploitationClients
  cases exploitable with
  | nil => exact List.nil_subperm
  | cons best rest =>
    dsimp only
    split_ifs
    · exact List.nil_subperm
    · exact (weightedSample_subperm _ _ _ _).trans (List.take_sublist _ _).subperm
    · exact (weightedSample_subperm _ _ _ _).trans List.filter_sublist.subperm

theorem sampleExplorationClients_subperm (count : ℤ) (g : σ) :
    (s.sampleExplorationClients C R eligible taken count scores g).1.Subperm
      (eligible.filter fun cid ↦ cid ∈ s.unexplored && cid ∉ taken) := by
  unfold sampleExplorationClients
  dsimp only
  split_ifs
  · exact List.nil_subperm
  · refine (weightedSample_subperm _ _ _ _).trans ?_
    exact (List.take_sublist _ _).subperm.trans (sortedBy_perm _ _).subperm

/-- The clients of a selection that is long enough or can be filled. -/
theorem fillSelected_spec {selected : List String} (g : σ) (hn : eligible.Nodup)
    (hs : selected.Subperm eligible) (hlt : n ≤ eligible.length) :
    (fillSelected R eligible selected n g).1.Subperm eligible ∧ n ≤ (fillSelected R eligible selected n g).1.length := by
  unfold fillSelected
  split_ifs with hshort
  · have hperm : (selected ++ eligible.filter fun cid ↦ cid ∉ selected).Perm eligible := by
      have hnodup : (selected ++ eligible.filter fun cid ↦ cid ∉ selected).Nodup := by
        rw [List.nodup_append]
        refine ⟨nodup_of_subperm hs hn, hn.filter _, fun a ha b hb hab ↦ ?_⟩
        have hb := of_decide_eq_true (List.mem_filter.mp hb).2
        exact hb (hab ▸ ha)
      refine (List.perm_ext_iff_of_nodup hnodup hn).mpr fun cid ↦ ?_
      rw [List.mem_append, List.mem_filter, decide_eq_true_iff]
      constructor
      · rintro (h | h)
        · exact hs.subset h
        · exact h.1
      · intro h
        by_cases hc : cid ∈ selected
        · exact .inl hc
        · exact .inr ⟨h, hc⟩
    have hlen := hperm.length_eq
    rw [List.length_append] at hlen
    have hk := min_le_right (n - selected.length) (eligible.filter fun cid ↦ cid ∉ selected).length
    have hdrawn := R.sample_length _ _ g hk
    dsimp only
    constructor
    · exact ((List.subperm_append_left selected).mpr (R.sample_subperm _ _ g hk)).trans hperm.subperm
    · rw [List.length_append, hdrawn]
      omega
  · exact ⟨hs, not_lt.mp hshort⟩

/-! ### Registered candidates -/

def isEligible (s : OortSelector σ) (cid : String) : Bool :=
  cid ∉ s.blacklist && (s.clients.get? cid).any ClientState.available

theorem registerClient_isSome {cid k : String} {n : ℤ} {d q : ℚ} :
    ((s.registerClient C M cid n d q).clients.get? k).isSome ↔ k = cid ∨ (s.clients.get? k).isSome := by
  by_cases h : (s.clients.get? cid).isSome
  · rw [registerClient, if_pos h]
    refine (or_iff_right_of_imp ?_).symm
    rintro rfl
    exact h
  · rw [registerClient, if_neg h]
    dsimp only
    rw [Dict.get?_insert]
    by_cases hk : cid = k
    · rw [if_pos hk]
      exact iff_of_true rfl (.inl hk.symm)
    · rw [if_neg hk]
      exact (or_iff_right fun he ↦ hk he.symm).symm

theorem foldl_registerClient_isSome {cids : List String} {k : String} :
    ((cids.foldl (fun s cid ↦ s.registerClient C M cid 0 1 0) s).clients.get? k).isSome ↔
      k ∈ cids ∨ (s.clients.get? k).isSome := by
  induction cids generalizing s with
  | nil => simp
  | cons cid cids ih =>
    rw [List.foldl_cons, ih, registerClient_isSome, List.mem_cons]
    tauto

theorem refreshBlacklist_clients : (s.refreshBlacklist C).clients = s.clients := by
  unfold refreshBlacklist
  dsimp only
  split_ifs <;> rfl

theorem recordPreviousSelectionUtility_clients : s.recordPreviousSelectionUtility.clients = s.clients := by
  unfold recordPreviousSelectionUtility
  dsimp only
  split_ifs <;> rfl

theorem registered_isSome {cids : List String} {k : String} :
    ((s.registered C M cids).clients.get? k).isSome ↔ k ∈ cids ∨ (s.clients.get? k).isSome := by
  rw [registered, refreshBlacklist_clients, recordPreviousSelectionUtility_clients, foldl_registerClient_isSome]

theorem eligible_eq {cids : List String} (h : ∀ cid ∈ cids, (s.clients.get? cid).isSome) :
    s.eligible cids = cids.filter s.isEligible := by
  rw [OortSelector.eligible, List.filter_filter]
  refine List.filter_congr fun cid hcid ↦ ?_
  obtain ⟨state, hstate⟩ := Option.isSome_iff_exists.mp (h cid hcid)
  rw [isEligible, client, hstate]
  rfl

theorem eligible_registered (cids : List String) :
    (s.registered C M cids).eligible cids = cids.filter (s.registered C M cids).isEligible :=
  eligible_eq fun _ hcid ↦ registered_isSome.mpr (.inl hcid)

theorem length_filter_sortedSet (p : String → Bool) (l : List String) :
    ((sortedSet l).filter p).length = (l.dedup.filter p).length :=
  ((sortedBy_perm id l.dedup).filter p).length_eq

/-! ### Scores by default -/

theorem get?_setDefault (scores : Dict String ℚ) (cid k : String) (x : ℚ) :
    ((setDefault scores cid x).get? k).isSome ↔ k = cid ∨ (scores.get? k).isSome := by
  unfold setDefault
  split_ifs with h
  · refine (or_iff_right_of_imp ?_).symm
    rintro rfl
    exact h
  · rw [Dict.get?_insert]
    split_ifs with hk
    · exact iff_of_true rfl (.inl hk.symm)
    · exact (or_iff_right fun he ↦ hk he.symm).symm

theorem get?_foldl_setDefault (cids : List String) (f : String → ℚ) (scores : Dict String ℚ) {k : String}
    (hk : k ∈ cids) : ((cids.foldl (fun scores cid ↦ setDefault scores cid (f cid)) scores).get? k).isSome := by
  have hkeeps : ∀ (l : List String) (d : Dict String ℚ), (d.get? k).isSome →
      ((l.foldl (fun scores cid ↦ setDefault scores cid (f cid)) d).get? k).isSome := by
    intro l
    induction l with
    | nil => exact fun d h ↦ h
    | cons cid l ih => exact fun d h ↦ ih _ ((get?_setDefault d cid k (f cid)).mpr (.inr h))
  induction cids generalizing scores with
  | nil => cases hk
  | cons cid cids ih =>
    rcases List.mem_cons.mp hk with rfl | hk
    · exact hkeeps cids _ ((get?_setDefault scores k k (f k)).mpr (.inl rfl))
    · exact ih _ hk

/-! ### Selections -/

/-- A selection from the candidates that `s` has for eligible. -/
structure WellFormed (s : OortSelector σ) (candidateCids : List String) (numClients : ℤ) (r : SelectionResult) :
    Prop where
  nodup : r.selectedCids.Nodup
  mem : ∀ cid ∈ r.selectedCids, cid ∈ candidateCids ∧ s.isEligible cid = true
  size : (r.selectedCids.length : ℤ) = min (max numClients 0) (candidateCids.dedup.filter s.isEligible).length
  explore : ∀ cid ∈ r.exploreCids, cid ∈ r.selectedCids
  exploit : ∀ cid ∈ r.exploitCids, cid ∈ r.selectedCids
  disjoint : ∀ cid ∈ r.exploreCids, cid ∉ r.exploitCids
  scored : ∀ cid ∈ r.selectedCids, (r.scores.get? cid).isSome

theorem isEligible_congr {s' : OortSelector σ} (hc : s'.clients = s.clients) (hb : s'.blacklist = s.blacklist) :
    s'.isEligible = s.isEligible := by
  funext cid
  rw [isEligible, hc, hb, isEligible]

theorem selectAll_spec (hn : eligible.Nodup) :
    (s.selectAll C roundId eligible).1.isEligible = s.isEligible ∧
      ∃ r, (s.selectAll C roundId eligible).2 = .ok r ∧ r.selectedCids = eligible ∧
        (∀ cid ∈ r.exploreCids, cid ∈ eligible) ∧ (∀ cid ∈ r.exploitCids, cid ∈ eligible) ∧
        (∀ cid ∈ r.exploreCids, cid ∉ r.exploitCids) ∧ ∀ cid ∈ eligible, (r.scores.get? cid).isSome := by
  obtain ⟨hc, hb, -, -⟩ := @prepare_kept C σ s roundId
  refine ⟨isEligible_congr hc hb, _, rfl, rfl, ?_, ?_, ?_, ?_⟩
  · exact fun cid h ↦ (List.mem_filter.mp h).1
  · exact fun cid h ↦ (List.mem_filter.mp h).1
  · intro cid h h'
    exact of_decide_eq_true (List.mem_filter.mp h').2 (of_decide_eq_true (List.mem_filter.mp h).2)
  · intro cid h
    have hkeys : (eligible.map fun cid ↦ (cid, ((s.prepare C roundId).client cid).reward)).map Prod.fst = eligible := by
      rw [List.map_map]
      exact List.map_id _
    have hmem : cid ∈ (Dict.ofList (eligible.map fun cid ↦ (cid, ((s.prepare C roundId).client cid).reward))).keys := by
      rw [Dict.keys, Dict.entries_ofList (by rw [hkeys]; exact hn), hkeys]
      exact h
    obtain ⟨x, hx⟩ := (Dict.mem_keys_iff _).mp hmem
    exact Option.isSome_iff_exists.mpr ⟨x, hx⟩

theorem selectSome_error_iff : (∃ e, (s.selectSome C M R roundId eligible n).2 = .error e) ↔
    s.exploitable eligible ≠ [] ∧ maxReward C (s.rewardsOf (s.exploitable eligible)) = 0 := by
  obtain ⟨hc, -, hu, hs⟩ := @prepare_kept C σ s roundId
  have hcids : (s.prepare C roundId).exploitable eligible = s.exploitable eligible := by
    rw [exploitable, hu, hs, exploitable]
  have hrewards (cids : List String) : (s.prepare C roundId).rewardsOf cids = s.rewardsOf cids := by
    simp only [rewardsOf, client, hc]
  have hiff := @computeExploitationScores_ok_iff C σ M (s.prepare C roundId) roundId
    (fun _ ↦ prepare_prefer_pos) eligible
  rw [hcids, hrewards, ← not_iff_not, ← exists_error_iff, Classical.not_imp, not_not] at hiff
  rw [← hiff, selectSome]
  dsimp only
  cases (s.prepare C roundId).computeExploitationScores C M eligible roundId with
  | error e => exact iff_of_true ⟨e, rfl⟩ ⟨e, rfl⟩
  | ok scores => exact iff_of_false (by rintro ⟨e, ⟨⟩⟩) (by rintro ⟨e, ⟨⟩⟩)

theorem selectSome_spec (hn : eligible.Nodup) (hlt : n < eligible.length) {r : SelectionResult}
    (h : (s.selectSome C M R roundId eligible n).2 = .ok r) :
    (s.selectSome C M R roundId eligible n).1.isEligible = s.isEligible ∧
      r.selectedCids.Nodup ∧ (∀ cid ∈ r.selectedCids, cid ∈ eligible) ∧ r.selectedCids.length = n ∧
      (∀ cid ∈ r.exploreCids, cid ∈ r.selectedCids) ∧ (∀ cid ∈ r.exploitCids, cid ∈ r.selectedCids) ∧
      (∀ cid ∈ r.exploreCids, cid ∉ r.exploitCids) ∧ ∀ cid ∈ r.selectedCids, (r.scores.get? cid).isSome := by
  obtain ⟨hc, hb, -, -⟩ := @prepare_kept C σ s roundId
  rw [selectSome] at h ⊢
  dsimp only at h ⊢
  cases hscores : (s.prepare C roundId).computeExploitationScores C M eligible roundId with
  | error e =>
    rw [hscores] at h
    cases h
  | ok scores =>
    rw [hscores] at h
    let exploitable := sortedBy (fun cid ↦ toLex (-(scores.get? cid).getD 0, cid)) scores.keys
    let exploitLen : ℤ := min (truncate (n * (1 - (s.prepare C roundId).exploration))) exploitable.length
    let front := sampleExploitationClients C R exploitable scores exploitLen (s.prepare C roundId).rng
    let back := (s.prepare C roundId).sampleExplorationClients C R eligible front.1 (n - front.1.length) scores front.2
    have hfront : front.1.Subperm eligible := by
      refine (sampleExploitationClients_subperm _ _ _ _).trans ((sortedBy_perm _ _).subperm.trans ?_)
      rw [keys_computeExploitationScores hn hscores]
      exact List.filter_sublist.subperm
    have hback : back.1.Subperm (eligible.filter fun cid ↦ cid ∈ (s.prepare C roundId).unexplored && cid ∉ front.1) :=
      sampleExplorationClients_subperm _ _
    have hdisjoint : ∀ cid ∈ back.1, cid ∉ front.1 := fun cid hcid hf ↦ by
      have hmem := (List.mem_filter.mp (hback.subset hcid)).2
      simp [hf] at hmem
    have hboth : (front.1 ++ back.1).Subperm eligible := by
      apply List.subperm_of_subset
      · rw [List.nodup_append]
        refine ⟨nodup_of_subperm hfront hn, nodup_of_subperm hback (hn.filter _), fun a ha b hb hab ↦ ?_⟩
        exact hdisjoint b hb (hab ▸ ha)
      · intro cid hcid
        rcases List.mem_append.mp hcid with hf | hb
        · exact hfront.subset hf
        · exact (List.mem_filter.mp (hback.subset hb)).1
    obtain ⟨hfill, hlen⟩ := @fillSelected_spec σ R eligible n (front.1 ++ back.1) back.2.2 hn hboth hlt.le
    cases h
    refine ⟨isEligible_congr hc hb, ?_, ?_, ?_, ?_, ?_, ?_, ?_⟩
    · exact (List.take_sublist n _).nodup (nodup_of_subperm hfill hn)
    · exact fun cid hcid ↦ hfill.subset (List.mem_of_mem_take hcid)
    · exact List.length_take_of_le hlen
    · exact fun cid hcid ↦ (List.mem_filter.mp hcid).1
    · exact fun cid hcid ↦ (List.mem_filter.mp hcid).1
    · intro cid h h'
      exact hdisjoint cid (of_decide_eq_true (List.mem_filter.mp h).2) (of_decide_eq_true (List.mem_filter.mp h').2)
    · exact fun cid hcid ↦ get?_foldl_setDefault _ _ _ hcid

/-- The states of a selector between two calls. -/
inductive Reachable (C : OortSelectorConfig) (M : Maths) (R : Rng σ) : OortSelector σ → Prop
  | init (g : σ) : Reachable C M R (init C g)
  | registered {s : OortSelector σ} (cid : String) (numExamples : ℤ) (duration reward : ℚ) (h : Reachable C M R s) :
      Reachable C M R (s.registerClient C M cid numExamples duration reward)
  | selected {s : OortSelector σ} (roundId : ℤ) (candidateCids : List String) (numClients : ℤ)
      (h : Reachable C M R s) : Reachable C M R (s.select C M R roundId candidateCids numClients).1
  | fitted {s : OortSelector σ} (roundId : ℤ) (cid : String) (numExamples : ℤ) (metrics : Dict String MetricValue)
      (h : Reachable C M R s) : Reachable C M R (s.updateAfterFit C M roundId cid numExamples metrics).1
  | failed {s : OortSelector σ} (roundId : ℤ) (cid : String) (reason : Option String) (h : Reachable C M R s) :
      Reachable C M R (s.updateAfterFailure C M roundId cid reason)

/-- More candidates are eligible than asked for, and all exploitable ones have a clipped reward of zero, with
nothing below it that the scores could be divided by. -/
def DividesByZero (C : OortSelectorConfig) (M : Maths) (s : OortSelector σ) (candidateCids : List String)
    (numClients : ℤ) : Prop :=
  let s' := s.registered C M (sortedSet candidateCids)
  let cids := s'.exploitable (s'.eligible (sortedSet candidateCids))
  0 < numClients ∧ numClients < (s'.eligible (sortedSet candidateCids)).length ∧ cids ≠ [] ∧
    C.minDuration ≤ 0 ∧ ∀ reward ∈ s'.rewardsOf cids, min reward (clipValue C (s'.rewardsOf cids)) = 0

theorem nodup_eligible (cids : List String) (h : cids.Nodup) : (s.eligible cids).Nodup := (h.filter _).filter _

theorem select_error_iff (candidateCids : List String) (numClients : ℤ) :
    (∃ e, (s.select C M R roundId candidateCids numClients).2 = .error e) ↔
      DividesByZero C M s candidateCids numClients := by
  rw [select, DividesByZero]
  dsimp only
  split_ifs with h₀ h₁
  · exact iff_of_false (by rintro ⟨e, ⟨⟩⟩) fun h ↦ absurd h.1 (not_lt.mpr h₀)
  · refine iff_of_false ?_ fun h ↦ absurd h.2.1 (not_lt.mpr h₁)
    rintro ⟨e, ⟨⟩⟩
  · rw [selectSome_error_iff]
    constructor
    · rintro ⟨hne, hz⟩
      refine ⟨not_le.mp h₀, not_le.mp h₁, hne, (maxReward_eq_zero_iff C ?_ ?_).mp hz⟩
      · exact fun he ↦ hne (List.map_eq_nil_iff.mp he)
      · exact List.forall_mem_map.mpr fun cid _ ↦ le_max_right _ _
    · rintro ⟨-, -, hne, hz⟩
      refine ⟨hne, (maxReward_eq_zero_iff C ?_ ?_).mpr hz⟩
      · exact fun he ↦ hne (List.map_eq_nil_iff.mp he)
      · exact List.forall_mem_map.mpr fun cid _ ↦ le_max_right _ _

theorem wellFormed_select {candidateCids : List String} {numClients : ℤ} {r : SelectionResult}
    (h : (s.select C M R roundId candidateCids numClients).2 = .ok r) :
    WellFormed (s.select C M R roundId candidateCids numClients).1 candidateCids numClients r := by
  rw [select] at h ⊢
  dsimp only at h ⊢
  have heligible := @eligible_registered C σ M s (sortedSet candidateCids)
  have hcount := length_filter_sortedSet (s.registered C M (sortedSet candidateCids)).isEligible candidateCids
  have hn := @nodup_eligible σ (s.registered C M (sortedSet candidateCids)) _ (nodup_sortedSet candidateCids)
  have hmem : ∀ cid ∈ (s.registered C M (sortedSet candidateCids)).eligible (sortedSet candidateCids),
      cid ∈ candidateCids ∧ (s.registered C M (sortedSet candidateCids)).isEligible cid = true := by
    intro cid hcid
    rw [heligible, List.mem_filter, mem_sortedSet] at hcid
    exact hcid
  split_ifs at h ⊢ with h₀ h₁
  · cases h
    refine ⟨List.nodup_nil, by simp, ?_, by simp, by simp, by simp, by simp⟩
    rw [max_eq_right h₀, min_eq_left (Int.natCast_nonneg _)]
    rfl
  · obtain ⟨hkept, r', hr', hsel, hexplore, hexploit, hdisjoint, hscored⟩ :=
      @selectAll_spec C σ (s.registered C M (sortedSet candidateCids)) roundId _ hn
    cases h.symm.trans hr'
    refine ⟨hsel ▸ hn, ?_, ?_, hsel ▸ hexplore, hsel ▸ hexploit, hdisjoint, hsel ▸ hscored⟩
    · rw [hkept, hsel]
      exact hmem
    · rw [hkept, hsel, ← hcount, ← heligible]
      omega
  · have hlt := not_le.mp h₁
    obtain ⟨hkept, hnodup, hsub, hlen, hexplore, hexploit, hdisjoint, hscored⟩ :=
      selectSome_spec hn (by omega) h
    refine ⟨hnodup, ?_, ?_, hexplore, hexploit, hdisjoint, hscored⟩
    · rw [hkept]
      exact fun cid hcid ↦ hmem cid (hsub cid hcid)
    · rw [hkept, hlen, ← hcount, ← heligible]
      omega

variable (C M R s roundId) in
/-- A selection is well formed, or the scores have no divisor. -/
theorem select_law (candidateCids : List String) (numClients : ℤ) :
    ((∃ e, (s.select C M R roundId candidateCids numClients).2 = .error e) ↔
      DividesByZero C M s candidateCids numClients) ∧
    ∀ r, (s.select C M R roundId candidateCids numClients).2 = .ok r →
      WellFormed (s.select C M R roundId candidateCids numClients).1 candidateCids numClients r :=
  ⟨select_error_iff candidateCids numClients, fun _ h ↦ wellFormed_select h⟩

/-! ### Two clients without examples -/

/-- The default configuration with no least duration. -/
def noFloor : OortSelectorConfig where
  explorationFactor := 9 / 10
  explorationDecay := 95 / 100
  explorationMin := 2 / 10
  explorationAlpha := 3 / 10
  sampleWindow := 5
  roundThreshold := 10
  roundPenalty := 2
  pacerStep := 20
  pacerDelta := 5
  clipBound := 98 / 100
  cutOffUtil := 7 / 10
  blacklistRounds := -1
  blacklistMaxLen := 3 / 10
  minDuration := 0

/-- The logarithms and the root at the arguments of the first round and of no examples. -/
def firstRound : Maths := ⟨fun _ ↦ 0, fun _ ↦ 0, fun _ ↦ 0, fun _ _ ↦ 1⟩

/-- A generator that draws what comes first. -/
def firstDraws : Rng Unit where
  random g := (0, g)
  randrange _ h g := (⟨0, h⟩, g)
  sample l k g := (l.take k, g)
  sample_length _ _ _ h := List.length_take_of_le h
  sample_subperm _ _ _ _ := (List.take_sublist _ _).subperm

def withoutExamples : OortSelector Unit :=
  let s := ((init noFloor ()).updateAfterFit noFloor firstRound 1 "a" 0 Dict.empty).1
  (s.updateAfterFit noFloor firstRound 1 "b" 0 Dict.empty).1

theorem no_selection_without_rewards : ¬ ∀ (C : OortSelectorConfig) (M : Maths) (R : Rng Unit) (s : OortSelector Unit),
    Reachable C M R s → ∀ (roundId : ℤ) (candidateCids : List String) (numClients : ℤ),
      ∃ r, (s.select C M R roundId candidateCids numClients).2 = .ok r := by
  intro hall
  obtain ⟨r, hr⟩ := hall noFloor firstRound firstDraws withoutExamples
    (.fitted 1 "b" 0 _ (.fitted 1 "a" 0 _ (.init ()))) 1 ["a", "b"] 1
  have hraises : (withoutExamples.select noFloor firstRound firstDraws 1 ["a", "b"] 1).2.isOk = false := by
    decide +kernel
  rw [hr] at hraises
  cases hraises

end OortSelector

end SplitFleet.ClientSelection
