import SplitFleet.OortSelection

set_option autoImplicit false

namespace SplitFleet.ClientSelection.OortSelector

open Lib

variable {σ : Type} {C : OortSelectorConfig} {M : Maths} {R : Rng σ} {s : OortSelector σ} {roundId : ℤ}

/-! ### Availability -/

/-- No registered client is unavailable. -/
def AllAvailable (s : OortSelector σ) : Prop :=
  ∀ cid state, s.clients.get? cid = some state → state.available = true

theorem AllAvailable.client (h : AllAvailable s) (cid : String) : (s.client cid).available = true := by
  rw [OortSelector.client]
  cases hc : s.clients.get? cid with
  | none => rfl
  | some state => exact h cid state hc

theorem AllAvailable.insert (h : AllAvailable s) {t : OortSelector σ} {cid : String} {state : ClientState}
    (ht : t.clients = s.clients.insert cid state) (hs : state.available = true) : AllAvailable t := by
  intro k st hk
  rw [ht, Dict.get?_insert] at hk
  split_ifs at hk with hc
  · cases hk
    exact hs
  · exact h k st hk

theorem AllAvailable.of_clients (h : AllAvailable s) {t : OortSelector σ} (ht : t.clients = s.clients) :
    AllAvailable t := by
  intro cid state hc
  rw [ht] at hc
  exact h cid state hc

theorem AllAvailable.registerClient (h : AllAvailable s) (cid : String) (n : ℤ) (d q : ℚ) :
    AllAvailable (s.registerClient C M cid n d q) := by
  by_cases hc : (s.clients.get? cid).isSome
  · rw [OortSelector.registerClient, if_pos hc]
    exact h
  · rw [OortSelector.registerClient, if_neg hc]
    exact h.insert rfl rfl

theorem AllAvailable.registered (h : AllAvailable s) (cids : List String) : AllAvailable (s.registered C M cids) := by
  have hfold : AllAvailable (cids.foldl (fun s cid ↦ s.registerClient C M cid 0 1 0) s) := by
    induction cids generalizing s with
    | nil => exact h
    | cons cid cids ih => exact ih (h.registerClient cid 0 1 0)
  apply hfold.of_clients
  rw [OortSelector.registered, refreshBlacklist_clients, recordPreviousSelectionUtility_clients]

/-- The clients and the blacklist that a selection looks at are the ones it leaves. -/
theorem select_kept {candidateCids : List String} {numClients : ℤ} (hpos : 0 < numClients) :
    (s.select C M R roundId candidateCids numClients).1.clients =
        (s.registered C M (sortedSet candidateCids)).clients ∧
      (s.select C M R roundId candidateCids numClients).1.blacklist =
        (s.registered C M (sortedSet candidateCids)).blacklist := by
  obtain ⟨hc, hb, -, -⟩ := @prepare_kept C σ (s.registered C M (sortedSet candidateCids)) roundId
  rw [select, if_neg (not_le.mpr hpos)]
  dsimp only
  split_ifs
  · exact ⟨hc, hb⟩
  · rw [selectSome]
    dsimp only
    cases ((s.registered C M (sortedSet candidateCids)).prepare C roundId).computeExploitationScores C M _ roundId with
    | error e => exact ⟨hc, hb⟩
    | ok scores => exact ⟨hc, hb⟩

theorem AllAvailable.select (h : AllAvailable s) (candidateCids : List String) (numClients : ℤ) :
    AllAvailable (s.select C M R roundId candidateCids numClients).1 := by
  by_cases hpos : 0 < numClients
  · exact (h.registered _).of_clients (select_kept hpos).1
  · rw [OortSelector.select, if_pos (not_lt.mp hpos)]
    exact h

theorem AllAvailable.updateAfterFit (h : AllAvailable s) (cid : String) (n : ℤ) (metrics : Dict String MetricValue) :
    AllAvailable (s.updateAfterFit C M roundId cid n metrics).1 := by
  have hr : AllAvailable (s.registerClient C M cid 0 1 0) := h.registerClient cid 0 1 0
  rw [OortSelector.updateAfterFit]
  dsimp only
  cases MetricValue.numExamples n (metrics.get? "num_examples") with
  | error e => exact hr
  | ok examples =>
    dsimp only
    cases computeOortReward M examples metrics ((s.registerClient C M cid 0 1 0).client cid) with
    | error e => exact hr.insert rfl (hr.client cid)
    | ok reward => exact hr.insert refreshBlacklist_clients rfl

theorem Reachable.allAvailable (h : Reachable C M R s) : AllAvailable s := by
  induction h with
  | init g => exact fun cid state hc ↦ by cases hc
  | registered cid n d q _ ih => exact ih.registerClient cid n d q
  | selected roundId candidateCids numClients _ ih => exact ih.select candidateCids numClients
  | fitted roundId cid n metrics _ ih => exact ih.updateAfterFit cid n metrics
  | failed roundId cid reason _ ih =>
    have hr := ih.registerClient (C := C) (M := M) cid 0 1 0
    exact hr.insert rfl (hr.client cid)

/-! ### The size of the blacklist -/

theorem maxBlacklist_lt : s.maxBlacklist C < s.clients.size := by
  unfold maxBlacklist
  omega

theorem card_refreshBlacklist : ((s.refreshBlacklist C).blacklist.card : ℤ) ≤ max (s.maxBlacklist C) 0 := by
  unfold refreshBlacklist
  dsimp only
  split_ifs
  · exact le_max_right _ _
  · exact le_max_right _ _
  · exact le_max_right _ _
  · have hcard := List.toFinset_card_le (((sortedBy (fun state : ClientState ↦
      toLex (-(state.selectedCount : ℤ), state.cid)) (s.clients.values.filter fun state ↦
        C.blacklistRounds < state.selectedCount)).take (s.maxBlacklist C).toNat).map ClientState.cid)
    rw [List.length_map] at hcard
    have hle := hcard.trans (List.length_take_le _ _)
    dsimp only
    omega

/-! ### Selections that are not empty -/

theorem isEligible_eq_true_iff {cid : String} (h : AllAvailable s) (hc : (s.clients.get? cid).isSome) :
    s.isEligible cid = true ↔ cid ∉ s.blacklist := by
  obtain ⟨state, hstate⟩ := Option.isSome_iff_exists.mp hc
  rw [isEligible, hstate, Bool.and_eq_true, decide_eq_true_iff]
  exact and_iff_left (h cid state hstate)

theorem WellFormed.ne_nil_iff {candidateCids : List String} {numClients : ℤ} {r : SelectionResult}
    (h : WellFormed s candidateCids numClients r) (hpos : 0 < numClients) :
    r.selectedCids ≠ [] ↔ ∃ cid ∈ candidateCids, s.isEligible cid = true := by
  constructor
  · intro hne
    obtain ⟨cid, hcid⟩ := List.exists_mem_of_ne_nil _ hne
    exact ⟨cid, h.mem cid hcid⟩
  · rintro ⟨cid, hcid, he⟩ hnil
    have hlen : 0 < (candidateCids.dedup.filter s.isEligible).length :=
      List.length_pos_of_mem (List.mem_filter.mpr ⟨List.mem_dedup.mpr hcid, he⟩)
    have hsize := h.size
    rw [hnil, List.length_nil] at hsize
    omega

/-- A blacklist shorter than the list of candidates leaves one of them. -/
theorem exists_not_mem_blacklist {candidateCids : List String} (h : s.blacklist.card < candidateCids.dedup.length) :
    ∃ cid ∈ candidateCids, cid ∉ s.blacklist := by
  by_contra hall
  push Not at hall
  have hsub : candidateCids.toFinset ⊆ s.blacklist := fun cid hcid ↦ hall cid (List.mem_toFinset.mp hcid)
  have hcard := Finset.card_le_card hsub
  rw [List.card_toFinset] at hcard
  omega

/-- A selection is empty where every candidate is on the blacklist, which leaves a registered client out. -/
theorem select_ne_nil_iff (h : Reachable C M R s) {candidateCids : List String} (hne : candidateCids ≠ [])
    {numClients : ℤ} (hpos : 0 < numClients) {r : SelectionResult}
    (hr : (s.select C M R roundId candidateCids numClients).2 = .ok r) :
    let s' := (s.select C M R roundId candidateCids numClients).1
    (r.selectedCids ≠ [] ↔ ∃ cid ∈ candidateCids, cid ∉ s'.blacklist) ∧
      (s'.blacklist.card : ℤ) ≤ max (s'.maxBlacklist C) 0 ∧ s'.blacklist.card < s'.clients.size ∧
      (s'.blacklist.card < candidateCids.dedup.length → r.selectedCids ≠ []) ∧
      ((∀ cid ∈ s'.clients.keys, cid ∈ candidateCids) → r.selectedCids ≠ []) := by
  intro s'
  obtain ⟨hc, hb⟩ := @select_kept σ C M R s roundId candidateCids numClients hpos
  have havailable : AllAvailable s' := (Reachable.selected roundId candidateCids numClients h).allAvailable
  have hregistered (cid : String) (hcid : cid ∈ candidateCids) : (s'.clients.get? cid).isSome := by
    rw [hc]
    exact registered_isSome.mpr (.inl (mem_sortedSet.mpr hcid))
  have hiff : r.selectedCids ≠ [] ↔ ∃ cid ∈ candidateCids, cid ∉ s'.blacklist := by
    rw [(wellFormed_select hr).ne_nil_iff hpos]
    refine exists_congr fun cid ↦ and_congr_right fun hcid ↦ ?_
    exact isEligible_eq_true_iff havailable (hregistered cid hcid)
  have hcard : (s'.blacklist.card : ℤ) ≤ max (s'.maxBlacklist C) 0 := by
    have hle := @card_refreshBlacklist σ C
      ((sortedSet candidateCids).foldl (fun s cid ↦ s.registerClient C M cid 0 1 0) s).recordPreviousSelectionUtility
    rw [← registered, ← hb] at hle
    rw [maxBlacklist, hc]
    rw [maxBlacklist, ← refreshBlacklist_clients (C := C)] at hle
    exact hle
  have hsize : 0 < s'.clients.size := by
    obtain ⟨cid, hcid⟩ := List.exists_mem_of_ne_nil _ hne
    obtain ⟨state, hstate⟩ := Option.isSome_iff_exists.mp (hregistered cid hcid)
    exact List.length_pos_of_mem ((Dict.get?_eq_some_iff _).mp hstate)
  have hlt : s'.blacklist.card < s'.clients.size := by
    have hmax := @maxBlacklist_lt σ C s'
    omega
  refine ⟨hiff, hcard, hlt, fun hd ↦ hiff.mpr (exists_not_mem_blacklist hd), fun hall ↦ ?_⟩
  apply hiff.mpr
  apply exists_not_mem_blacklist
  have hsub : s'.clients.keys.toFinset ⊆ candidateCids.toFinset := fun cid hcid ↦
    List.mem_toFinset.mpr (hall cid (List.mem_toFinset.mp hcid))
  have hle := Finset.card_le_card hsub
  rw [List.card_toFinset candidateCids, ← Dict.size_eq_card_keys] at hle
  omega

/-! ### A candidate alone on the blacklist -/

/-- Every use counts, and all clients but one may be blacklisted. -/
def strict : OortSelectorConfig := { noFloor with blacklistRounds := 0, blacklistMaxLen := 1, minDuration := 1 / 10000 }

/-- Two clients, one of which has trained. -/
def onceUsed : OortSelector Unit :=
  (((init strict ()).registerClient strict firstRound "b" 0 1 0).updateAfterFit strict firstRound 1 "a" 0 Dict.empty).1

theorem reachable_onceUsed : Reachable strict firstRound firstDraws onceUsed :=
  .fitted 1 "a" 0 _ (.registered "b" 0 1 0 (.init ()))

theorem all_candidates_selected : ∃ r, (onceUsed.select strict firstRound firstDraws 2 ["a", "b"] 1).2 = .ok r ∧
    r.selectedCids ≠ [] := by
  have hok : (onceUsed.select strict firstRound firstDraws 2 ["a", "b"] 1).2.isOk = true := by decide +kernel
  cases hr : (onceUsed.select strict firstRound firstDraws 2 ["a", "b"] 1).2 with
  | error e =>
    rw [hr] at hok
    cases hok
  | ok r =>
    obtain ⟨-, -, -, -, hall⟩ := select_ne_nil_iff reachable_onceUsed (by decide) (by decide) hr
    exact ⟨r, rfl, hall (by decide +kernel)⟩

theorem lone_candidate_blacklisted : ¬ ∀ (C : OortSelectorConfig) (M : Maths) (R : Rng Unit) (s : OortSelector Unit),
    Reachable C M R s → C.blacklistMaxLen ≤ 1 → ∀ (roundId : ℤ) (candidateCids : List String) (numClients : ℤ),
      (∃ cid ∈ candidateCids, (s.client cid).available = true) → 0 < numClients →
        ∀ r, (s.select C M R roundId candidateCids numClients).2 = .ok r → r.selectedCids ≠ [] := by
  intro hall
  have h := hall strict firstRound firstDraws onceUsed reachable_onceUsed (by decide) 2 ["a"] 1
    ⟨"a", by decide +kernel⟩ (by decide)
  have hempty : ((onceUsed.select strict firstRound firstDraws 2 ["a"] 1).2.toOption.map
    SelectionResult.selectedCids) = some [] := by decide +kernel
  cases hr : (onceUsed.select strict firstRound firstDraws 2 ["a"] 1).2 with
  | error e =>
    rw [hr] at hempty
    cases hempty
  | ok r =>
    rw [hr] at hempty
    exact h r hr (Option.some.inj hempty)

end SplitFleet.ClientSelection.OortSelector
