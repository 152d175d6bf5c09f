import SplitFleet.OortBlacklist

set_option autoImplicit false

namespace SplitFleet.ClientSelection.OortSelector

open Lib

variable {σ : Type} {C : OortSelectorConfig} {M : Maths} {R : Rng σ} {s t : OortSelector σ} {roundId : ℤ}

/-! ### The invariant -/

/-- How many of `n` clients the blacklist may have. -/
def blacklistBound (C : OortSelectorConfig) (n : ℕ) : ℤ := max 0 (min ⌊n * C.blacklistMaxLen⌋ (n - 1))

/-- The clients of a selector, where each is known under its own name. -/
structure Partitioned (s : OortSelector σ) : Prop where
  named : ∀ cid state, s.clients.get? cid = some state → state.cid = cid
  registered : ∀ cid, (s.clients.get? cid).isSome ↔ cid ∈ s.unexplored ∨ cid ∈ s.successfulClients
  disjoint : Disjoint s.unexplored s.successfulClients

/-- The blacklist has the most used of the overused clients. -/
structure Blacklisted (C : OortSelectorConfig) (s : OortSelector σ) : Prop where
  registered : ∀ cid ∈ s.blacklist, (s.clients.get? cid).isSome
  card : (s.blacklist.card : ℤ) ≤ blacklistBound C s.clients.size
  overused : ∀ cid ∈ s.blacklist, C.blacklistRounds < (s.client cid).selectedCount
  most : ∀ cid ∈ s.blacklist, ∀ k ∉ s.blacklist, (s.clients.get? k).isSome →
    C.blacklistRounds < (s.client k).selectedCount → (s.client k).selectedCount ≤ (s.client cid).selectedCount

theorem blacklistBound_mono {m n : ℕ} (h : m ≤ n) : blacklistBound C m ≤ blacklistBound C n := by
  unfold blacklistBound
  have hcast : (m : ℚ) ≤ n := by exact_mod_cast h
  rcases le_total 0 C.blacklistMaxLen with hlen | hlen
  · have hfloor : ⌊m * C.blacklistMaxLen⌋ ≤ ⌊n * C.blacklistMaxLen⌋ :=
      Int.floor_mono (mul_le_mul_of_nonneg_right hcast hlen)
    omega
  · have hfloor : ⌊m * C.blacklistMaxLen⌋ ≤ 0 := by
      have hle : m * C.blacklistMaxLen ≤ 0 := mul_nonpos_of_nonneg_of_nonpos (Nat.cast_nonneg m) hlen
      exact_mod_cast (Int.floor_le _).trans hle
    omega

theorem truncate_le_floor (q : ℚ) : max (truncate q) 0 = max 0 ⌊q⌋ := by
  unfold truncate
  split_ifs with hq
  · exact max_comm _ _
  · have hceil : ⌈q⌉ ≤ 0 := Int.ceil_le.mpr (by exact_mod_cast (not_le.mp hq).le)
    have hfloor : ⌊q⌋ ≤ 0 := (Int.floor_le_ceil q).trans hceil
    rw [max_eq_right hceil, max_eq_left hfloor]

theorem maxBlacklist_le (s : OortSelector σ) : max (s.maxBlacklist C) 0 ≤ blacklistBound C s.clients.size := by
  unfold maxBlacklist blacklistBound
  rw [truncate_le_floor]
  omega

theorem client_eq {cid : String} {state : ClientState} (h : s.clients.get? cid = some state) : s.client cid = state := by
  rw [client, h]
  rfl

/-! ### The blacklist is made anew -/

theorem refreshBlacklist_partitioned (h : Partitioned s) : Partitioned (s.refreshBlacklist C) := by
  obtain ⟨hnamed, hregistered, hdisjoint⟩ := h
  unfold refreshBlacklist
  dsimp only
  split_ifs <;> exact ⟨hnamed, hregistered, hdisjoint⟩

theorem blacklisted_of_empty (h : s.blacklist = ∅) : Blacklisted C s := by
  constructor
  · simp [h]
  · rw [h]
    exact le_max_left _ _
  · simp [h]
  · simp [h]

theorem refreshBlacklist_blacklisted (h : Partitioned s) : Blacklisted C (s.refreshBlacklist C) := by
  have hcard := @card_refreshBlacklist σ C s
  have hclients : (s.refreshBlacklist C).clients = s.clients := refreshBlacklist_clients
  unfold refreshBlacklist at hcard hclients ⊢
  dsimp only at hcard hclients ⊢
  split_ifs at hcard hclients ⊢
  · exact blacklisted_of_empty rfl
  · exact blacklisted_of_empty rfl
  · exact blacklisted_of_empty rfl
  · generalize hkey : (fun state : ClientState ↦ toLex (-(state.selectedCount : ℤ), state.cid)) = key at hcard ⊢
    generalize hover : (s.clients.values.filter fun state ↦ decide (C.blacklistRounds < state.selectedCount)) =
      overused at hcard ⊢
    have hmember {state : ClientState} : state ∈ overused ↔
        s.clients.get? state.cid = some state ∧ C.blacklistRounds < state.selectedCount := by
      rw [← hover, List.mem_filter, decide_eq_true_iff, Dict.mem_values_iff]
      refine and_congr_left fun _ ↦ ⟨?_, fun hget ↦ ⟨_, hget⟩⟩
      rintro ⟨cid, hget⟩
      rw [h.named cid state hget]
      exact hget
    have hlisted {cid : String} (hcid : cid ∈ (((sortedBy key overused).take (s.maxBlacklist C).toNat).map
        ClientState.cid).toFinset) : ∃ state ∈ (sortedBy key overused).take (s.maxBlacklist C).toNat, state.cid = cid :=
      List.mem_map.mp (List.mem_toFinset.mp hcid)
    have hget {state : ClientState} (hstate : state ∈ (sortedBy key overused).take (s.maxBlacklist C).toNat) :
        s.clients.get? state.cid = some state ∧ C.blacklistRounds < state.selectedCount :=
      hmember.mp ((mem_sortedBy key).mp (List.mem_of_mem_take hstate))
    constructor
    · intro cid hcid
      obtain ⟨state, hstate, rfl⟩ := hlisted hcid
      exact Option.isSome_iff_exists.mpr ⟨state, (hget hstate).1⟩
    · exact hcard.trans (maxBlacklist_le s)
    · intro cid hcid
      obtain ⟨state, hstate, rfl⟩ := hlisted hcid
      have hclient : s.client state.cid = state := client_eq (hget hstate).1
      change C.blacklistRounds < (s.client state.cid).selectedCount
      rw [hclient]
      exact (hget hstate).2
    · intro cid hcid k hk hsome hover'
      obtain ⟨state, hstate, rfl⟩ := hlisted hcid
      obtain ⟨other, hother⟩ := Option.isSome_iff_exists.mp hsome
      have hother : s.clients.get? k = some other := hother
      have hname := h.named k other hother
      change (s.client k).selectedCount ≤ (s.client state.cid).selectedCount
      change C.blacklistRounds < (s.client k).selectedCount at hover'
      rw [client_eq hother] at hover' ⊢
      rw [client_eq (hget hstate).1]
      have hle := key_le_of_mem_take key hstate (hmember.mpr ⟨hname ▸ hother, hover'⟩) fun hin ↦
        hk (List.mem_toFinset.mpr (List.mem_map.mpr ⟨other, hin, hname⟩))
      rw [← hkey] at hle
      rcases Prod.Lex.toLex_le_toLex.mp hle with hlt | ⟨heq, -⟩ <;> dsimp only at * <;> omega

/-! ### Clients are registered and updated -/

theorem Partitioned.congr (h : Partitioned s) (hc : t.clients = s.clients) (hu : t.unexplored = s.unexplored)
    (hs : t.successfulClients = s.successfulClients) : Partitioned t := by
  refine ⟨?_, ?_, ?_⟩
  · rw [hc]
    exact h.named
  · rw [hc, hu, hs]
    exact h.registered
  · rw [hu, hs]
    exact h.disjoint

theorem Blacklisted.congr (h : Blacklisted C s) (hc : t.clients = s.clients) (hb : t.blacklist = s.blacklist) :
    Blacklisted C t := by
  have hclient (cid : String) : t.client cid = s.client cid := by rw [client, hc, client]
  refine ⟨?_, ?_, ?_, ?_⟩
  · rw [hc, hb]
    exact h.registered
  · rw [hc, hb]
    exact h.card
  · simp only [hb, hclient]
    exact h.overused
  · simp only [hb, hc, hclient]
    exact h.most

theorem partitioned_init (g : σ) : Partitioned (init C g) where
  named _ _ h := by cases h
  registered _ := iff_of_false (by simp [init]) (by simp [init])
  disjoint := Finset.disjoint_empty_left _

/-- What a registration does. -/
theorem registerClient_cases (cid : String) (n : ℤ) (d q : ℚ) :
    s.registerClient C M cid n d q = s ∨ s.clients.get? cid = none ∧
      ∃ state : ClientState, state.cid = cid ∧ state.selectedCount = 0 ∧
        s.registerClient C M cid n d q =
          { s with clients := s.clients.insert cid state, unexplored := insert cid s.unexplored } := by
  by_cases hc : (s.clients.get? cid).isSome
  · exact .inl (if_pos hc)
  · exact .inr ⟨Option.not_isSome_iff_eq_none.mp hc, _, rfl, rfl, if_neg hc⟩

theorem Partitioned.registerClient (h : Partitioned s) (cid : String) (n : ℤ) (d q : ℚ) :
    Partitioned (s.registerClient C M cid n d q) := by
  obtain he | ⟨hc, state, hname, -, he⟩ := @registerClient_cases σ C M s cid n d q
  · rw [he]
    exact h
  rw [he]
  have hcid : cid ∉ s.successfulClients := by
    intro hs
    have hsome := (h.registered cid).mpr (.inr hs)
    rw [hc] at hsome
    cases hsome
  refine ⟨fun k other hk ↦ ?_, fun k ↦ ?_, Finset.disjoint_insert_left.mpr ⟨hcid, h.disjoint⟩⟩
  · dsimp only at hk
    rw [Dict.get?_insert] at hk
    split_ifs at hk with hck
    · cases hk
      exact hname.trans hck
    · exact h.named k other hk
  · dsimp only
    rw [Dict.get?_insert, Finset.mem_insert, or_assoc, ← h.registered]
    split_ifs with hck
    · exact iff_of_true rfl (.inl hck.symm)
    · exact (or_iff_right fun hkc ↦ hck hkc.symm).symm

theorem registerClient_blacklist {cid : String} {n : ℤ} {d q : ℚ} :
    (s.registerClient C M cid n d q).blacklist = s.blacklist := by
  obtain he | ⟨-, state, -, -, he⟩ := @registerClient_cases σ C M s cid n d q <;> rw [he]

/-- A client that was not registered has not been used. -/
theorem registerClient_selectedCount {cid k : String} {n : ℤ} {d q : ℚ} :
    ((s.registerClient C M cid n d q).client k).selectedCount = (s.client k).selectedCount := by
  obtain he | ⟨hc, state, -, hcount, he⟩ := @registerClient_cases σ C M s cid n d q
  · rw [he]
  · rw [he, client, Dict.get?_insert]
    split_ifs with hk
    · rw [← hk, client, hc]
      exact hcount
    · rfl

theorem registerClient_size {cid : String} {n : ℤ} {d q : ℚ} :
    s.clients.size ≤ (s.registerClient C M cid n d q).clients.size := by
  obtain he | ⟨hc, state, -, -, he⟩ := @registerClient_cases σ C M s cid n d q
  · rw [he]
  · rw [he, Dict.size_insert _ hc]
    exact Nat.le_succ _

theorem Blacklisted.registerClient (h : Blacklisted C s) (cid : String) (n : ℤ) (d q : ℚ) :
    Blacklisted C (s.registerClient C M cid n d q) := by
  refine ⟨?_, ?_, ?_, ?_⟩
  · rw [registerClient_blacklist]
    exact fun k hk ↦ registerClient_isSome.mpr (.inr (h.registered k hk))
  · rw [registerClient_blacklist]
    exact h.card.trans (blacklistBound_mono registerClient_size)
  · simp only [registerClient_blacklist, registerClient_selectedCount]
    exact h.overused
  · simp only [registerClient_blacklist, registerClient_selectedCount, registerClient_isSome]
    rintro a ha k hk (rfl | hsome) hover
    · by_cases hsome : (s.clients.get? k).isSome
      · exact h.most a ha k hk hsome hover
      · rw [client, Option.not_isSome_iff_eq_none.mp hsome]
        exact Nat.zero_le _
    · exact h.most a ha k hk hsome hover

theorem Partitioned.atSelection (h : Partitioned s) (cids : List String) :
    Partitioned (s.registered C M cids) ∧ Blacklisted C (s.registered C M cids) := by
  have hfold : Partitioned (cids.foldl (fun s cid ↦ s.registerClient C M cid 0 1 0) s) := by
    induction cids generalizing s with
    | nil => exact h
    | cons cid cids ih => exact ih (h.registerClient cid 0 1 0)
  have hrecord {u : OortSelector σ} (hu : Partitioned u) : Partitioned u.recordPreviousSelectionUtility := by
    unfold recordPreviousSelectionUtility
    dsimp only
    split_ifs <;> exact hu.congr rfl rfl rfl
  exact ⟨refreshBlacklist_partitioned (hrecord hfold), refreshBlacklist_blacklisted (hrecord hfold)⟩

/-- Other data of a registered client. -/
theorem Partitioned.insert (h : Partitioned s) {cid : String} {state : ClientState} (hcid : (s.clients.get? cid).isSome)
    (hstate : state.cid = cid) (ht : t.clients = s.clients.insert cid state) (hu : t.unexplored = s.unexplored)
    (hs : t.successfulClients = s.successfulClients) : Partitioned t := by
  refine ⟨fun k other hk ↦ ?_, fun k ↦ ?_, ?_⟩
  · rw [ht, Dict.get?_insert] at hk
    split_ifs at hk with hck
    · cases hk
      exact hstate.trans hck
    · exact h.named k other hk
  · rw [ht, Dict.get?_insert, hu, hs, ← h.registered]
    split_ifs with hck
    · exact iff_of_true rfl (hck ▸ hcid)
    · exact Iff.rfl
  · rw [hu, hs]
    exact h.disjoint

theorem Blacklisted.insert (h : Blacklisted C s) {cid : String} {state : ClientState}
    (hcid : (s.clients.get? cid).isSome) (hstate : state.selectedCount = (s.client cid).selectedCount)
    (ht : t.clients = s.clients.insert cid state) (hb : t.blacklist = s.blacklist) : Blacklisted C t := by
  have hsome (k : String) : (t.clients.get? k).isSome ↔ (s.clients.get? k).isSome := by
    rw [ht, Dict.get?_insert]
    split_ifs with hck
    · exact iff_of_true rfl (hck ▸ hcid)
    · exact Iff.rfl
  have hcount (k : String) : (t.client k).selectedCount = (s.client k).selectedCount := by
    rw [client, ht, Dict.get?_insert]
    split_ifs with hck
    · rw [← hck]
      exact hstate
    · rfl
  have hsize : s.clients.size = t.clients.size := by
    rw [Dict.size_eq_card_keys, Dict.size_eq_card_keys]
    congr 1
    ext k
    rw [List.mem_toFinset, List.mem_toFinset, Dict.mem_keys_iff, Dict.mem_keys_iff, ← Option.isSome_iff_exists,
      ← Option.isSome_iff_exists, hsome]
  refine ⟨?_, ?_, ?_, ?_⟩
  · simp only [hb, hsome]
    exact h.registered
  · rw [hb, ← hsize]
    exact h.card
  · simp only [hb, hcount]
    exact h.overused
  · simp only [hb, hcount, hsome]
    exact h.most

/-! ### Pace and exploration -/

/-- The pace and the exploration are as they were. -/
structure SamePace (s t : OortSelector σ) : Prop where
  threshold : t.roundThreshold = s.roundThreshold
  exploration : t.exploration = s.exploration

theorem samePace_registerClient {cid : String} {n : ℤ} {d q : ℚ} : SamePace s (s.registerClient C M cid n d q) := by
  obtain he | ⟨-, state, -, -, he⟩ := @registerClient_cases σ C M s cid n d q <;> rw [he] <;> exact ⟨rfl, rfl⟩

theorem samePace_refreshBlacklist : SamePace s (s.refreshBlacklist C) := by
  unfold refreshBlacklist
  dsimp only
  split_ifs <;> exact ⟨rfl, rfl⟩

theorem SamePace.trans {u : OortSelector σ} (h : SamePace s t) (h' : SamePace t u) : SamePace s u :=
  ⟨h'.threshold.trans h.threshold, h'.exploration.trans h.exploration⟩

theorem samePace_registered (cids : List String) : SamePace s (s.registered C M cids) := by
  have hfold : SamePace s (cids.foldl (fun s cid ↦ s.registerClient C M cid 0 1 0) s) := by
    induction cids generalizing s with
    | nil => exact ⟨rfl, rfl⟩
    | cons cid cids ih => exact samePace_registerClient.trans ih
  have hrecord {u : OortSelector σ} : SamePace u u.recordPreviousSelectionUtility := by
    unfold recordPreviousSelectionUtility
    dsimp only
    split_ifs <;> exact ⟨rfl, rfl⟩
  exact (hfold.trans hrecord).trans samePace_refreshBlacklist

theorem updatePacer_exploration : (s.updatePacer C roundId).exploration = s.exploration := by
  unfold updatePacer
  dsimp only
  split_ifs <;> rfl

theorem updatePacer_threshold (hdelta : 0 ≤ C.pacerDelta) (h : 0 ≤ s.roundThreshold ∧ s.roundThreshold ≤ 100) :
    0 ≤ (s.updatePacer C roundId).roundThreshold ∧ (s.updatePacer C roundId).roundThreshold ≤ 100 := by
  unfold updatePacer
  dsimp only
  split_ifs
  · exact h
  · exact h
  · exact h
  · exact ⟨le_min (by norm_num) (add_nonneg h.1 hdelta), min_le_left _ _⟩
  · exact ⟨le_max_left _ _, max_le (by norm_num) (by linarith)⟩
  · exact h

theorem updateRoundPreferDuration_pace : SamePace s (s.updateRoundPreferDuration C) := by
  unfold updateRoundPreferDuration
  dsimp only
  split_ifs <;> exact ⟨rfl, rfl⟩

/-- A selection leaves what preparing it leaves, but for its own record. -/
theorem select_prepared {candidateCids : List String} {numClients : ℤ} (hpos : 0 < numClients) :
    let p := (s.registered C M (sortedSet candidateCids)).prepare C roundId
    let t := (s.select C M R roundId candidateCids numClients).1
    SamePace p t ∧ t.unexplored = p.unexplored ∧ t.successfulClients = p.successfulClients := by
  intro p t
  unfold t p
  rw [select, if_neg (not_le.mpr hpos)]
  dsimp only
  split_ifs
  · exact ⟨⟨rfl, rfl⟩, rfl, rfl⟩
  · rw [selectSome]
    dsimp only
    cases ((s.registered C M (sortedSet candidateCids)).prepare C roundId).computeExploitationScores C M _ roundId with
    | error e => exact ⟨⟨rfl, rfl⟩, rfl, rfl⟩
    | ok scores => exact ⟨⟨rfl, rfl⟩, rfl, rfl⟩

/-- A call of one of the four methods. -/
inductive Call (C : OortSelectorConfig) (M : Maths) (R : Rng σ) (s : OortSelector σ) : OortSelector σ → Prop
  | registered (cid : String) (numExamples : ℤ) (duration reward : ℚ) :
      Call C M R s (s.registerClient C M cid numExamples duration reward)
  | selected (roundId : ℤ) (candidateCids : List String) (numClients : ℤ) :
      Call C M R s (s.select C M R roundId candidateCids numClients).1
  | fitted (roundId : ℤ) (cid : String) (numExamples : ℤ) (metrics : Dict String MetricValue) :
      Call C M R s (s.updateAfterFit C M roundId cid numExamples metrics).1
  | failed (roundId : ℤ) (cid : String) (reason : Option String) :
      Call C M R s (s.updateAfterFailure C M roundId cid reason)

namespace Call

/-- The pace and the exploration change in selections only. -/
theorem pace (h : Call C M R s t) : SamePace s t ∨ ∃ u roundId, SamePace s u ∧
    t.roundThreshold = (u.updatePacer C roundId).roundThreshold ∧
    t.exploration = max C.explorationMin (s.exploration * C.explorationDecay) := by
  cases h with
  | registered cid n d q => exact .inl samePace_registerClient
  | selected roundId candidateCids numClients =>
    by_cases hpos : 0 < numClients
    · obtain ⟨hpace, -, -⟩ := @select_prepared σ C M R s roundId candidateCids numClients hpos
      have hregistered : SamePace s (s.registered C M (sortedSet candidateCids)) := samePace_registered _
      have hprefer := @updateRoundPreferDuration_pace σ C
        ((s.registered C M (sortedSet candidateCids)).updatePacer C roundId)
      refine .inr ⟨_, roundId, hregistered, hpace.threshold.trans hprefer.threshold, hpace.exploration.trans ?_⟩
      rw [prepare, decayExploration, hprefer.exploration, updatePacer_exploration, hregistered.exploration]
    · rw [select, if_pos (not_lt.mp hpos)]
      exact .inl ⟨rfl, rfl⟩
  | fitted roundId cid n metrics =>
    have hr : SamePace s (s.registerClient C M cid 0 1 0) := samePace_registerClient
    refine .inl ?_
    rw [updateAfterFit]
    dsimp only
    cases MetricValue.numExamples n (metrics.get? "num_examples") with
    | error e => exact hr
    | ok examples =>
      dsimp only
      cases computeOortReward M examples metrics ((s.registerClient C M cid 0 1 0).client cid) with
      | error e => exact ⟨hr.threshold, hr.exploration⟩
      | ok reward =>
        refine SamePace.trans ?_ samePace_refreshBlacklist
        exact ⟨hr.threshold, hr.exploration⟩
  | failed roundId cid reason =>
    have hr : SamePace s (s.registerClient C M cid 0 1 0) := samePace_registerClient
    exact .inl ⟨hr.threshold, hr.exploration⟩

theorem threshold (h : Call C M R s t) (hdelta : 0 ≤ C.pacerDelta)
    (hs : 0 ≤ s.roundThreshold ∧ s.roundThreshold ≤ 100) : 0 ≤ t.roundThreshold ∧ t.roundThreshold ≤ 100 := by
  obtain hpace | ⟨u, roundId, hu, ht, -⟩ := h.pace
  · rw [hpace.threshold]
    exact hs
  · rw [ht]
    rw [← hu.threshold] at hs
    exact updatePacer_threshold hdelta hs

theorem exploration (h : Call C M R s t) (h₀ : 0 ≤ C.explorationDecay) (h₁ : C.explorationDecay ≤ 1)
    (hs : 0 ≤ s.exploration ∧ C.explorationMin ≤ s.exploration) :
    (0 ≤ t.exploration ∧ C.explorationMin ≤ t.exploration) ∧ t.exploration ≤ s.exploration := by
  obtain hpace | ⟨u, roundId, -, -, ht⟩ := h.pace
  · rw [hpace.exploration]
    exact ⟨hs, le_rfl⟩
  · rw [ht]
    refine ⟨⟨(mul_nonneg hs.1 h₀).trans (le_max_right _ _), le_max_left _ _⟩, max_le hs.2 ?_⟩
    exact mul_le_of_le_one_right hs.1 h₁

end Call

/-! ### The clients of a selector after a call -/

/-- The blacklist is as it should be for the clients there are. -/
structure Sound (C : OortSelectorConfig) (s : OortSelector σ) : Prop where
  partitioned : Partitioned s
  blacklisted : Blacklisted C s

namespace Sound

theorem registerClient (h : Sound C s) (cid : String) (n : ℤ) (d q : ℚ) :
    Sound C (s.registerClient C M cid n d q) :=
  ⟨h.partitioned.registerClient cid n d q, h.blacklisted.registerClient cid n d q⟩

theorem select (h : Sound C s) (candidateCids : List String) (numClients : ℤ) :
    Sound C (s.select C M R roundId candidateCids numClients).1 := by
  by_cases hpos : 0 < numClients
  · obtain ⟨-, hu, hs⟩ := @select_prepared σ C M R s roundId candidateCids numClients hpos
    obtain ⟨-, -, hu', hs'⟩ := @prepare_kept C σ (s.registered C M (sortedSet candidateCids)) roundId
    obtain ⟨hpartitioned, hblacklisted⟩ := @Partitioned.atSelection σ C M s h.partitioned (sortedSet candidateCids)
    obtain ⟨hclients, hblacklist⟩ := @select_kept σ C M R s roundId candidateCids numClients hpos
    exact ⟨hpartitioned.congr hclients (hu.trans hu') (hs.trans hs'), hblacklisted.congr hclients hblacklist⟩
  · rw [OortSelector.select, if_pos (not_lt.mp hpos)]
    exact h

/-- New data of a registered client, used as often as before. -/
theorem insert (h : Sound C s) {cid : String} {state : ClientState} (hcid : (s.clients.get? cid).isSome)
    (hname : state.cid = cid) (hcount : state.selectedCount = (s.client cid).selectedCount) :
    Sound C { s with clients := s.clients.insert cid state } :=
  ⟨h.partitioned.insert hcid hname rfl rfl rfl, h.blacklisted.insert hcid hcount rfl rfl⟩

theorem isSome_registerClient (cid : String) : ((s.registerClient C M cid 0 1 0).clients.get? cid).isSome :=
  registerClient_isSome.mpr (.inl rfl)

theorem client_cid (h : Sound C s) (cid : String) : (s.client cid).cid = cid := by
  rw [OortSelector.client]
  cases hc : s.clients.get? cid with
  | none => rfl
  | some state => exact h.partitioned.named cid state hc

/-- A client that has trained is explored, and the blacklist is made anew. -/
theorem updateAfterFit (h : Sound C s) (cid : String) (n : ℤ) (metrics : Dict String MetricValue) :
    Sound C (s.updateAfterFit C M roundId cid n metrics).1 := by
  have hr : Sound C (s.registerClient C M cid 0 1 0) := h.registerClient cid 0 1 0
  have hsome := @isSome_registerClient σ C M s cid
  have hname := hr.client_cid cid
  rw [OortSelector.updateAfterFit]
  dsimp only
  generalize s.registerClient C M cid 0 1 0 = u at hr hsome hname
  cases MetricValue.numExamples n (metrics.get? "num_examples") with
  | error e => exact hr
  | ok examples =>
    dsimp only
    cases computeOortReward M examples metrics (u.client cid) with
    | error e => exact hr.insert hsome hname rfl
    | ok reward =>
      dsimp only
      suffices hp : Partitioned ({ u with
          clients := u.clients.insert cid _
          unexplored := u.unexplored.erase cid
          successfulClients := Insert.insert cid u.successfulClients } : OortSelector σ) from
        ⟨refreshBlacklist_partitioned hp, refreshBlacklist_blacklisted hp⟩
      obtain ⟨hnamed, hregistered, hdisjoint⟩ := hr.partitioned
      refine ⟨fun k other hk ↦ ?_, fun k ↦ ?_, ?_⟩
      · dsimp only at hk
        rw [Dict.get?_insert] at hk
        split_ifs at hk with hck
        · cases hk
          exact hname.trans hck
        · exact hnamed k other hk
      · dsimp only
        rw [Dict.get?_insert, Finset.mem_erase, Finset.mem_insert]
        split_ifs with hck
        · exact iff_of_true rfl (.inr (.inl hck.symm))
        · rw [hregistered]
          have hne : k ≠ cid := fun hkc ↦ hck hkc.symm
          simp [hne]
      · refine Finset.disjoint_insert_right.mpr ⟨Finset.notMem_erase cid _, ?_⟩
        exact hdisjoint.mono_left (Finset.erase_subset cid _)

theorem updateAfterFailure (h : Sound C s) (cid : String) (reason : Option String) :
    Sound C (s.updateAfterFailure C M roundId cid reason) := by
  have hr : Sound C (s.registerClient C M cid 0 1 0) := h.registerClient cid 0 1 0
  exact hr.insert (isSome_registerClient cid) (hr.client_cid cid) rfl

end Sound

theorem Call.sound (h : Call C M R s t) (hs : Sound C s) : Sound C t := by
  cases h with
  | registered cid n d q => exact hs.registerClient cid n d q
  | selected roundId candidateCids numClients => exact hs.select candidateCids numClients
  | fitted roundId cid n metrics => exact hs.updateAfterFit cid n metrics
  | failed roundId cid reason => exact hs.updateAfterFailure cid reason

/-! ### Every sequence of calls -/

/-- What every call keeps holds in every state that calls lead to. -/
theorem Reachable.invariant {P : OortSelector σ → Prop} (h : Reachable C M R s) (h₀ : ∀ g, P (OortSelector.init C g))
    (hcall : ∀ s t, Call C M R s t → P s → P t) : P s := by
  induction h with
  | init g => exact h₀ g
  | registered cid n d q _ ih => exact hcall _ _ (.registered cid n d q) ih
  | selected roundId candidateCids numClients _ ih => exact hcall _ _ (.selected roundId candidateCids numClients) ih
  | fitted roundId cid n metrics _ ih => exact hcall _ _ (.fitted roundId cid n metrics) ih
  | failed roundId cid reason _ ih => exact hcall _ _ (.failed roundId cid reason) ih

/-- An exploration below zero. -/
def negative : OortSelectorConfig :=
  { noFloor with explorationFactor := -1 / 2, explorationMin := -1, explorationDecay := 1 / 2 }

end SplitFleet.ClientSelection.OortSelector
