import SplitFleet.Lib.DictOrder
import SplitFleet.Lib.Lists
import SplitFleet.RoundSelection

set_option autoImplicit false

namespace SplitFleet.Virtual

open Lib

section Identities

variable {total : ℤ} {known registered properties : Dict String ℕ}

theorem keys_map_partitionOf (properties : Dict String ℕ) :
    properties.keys.map (partitionOf properties) = properties.values := by
  rw [Dict.keys, Dict.values, List.map_map]
  refine List.map_congr_left fun p hp ↦ ?_
  have hget : properties.get? p.1 = some p.2 := (properties.get?_eq_some_iff).mpr hp
  change (properties.get? p.1).getD 0 = p.2
  rw [hget, Option.getD_some]

/-- The clients that are registered have each a partition of the population. -/
theorem identify_perm (h : identifyClients total known registered = .ok properties) :
    (registered.keys.map (partitionOf properties)).Perm (List.range total.toNat) := by
  obtain ⟨_, hsize, h⟩ := bind_eq_ok h
  obtain ⟨_, hids, h⟩ := bind_eq_ok h
  have hsize := of_require hsize
  obtain ⟨hnodup, hset⟩ := of_require hids
  have hp : (registered.entries.filter (·.1 ∉ known.keys)).foldl (fun d p ↦ d.insert p.1 p.2) known = properties :=
    Except.ok.inj h
  rw [hp] at hnodup hset
  have hvalues : properties.values.Perm (List.range total.toNat) := by
    refine (List.perm_ext_iff_of_nodup hnodup List.nodup_range).mpr fun n ↦ ?_
    rw [← List.mem_toFinset, hset, Finset.mem_range, List.mem_range, ← hsize, Int.toNat_natCast]
  have hsub : registered.keys ⊆ properties.keys := by
    intro cid hcid
    rw [← hp, Dict.mem_keys_foldl_insert]
    by_cases hknown : cid ∈ known.keys
    · exact .inr hknown
    · obtain ⟨p, hmem, rfl⟩ := List.mem_map.mp hcid
      exact .inl (List.mem_map_of_mem (List.mem_filter.mpr ⟨hmem, decide_eq_true hknown⟩))
  have hlength : properties.keys.length = registered.keys.length := by
    have hlen := hvalues.length_eq
    rw [List.length_range, ← hsize, Int.toNat_natCast, Dict.values, List.length_map] at hlen
    rw [Dict.keys, Dict.keys, List.length_map, List.length_map, hlen, Dict.size]
  have hkeys : registered.keys.Perm properties.keys :=
    (List.subperm_of_subset registered.nodup hsub).perm_of_length_le hlength.le
  rw [← keys_map_partitionOf properties] at hvalues
  exact (hkeys.map _).trans hvalues

end Identities

/-! ### The clients that are online -/

section Online

variable {S : Selection} {c : VirtualConfig} {r : ℤ} {known registered properties : Dict String ℕ}
  {clients : RoundClients}

/-- The number of clients that are online in a round. -/
def onlineCount (p : ClientPopulation) (r : ℤ) : ℕ := (List.range p.total.toNat).countP fun cid ↦ !p.offlineIn r cid

theorem selectedCount_le (p : ClientPopulation) (online : ℕ) : selectedCount p online ≤ online := Nat.min_le_left _ _

theorem online_length (h : selectFitClients S c r known registered = .ok (properties, clients)) :
    clients.online.length = onlineCount c.virtualClients r := by
  obtain ⟨ids, hids, h⟩ := bind_eq_ok h
  cases h
  dsimp only
  rw [(sortedBy_perm _ _).length_eq, ← List.countP_eq_length_filter, onlineCount,
    ← (identify_perm hids).countP_eq, List.countP_map]
  rfl

theorem selected_length (h : selectFitClients S c r known registered = .ok (properties, clients)) :
    clients.selected.length = selectedCount c.virtualClients (onlineCount c.virtualClients r) := by
  have honline := online_length h
  obtain ⟨ids, hids, h⟩ := bind_eq_ok h
  cases h
  dsimp only at honline ⊢
  rw [← honline]
  split_ifs with hnone
  · rw [hnone]
    exact (Nat.zero_min _).symm
  · rw [(sortedBy_perm _ _).length_eq]
    exact S.choice_length _ _ _ (selectedCount_le _ _)

theorem onlineCount_add (p : ClientPopulation) (r : ℤ) : onlineCount p r + p.offlineCount r = p.total.toNat := by
  have hlen := List.length_eq_countP_add_countP (l := List.range p.total.toNat) (p.offlineIn r ·)
  have hnot : (fun cid ↦ !p.offlineIn r cid) = fun cid ↦ decide ¬p.offlineIn r cid = true := by
    funext cid
    cases p.offlineIn r cid <;> rfl
  rw [List.length_range] at hlen
  rw [hlen, onlineCount, ClientPopulation.offlineCount, hnot, Nat.add_comm]

end Online

/-! ### The bound -/

section Bound

variable {c : VirtualConfig} {r : ℤ}

theorem foldl_max_spec (l : List ℤ) (z : ℤ) : (∀ x ∈ z :: l, x ≤ l.foldl max z) ∧ l.foldl max z ∈ z :: l := by
  induction l generalizing z with
  | nil => exact ⟨fun x hx ↦ (List.mem_singleton.mp hx).le, List.mem_cons_self⟩
  | cons y l ih =>
    obtain ⟨hle, hmem⟩ := ih (max z y)
    rw [List.foldl_cons]
    have hfirst := hle (max z y) List.mem_cons_self
    constructor
    · intro x hx
      obtain rfl | rfl | hx := List.mem_cons.mp hx |>.imp_right List.mem_cons.mp
      · exact (le_max_left _ _).trans hfirst
      · exact (le_max_right _ _).trans hfirst
      · exact hle x (List.mem_cons_of_mem _ hx)
    · obtain he | hmem := List.mem_cons.mp hmem
      · rw [he]
        obtain hz | hy := max_choice z y
        · rw [hz]
          exact List.mem_cons_self
        · rw [hy]
          exact List.mem_cons_of_mem _ List.mem_cons_self
      · exact List.mem_cons_of_mem _ (List.mem_cons_of_mem _ hmem)

/-- Nobody is offline in a round that no client lists. -/
theorem onlineCount_of_not_mem {p : ClientPopulation} (h : r ∉ p.offlineRounds.values.flatten) :
    onlineCount p r = p.total.toNat := by
  have hnone : ∀ cid, p.offlineIn r cid = false := by
    intro cid
    refine decide_eq_false fun hr ↦ h ?_
    cases hget : p.offlineRounds.get? (.str (toString cid)) with
    | none =>
      rw [hget] at hr
      cases hr
    | some rounds =>
      rw [hget] at hr
      exact List.mem_flatten.mpr ⟨rounds, (p.offlineRounds.mem_values_iff).mpr ⟨_, hget⟩, hr⟩
  have hall := onlineCount_add p r
  have hzero : p.offlineCount r = 0 := List.countP_eq_zero.mpr fun cid _ ↦ by
    rw [hnone cid]
    exact Bool.false_ne_true
  omega

theorem mem_roundRange {rounds : ℤ} : r ∈ ClientPopulation.roundRange rounds ↔ 1 ≤ r ∧ r ≤ rounds := by
  rw [ClientPopulation.roundRange, List.mem_map]
  constructor
  · rintro ⟨n, hn, rfl⟩
    rw [List.mem_range] at hn
    omega
  · intro h
    refine ⟨(r - 1).toNat, List.mem_range.mpr ?_, ?_⟩
    · omega
    · omega

/-- `online_max` is the largest number of clients that are online in a round. -/
theorem onlineMax_ok (ht : 0 ≤ c.virtualClients.total) (hr : 1 ≤ c.rounds) :
    ∃ online : ℕ, c.virtualClients.onlineMax c.rounds = .ok (online : ℤ) ∧
      (∀ r, 1 ≤ r → r ≤ c.rounds → onlineCount c.virtualClients r ≤ online) ∧
      ∃ r, 1 ≤ r ∧ r ≤ c.rounds ∧ onlineCount c.virtualClients r = online := by
  have hle : ∀ r, onlineCount c.virtualClients r ≤ c.virtualClients.total.toNat := fun r ↦
    Nat.le.intro (onlineCount_add c.virtualClients r)
  have hall : ∀ r, 1 ≤ r → r ≤ c.rounds → r ∉ c.virtualClients.offlineRounds.values.flatten →
      ∃ online : ℕ, Except.ok c.virtualClients.total = (.ok (online : ℤ) : Except PyError ℤ) ∧
        (∀ r, 1 ≤ r → r ≤ c.rounds → onlineCount c.virtualClients r ≤ online) ∧
        ∃ r, 1 ≤ r ∧ r ≤ c.rounds ∧ onlineCount c.virtualClients r = online := fun r h1 h2 hnot ↦
    ⟨c.virtualClients.total.toNat, by rw [Int.toNat_of_nonneg ht], fun r _ _ ↦ hle r, r, h1, h2,
      onlineCount_of_not_mem hnot⟩
  have honline : ∀ r, c.virtualClients.total - (c.virtualClients.offlineCount r : ℤ) =
      (onlineCount c.virtualClients r : ℤ) := by
    intro r
    have hadd := onlineCount_add c.virtualClients r
    omega
  rw [ClientPopulation.onlineMax]
  split_ifs with hempty hany
  · refine hall 1 le_rfl hr ?_
    rw [Dict.values, hempty]
    exact List.not_mem_nil
  · obtain ⟨r, hmem, hnot⟩ := List.any_eq_true.mp hany
    obtain ⟨h1, h2⟩ := mem_roundRange.mp hmem
    exact hall r h1 h2 (of_decide_eq_true hnot)
  · simp only [honline]
    cases hrange : ClientPopulation.roundRange c.rounds with
    | nil => exact absurd (mem_roundRange.mpr ⟨le_rfl, hr⟩) (hrange ▸ List.not_mem_nil)
    | cons r rest =>
      obtain ⟨hmax, hmem⟩ := foldl_max_spec (rest.map fun r ↦ (onlineCount c.virtualClients r : ℤ))
        (onlineCount c.virtualClients r)
      rw [← List.map_cons (f := fun r ↦ (onlineCount c.virtualClients r : ℤ)), ← hrange] at hmax hmem
      obtain ⟨best, hbest, he⟩ := List.mem_map.mp hmem
      obtain ⟨h1, h2⟩ := mem_roundRange.mp hbest
      refine ⟨onlineCount c.virtualClients best, congrArg Except.ok he.symm, fun r h1 h2 ↦ ?_, best, h1, h2, rfl⟩
      have hle := hmax _ (List.mem_map_of_mem (mem_roundRange.mpr ⟨h1, h2⟩))
      rw [← he] at hle
      exact Int.ofNat_le.mp hle

theorem fraction_of_postInit {p : ClientPopulation} (h : p.postInit = .ok ()) :
    1 ≤ p.total ∧ 0 < p.participationFraction.value ∧ p.participationFraction.value ≤ 1 := by
  obtain ⟨_, -, h⟩ := bind_eq_ok h
  obtain ⟨_, -, h⟩ := bind_eq_ok h
  obtain ⟨_, hfraction, -⟩ := bind_eq_ok h
  obtain ⟨ht, habove, hatMost⟩ := of_require hfraction
  refine ⟨ht, ?_⟩
  cases hf : p.participationFraction with
  | finite q =>
    rw [hf] at habove hatMost
    simp only [Number.atMost, Number.below, Number.finite.injEq, Bool.or_eq_true, decide_eq_true_eq] at hatMost
    exact ⟨of_decide_eq_true habove, hatMost.elim le_of_lt le_of_eq⟩
  | inf negative =>
    rw [hf] at habove hatMost
    cases negative with
    | true => cases habove
    | false => cases hatMost
  | nan =>
    rw [hf] at habove
    cases habove

/-- What is checked of the fields besides the resources. -/
structure Checked (c : VirtualConfig) : Prop where
  population : c.virtualClients.postInit = .ok ()
  rounds : 1 ≤ c.rounds
  profiles : c.profiles.entries ≠ []
  assignments : ∀ entry ∈ c.clientProfiles.entries, c.checkAssignment entry.1 entry.2 = .ok ()

theorem checked_of_postInit {host : Host} {f : VirtualConfig} (h : f.postInit host = .ok c)
    (hp : f.virtualClients.postInit = .ok ()) : Checked c := by
  obtain ⟨resources, -, h⟩ := bind_eq_ok h
  obtain ⟨_, hrounds, h⟩ := bind_eq_ok h
  obtain ⟨_, -, h⟩ := bind_eq_ok h
  obtain ⟨_, -, h⟩ := bind_eq_ok h
  obtain ⟨_, -, h⟩ := bind_eq_ok h
  obtain ⟨_, -, h⟩ := bind_eq_ok h
  obtain ⟨_, -, h⟩ := bind_eq_ok h
  obtain ⟨_, -, h⟩ := bind_eq_ok h
  obtain ⟨_, hprofiles, h⟩ := bind_eq_ok h
  obtain ⟨_, hassignments, h⟩ := bind_eq_ok h
  obtain ⟨_, -, h⟩ := bind_eq_ok h
  obtain ⟨_, -, h⟩ := bind_eq_ok h
  cases h
  exact ⟨hp, of_require hrounds, of_require hprofiles, forM_eq_ok_iff.mp hassignments⟩

theorem Accepted.checked (h : Accepted c) : Checked c := by
  cases h with
  | construct host f h =>
    obtain ⟨_, hp, h⟩ := bind_eq_ok h
    obtain ⟨_, -, h⟩ := bind_eq_ok h
    obtain ⟨_, -, h⟩ := bind_eq_ok h
    obtain ⟨_, -, h⟩ := bind_eq_ok h
    obtain ⟨_, -, h⟩ := bind_eq_ok h
    obtain ⟨_, -, h⟩ := bind_eq_ok h
    obtain ⟨_, -, h⟩ := bind_eq_ok h
    exact checked_of_postInit h hp
  | fromDict host v h =>
    obtain ⟨_, hp, h⟩ := bind_eq_ok h
    obtain ⟨_, -, h⟩ := bind_eq_ok h
    obtain ⟨_, -, h⟩ := bind_eq_ok h
    obtain ⟨_, -, h⟩ := bind_eq_ok h
    obtain ⟨_, -, h⟩ := bind_eq_ok h
    obtain ⟨_, -, h⟩ := bind_eq_ok h
    obtain ⟨_, -, h⟩ := bind_eq_ok h
    obtain ⟨_, -, h⟩ := bind_eq_ok h
    obtain ⟨config, hconfig, h⟩ := bind_eq_ok h
    cases h
    -- the recorded admission is put back, which no other field reads
    obtain ⟨hp, hrounds, hprofiles, hassignments⟩ := checked_of_postInit hconfig hp
    exact ⟨hp, hrounds, hprofiles, hassignments⟩

/-! ### The law -/

/-- The bound, for rounds with so many clients online at most. -/
theorem selectedCount_le_bound {p : ClientPopulation} (h : p.postInit = .ok ()) {online most : ℕ} (hle : online ≤ most)
    (hmost : (most : ℤ) ≤ p.total) :
    (selectedCount p online : ℤ) ≤ min p.total (max 1 ⌈(most : ℚ) * p.participationFraction.value⌉) := by
  obtain ⟨-, hpos, -⟩ := fraction_of_postInit h
  have hceil : ⌈(online : ℚ) * p.participationFraction.value⌉ ≤ ⌈(most : ℚ) * p.participationFraction.value⌉ :=
    Int.ceil_mono (mul_le_mul_of_nonneg_right (Nat.cast_le.mpr hle) hpos.le)
  have honline : (selectedCount p online : ℤ) ≤ online := Int.ofNat_le.mpr (selectedCount_le p online)
  have hcount : (selectedCount p online : ℤ) ≤ max 1 ⌈(online : ℚ) * p.participationFraction.value⌉ := by
    rw [selectedCount]
    omega
  omega

theorem selectedCount_eq_bound {p : ClientPopulation} (h : p.postInit = .ok ()) {most : ℕ} (hpos : 1 ≤ most)
    (hmost : (most : ℤ) ≤ p.total) :
    (selectedCount p most : ℤ) = min p.total (max 1 ⌈(most : ℚ) * p.participationFraction.value⌉) := by
  obtain ⟨-, -, hone⟩ := fraction_of_postInit h
  have hceil : ⌈(most : ℚ) * p.participationFraction.value⌉ ≤ (most : ℤ) :=
    Int.ceil_le.mpr (mul_le_of_le_one_right (Nat.cast_nonneg most) hone)
  rw [selectedCount]
  omega

/-- No round selects more clients than `max_single_round_participants` says, and one round selects as many, unless
everybody is offline in every round. -/
theorem participation_bound_exact (S : Selection) (c : VirtualConfig) (h : Accepted c) :
    ∃ bound, c.maxSingleRoundParticipants = .ok bound ∧
      (∀ r, 1 ≤ r → r ≤ c.rounds → ∀ known registered properties clients,
        selectFitClients S c r known registered = .ok (properties, clients) →
          (clients.selected.length : ℤ) ≤ bound) ∧
      ((∀ r, 1 ≤ r → r ≤ c.rounds → ∀ cid < c.virtualClients.total.toNat, c.virtualClients.offlineIn r cid = true) ∨
        ∃ r, 1 ≤ r ∧ r ≤ c.rounds ∧ ∀ known registered properties,
          identifyClients c.virtualClients.total known registered = .ok properties →
            ∃ clients, selectFitClients S c r known registered = .ok (properties, clients) ∧
              (clients.selected.length : ℤ) = bound) := by
  obtain ⟨hp, hrounds, -, -⟩ := h.checked
  obtain ⟨ht, -, -⟩ := fraction_of_postInit hp
  obtain ⟨most, honline, hmax, best, hbest1, hbest2, hbest⟩ := onlineMax_ok (by omega) hrounds
  have hmost : (most : ℤ) ≤ c.virtualClients.total := by
    have hadd := onlineCount_add c.virtualClients best
    omega
  refine ⟨_, by rw [Fields.maxSingleRoundParticipants, honline]; rfl, fun r h1 h2 known registered properties clients
    hselect ↦ ?_, ?_⟩
  · rw [selected_length hselect]
    exact selectedCount_le_bound hp (hmax r h1 h2) hmost
  · obtain rfl | hpos := Nat.eq_zero_or_pos most
    · refine .inl fun r h1 h2 cid hcid ↦ ?_
      have hzero : onlineCount c.virtualClients r = 0 := Nat.le_zero.mp (hmax r h1 h2)
      have hoffline := List.countP_eq_zero.mp hzero cid (List.mem_range.mpr hcid)
      simpa using hoffline
    · refine .inr ⟨best, hbest1, hbest2, fun known registered properties hids ↦ ?_⟩
      have hselect : ∃ clients, selectFitClients S c best known registered = .ok (properties, clients) := by
        rw [selectFitClients, hids]
        exact ⟨_, rfl⟩
      obtain ⟨clients, hselect⟩ := hselect
      refine ⟨clients, hselect, ?_⟩
      rw [selected_length hselect, hbest]
      exact selectedCount_eq_bound hp hpos hmost

/-- A machine with four CPUs. -/
def fourCpus : Host where
  available := 4
  memAvailableMb := none
  ipAddress _ := none
  available_pos := by decide

/-- The first of the items. -/
def firstItems : Selection where
  choice _ l n := l.take n
  choice_length _ _ _ h := List.length_take_of_le h
  choice_subperm _ _ _ _ := (List.take_sublist _ _).subperm

/-- Four clients in two rounds, of which two are offline in the first and one in the second. -/
def offlineInTurn : VirtualConfig where
  virtualClients :=
    { total := 4, participationFraction := .finite (1 / 2),
      offlineRounds := .ofList [(.str "0", [1, 1]), (.str "1", [1]), (.str "3", [2])] }
  profiles := .ofList [("cpu", {})]

theorem offline_in_turn_bound : ∃ c bound, Fields.construct fourCpus offlineInTurn = .ok c ∧
    c.maxSingleRoundParticipants = .ok bound ∧ ∀ r, 1 ≤ r → r ≤ c.rounds → ∀ known registered properties clients,
      selectFitClients firstItems c r known registered = .ok (properties, clients) →
        (clients.selected.length : ℤ) ≤ bound := by
  have hsome : (Fields.construct fourCpus offlineInTurn).toOption.isSome = true := by decide +kernel
  obtain ⟨c, hc⟩ : ∃ c, Fields.construct fourCpus offlineInTurn = .ok c := by
    cases h : Fields.construct fourCpus offlineInTurn with
    | ok c => exact ⟨c, rfl⟩
    | error e =>
      rw [h] at hsome
      cases hsome
  obtain ⟨bound, hbound, hle, -⟩ := participation_bound_exact firstItems c (.construct fourCpus offlineInTurn hc)
  exact ⟨c, bound, hc, hbound, hle⟩

example : (offlineInTurn.maxSingleRoundParticipants).toOption = some 2 := by decide +kernel

end Bound

end SplitFleet.Virtual
