import SplitFleet.ParticipationBound

set_option autoImplicit false

namespace SplitFleet.Virtual

open Lib

/-- `str(p)`, the key under which the schedules of a client are looked up. -/
def canonicalKey (p : ℕ) : Key := .str (toString p)

/-- `int(key) = p` -/
def Denotes (key : Key) (p : ℕ) : Prop := key.toInt = .ok (p : ℤ)

/-- Some key that denotes the client lists the round. -/
def Listed (c : VirtualConfig) (p : ℕ) (r : ℤ) : Prop :=
  ∃ key rounds, c.virtualClients.offlineRounds.get? key = some rounds ∧ Denotes key p ∧ r ∈ rounds

/-- Some key that denotes the client assigns it the profile. -/
def Assigned (c : VirtualConfig) (p : ℕ) (profile : Profile) : Prop :=
  ∃ key name, c.clientProfiles.get? key = some name ∧ Denotes key p ∧ c.profiles.get? name = some profile

open Classical in
/-- The number of clients that no key takes offline. -/
noncomputable def listedOnline (c : VirtualConfig) (r : ℤ) : ℕ :=
  (List.range c.virtualClients.total.toNat).countP fun p ↦ ¬ Listed c p r

/-- The schedules hold as they are written. -/
structure Honoured (c : VirtualConfig) : Prop where
  lookup : ∀ p < c.virtualClients.total.toNat, ∀ r, c.virtualClients.offlineIn r p = true ↔ Listed c p r
  selection : ∀ (S : Selection) r known registered properties clients,
    selectFitClients S c r known registered = .ok (properties, clients) →
      ∀ cid ∈ registered.keys, cid ∉ clients.online ↔ Listed c (partitionOf properties cid) r
  planner : ∃ most : ℕ, (∀ r, 1 ≤ r → r ≤ c.rounds → listedOnline c r ≤ most) ∧
    (∃ r, 1 ≤ r ∧ r ≤ c.rounds ∧ listedOnline c r = most) ∧ c.maxSingleRoundParticipants =
      .ok (min c.virtualClients.total (max 1 ⌈(most : ℚ) * c.virtualClients.participationFraction.value⌉))
  profile : ∀ p < c.virtualClients.total.toNat, (∃ key ∈ c.clientProfiles.keys, Denotes key p) →
    ∃ profile, c.profile p = .ok profile ∧ Assigned c p profile

/-- A key in another spelling says nothing that the lookup under `str(p)` does not find as well. -/
structure Canonical (c : VirtualConfig) : Prop where
  offline : ∀ key rounds p, c.virtualClients.offlineRounds.get? key = some rounds → Denotes key p → ∀ r ∈ rounds,
    r ∈ (c.virtualClients.offlineRounds.get? (canonicalKey p)).getD []
  profiles : ∀ key p, key ∈ c.clientProfiles.keys → Denotes key p →
    canonicalKey p ∈ c.clientProfiles.keys ∨ ∃ first ∈ c.profiles.keys.head?, ∃ other name,
      c.clientProfiles.get? other = some name ∧ Denotes other p ∧ c.profiles.get? name = c.profiles.get? first

section Keys

variable {c : VirtualConfig} {key : Key} {p : ℕ} {r : ℤ}

/-- The canonical key denotes its client, where `int` reads it at all. -/
theorem denotes_canonicalKey {z : ℤ} (h : (canonicalKey p).toInt = .ok z) : Denotes (canonicalKey p) p := by
  have htext : (canonicalKey p).toInt =
      if maxStrDigits < (toString p).length then .error tooManyDigits else .ok (p : ℤ) := intOfText_toString p
  rw [htext] at h
  rw [Denotes, htext]
  split_ifs at h with hlong
  rw [if_neg hlong]

theorem toInt_of_checkSchedule {total : ℤ} {rounds : List ℤ}
    (h : ClientPopulation.checkSchedule total key rounds = .ok ()) : ∃ z, key.toInt = .ok z ∧ z < total := by
  obtain ⟨_, -, h⟩ := bind_eq_ok h
  obtain ⟨_, -, h⟩ := bind_eq_ok h
  obtain ⟨z, hz, h⟩ := bind_eq_ok h
  obtain ⟨_, hrange, -⟩ := bind_eq_ok h
  exact ⟨z, hz, (of_require hrange).2⟩

theorem checkSchedule_of_postInit {population : ClientPopulation} (h : population.postInit = .ok ()) :
    ∀ entry ∈ population.offlineRounds.entries,
      ClientPopulation.checkSchedule population.total entry.1 entry.2 = .ok () := by
  obtain ⟨_, -, h⟩ := bind_eq_ok h
  obtain ⟨_, -, h⟩ := bind_eq_ok h
  obtain ⟨_, -, h⟩ := bind_eq_ok h
  obtain ⟨_, -, h⟩ := bind_eq_ok h
  obtain ⟨_, -, h⟩ := bind_eq_ok h
  obtain ⟨_, hoffline, -⟩ := bind_eq_ok h
  exact forM_eq_ok_iff.mp hoffline

theorem of_checkAssignment {name : String} (h : c.checkAssignment key name = .ok ()) :
    name ∈ c.profiles.keys ∧ ∃ z, key.toInt = .ok z ∧ z < c.virtualClients.total := by
  obtain ⟨_, hname, h⟩ := bind_eq_ok h
  obtain ⟨_, -, h⟩ := bind_eq_ok h
  obtain ⟨_, -, h⟩ := bind_eq_ok h
  obtain ⟨z, hz, h⟩ := bind_eq_ok h
  exact ⟨of_require hname, z, hz, of_require h⟩

theorem lt_total {z total : ℤ} (h : key.toInt = .ok z) (hlt : z < total) (hp : Denotes key p) : p < total.toNat := by
  have heq : z = (p : ℤ) := Except.ok.inj (h.symm.trans hp)
  omega

end Keys

/-! ### The consumers -/

section Consumers

variable {c : VirtualConfig} {p : ℕ} {r : ℤ}

theorem offlineIn_iff {rounds : List ℤ} {population : ClientPopulation}
    (h : population.offlineRounds.get? (canonicalKey p) = some rounds) :
    population.offlineIn r p = true ↔ r ∈ rounds := by
  change population.offlineRounds.get? (.str (toString p)) = some rounds at h
  rw [ClientPopulation.offlineIn, h, Option.getD_some, decide_eq_true_eq]

theorem exists_of_offlineIn {population : ClientPopulation} (h : population.offlineIn r p = true) :
    ∃ rounds, population.offlineRounds.get? (canonicalKey p) = some rounds ∧ r ∈ rounds := by
  cases hget : population.offlineRounds.get? (canonicalKey p) with
  | some rounds => exact ⟨rounds, rfl, (offlineIn_iff hget).mp h⟩
  | none =>
    have hmem := of_decide_eq_true h
    change population.offlineRounds.get? (.str (toString p)) = none at hget
    rw [hget] at hmem
    cases hmem

/-- What is found under the canonical key is listed. -/
theorem Checked.listed_of_offlineIn (h : Checked c) (hoff : c.virtualClients.offlineIn r p = true) : Listed c p r := by
  obtain ⟨rounds, hget, hr⟩ := exists_of_offlineIn hoff
  have hcheck := checkSchedule_of_postInit h.population (canonicalKey p, rounds)
    ((c.virtualClients.offlineRounds.get?_eq_some_iff).mp hget)
  obtain ⟨z, hz, -⟩ := toInt_of_checkSchedule hcheck
  exact ⟨canonicalKey p, rounds, hget, denotes_canonicalKey hz, hr⟩

theorem Canonical.offlineIn_iff_listed (h : Checked c) (hcan : Canonical c) :
    c.virtualClients.offlineIn r p = true ↔ Listed c p r := by
  refine ⟨h.listed_of_offlineIn, fun hlisted ↦ ?_⟩
  obtain ⟨key, rounds, hget, hdenotes, hr⟩ := hlisted
  exact decide_eq_true (hcan.offline key rounds p hget hdenotes r hr)

/-- A client is left out of the selection exactly where the lookup finds the round. -/
theorem not_mem_online_iff {S : Selection} {known registered properties : Dict String ℕ} {clients : RoundClients}
    (h : selectFitClients S c r known registered = .ok (properties, clients)) {cid : String}
    (hcid : cid ∈ registered.keys) :
    cid ∉ clients.online ↔ c.virtualClients.offlineIn r (partitionOf properties cid) = true := by
  obtain ⟨ids, -, h⟩ := bind_eq_ok h
  cases h
  dsimp only
  rw [mem_sortedBy, List.mem_filter, not_and, Bool.not_eq_true', Bool.not_eq_false]
  exact forall_prop_of_true hcid

theorem partitionOf_lt {S : Selection} {known registered properties : Dict String ℕ} {clients : RoundClients}
    (h : selectFitClients S c r known registered = .ok (properties, clients)) {cid : String}
    (hcid : cid ∈ registered.keys) : partitionOf properties cid < c.virtualClients.total.toNat := by
  obtain ⟨ids, hids, h⟩ := bind_eq_ok h
  cases h
  exact List.mem_range.mp ((identify_perm hids).mem_iff.mp (List.mem_map_of_mem hcid))

open Classical in
/-- Where the lookups find what is listed, the planner counts the clients that no key takes offline. -/
theorem listedOnline_eq (h : ∀ p < c.virtualClients.total.toNat, c.virtualClients.offlineIn r p = true ↔ Listed c p r) :
    listedOnline c r = onlineCount c.virtualClients r := by
  refine List.countP_congr fun p hp ↦ ?_
  refine decide_eq_true_iff.trans ?_
  rw [← h p (List.mem_range.mp hp), Bool.not_eq_true', Bool.not_eq_true]

theorem Checked.planner (h : Checked c)
    (hlookup : ∀ p < c.virtualClients.total.toNat, ∀ r, c.virtualClients.offlineIn r p = true ↔ Listed c p r) :
    ∃ most : ℕ, (∀ r, 1 ≤ r → r ≤ c.rounds → listedOnline c r ≤ most) ∧
      (∃ r, 1 ≤ r ∧ r ≤ c.rounds ∧ listedOnline c r = most) ∧ c.maxSingleRoundParticipants =
        .ok (min c.virtualClients.total (max 1 ⌈(most : ℚ) * c.virtualClients.participationFraction.value⌉)) := by
  obtain ⟨ht, -, -⟩ := fraction_of_postInit h.population
  obtain ⟨most, honline, hmax, best, hbest1, hbest2, hbest⟩ := onlineMax_ok (by omega) h.rounds
  have hcount : ∀ r, listedOnline c r = onlineCount c.virtualClients r := fun r ↦
    listedOnline_eq fun p hp ↦ hlookup p hp r
  refine ⟨most, fun r h1 h2 ↦ ?_, ⟨best, hbest1, hbest2, ?_⟩, ?_⟩
  · rw [hcount]
    exact hmax r h1 h2
  · rw [hcount, hbest]
  · rw [Fields.maxSingleRoundParticipants, honline]
    rfl

/-- The profile that is looked up, where the canonical key is there. -/
theorem profile_of_canonical {name : String} {profile : Profile} (hne : c.profiles.entries ≠ [])
    (hget : c.clientProfiles.get? (canonicalKey p) = some name) (hprofile : c.profiles.get? name = some profile) :
    c.profile p = .ok profile := by
  change c.clientProfiles.get? (.str (toString p)) = some name at hget
  rw [Fields.profile]
  split
  · rename_i hnil
    exact absurd (List.map_eq_nil_iff.mp hnil) hne
  · rw [hget]
    dsimp only [Option.getD_some]
    rw [hprofile]

/-- The profile that is looked up, where it is not: the first one. -/
theorem profile_of_missing {first : String} {profile : Profile} (hfirst : first ∈ c.profiles.keys.head?)
    (hget : c.clientProfiles.get? (canonicalKey p) = none) :
    c.profile p = .ok profile ↔ c.profiles.get? first = some profile := by
  change c.clientProfiles.get? (.str (toString p)) = none at hget
  rw [Fields.profile]
  cases hkeys : c.profiles.keys with
  | nil =>
    rw [hkeys] at hfirst
    cases hfirst
  | cons name rest =>
    rw [hkeys] at hfirst
    cases hfirst
    rw [hget]
    dsimp only [Option.getD_none]
    cases c.profiles.get? first with
    | none => exact iff_of_false nofun nofun
    | some other => exact ⟨fun h ↦ congrArg some (Except.ok.inj h), fun h ↦ congrArg Except.ok (Option.some.inj h)⟩

theorem Checked.exists_first (h : Checked c) : ∃ first profile, first ∈ c.profiles.keys.head? ∧
    c.profiles.get? first = some profile := by
  obtain ⟨⟨first, profile⟩, rest, hentries⟩ := List.exists_cons_of_ne_nil h.profiles
  refine ⟨first, profile, ?_, (c.profiles.get?_eq_some_iff).mpr (hentries ▸ List.mem_cons_self)⟩
  rw [Dict.keys, hentries]
  rfl

/-- An assignment that has passed the check. -/
theorem Checked.assignment (h : Checked c) {key : Key} {name : String} (hget : c.clientProfiles.get? key = some name) :
    (∃ profile, c.profiles.get? name = some profile) ∧ ∃ z, key.toInt = .ok z ∧ z < c.virtualClients.total := by
  obtain ⟨hname, hz⟩ := of_checkAssignment (h.assignments (key, name) ((c.clientProfiles.get?_eq_some_iff).mp hget))
  exact ⟨(c.profiles.mem_keys_iff).mp hname, hz⟩

theorem Canonical.assigned (h : Checked c) (hcan : Canonical c) (hkey : ∃ key ∈ c.clientProfiles.keys, Denotes key p) :
    ∃ profile, c.profile p = .ok profile ∧ Assigned c p profile := by
  obtain ⟨key, hkey, hdenotes⟩ := hkey
  cases hcanonical : c.clientProfiles.get? (canonicalKey p) with
  | some name =>
    obtain ⟨⟨profile, hprofile⟩, z, hz, -⟩ := h.assignment hcanonical
    exact ⟨profile, profile_of_canonical h.profiles hcanonical hprofile, canonicalKey p, name, hcanonical,
      denotes_canonicalKey hz, hprofile⟩
  | none =>
    obtain hmem | ⟨first, hfirst, other, name, hget, hother, hsame⟩ := hcan.profiles key p hkey hdenotes
    · exact absurd hmem ((c.clientProfiles.get?_eq_none_iff).mp hcanonical)
    · obtain ⟨⟨profile, hprofile⟩, -⟩ := h.assignment hget
      exact ⟨profile, (profile_of_missing hfirst hcanonical).mpr (hsame ▸ hprofile), other, name, hget, hother,
        hprofile⟩

end Consumers

/-! ### Canonical keys -/

theorem denotes_canonicalKey_inj {p q : ℕ} (h : Denotes (canonicalKey q) p) : q = p := by
  have hq : Denotes (canonicalKey q) q := denotes_canonicalKey h
  have heq : (q : ℤ) = (p : ℤ) := Except.ok.inj (Eq.trans (Eq.symm hq) h)
  exact Int.ofNat_inj.mp heq

/-- Keys that are all written as `str` writes them. -/
theorem canonical_of_keys {c : VirtualConfig}
    (ho : ∀ key ∈ c.virtualClients.offlineRounds.keys, ∃ q, key = canonicalKey q)
    (hp : ∀ key ∈ c.clientProfiles.keys, ∃ q, key = canonicalKey q) : Canonical c where
  offline key rounds p hget hdenotes r hr := by
    obtain ⟨q, rfl⟩ := ho key ((c.virtualClients.offlineRounds.mem_keys_iff).mpr ⟨rounds, hget⟩)
    rw [← denotes_canonicalKey_inj hdenotes, hget]
    exact hr
  profiles key p hkey hdenotes := by
    obtain ⟨q, rfl⟩ := hp key hkey
    rw [← denotes_canonicalKey_inj hdenotes]
    exact .inl hkey

/-- The schedules hold as they are written if and only if every spelling agrees with the canonical key. -/
theorem schedules_honoured_iff (c : VirtualConfig) (h : Accepted c) : Honoured c ↔ Canonical c := by
  have h := h.checked
  constructor
  · intro hon
    constructor
    · intro key rounds p hget hdenotes r hr
      obtain ⟨z, hz, hlt⟩ := toInt_of_checkSchedule (checkSchedule_of_postInit h.population (key, rounds)
        ((c.virtualClients.offlineRounds.get?_eq_some_iff).mp hget))
      have hoff := (hon.lookup p (lt_total hz hlt hdenotes) r).mpr ⟨key, rounds, hget, hdenotes, hr⟩
      exact of_decide_eq_true hoff
    · intro key p hkey hdenotes
      obtain ⟨name, hget⟩ := (c.clientProfiles.mem_keys_iff).mp hkey
      obtain ⟨-, z, hz, hlt⟩ := h.assignment hget
      obtain ⟨profile, hprofile, other, name', hget', hother, hsame⟩ :=
        hon.profile p (lt_total hz hlt hdenotes) ⟨key, hkey, hdenotes⟩
      by_cases hcanonical : canonicalKey p ∈ c.clientProfiles.keys
      · exact .inl hcanonical
      · obtain ⟨first, -, hfirst, -⟩ := h.exists_first
        have hlooked := (profile_of_missing hfirst ((c.clientProfiles.get?_eq_none_iff).mpr hcanonical)).mp hprofile
        exact .inr ⟨first, hfirst, other, name', hget', hother, hsame.trans hlooked.symm⟩
  · intro hcan
    have hlookup : ∀ p < c.virtualClients.total.toNat, ∀ r, c.virtualClients.offlineIn r p = true ↔ Listed c p r :=
      fun p _ r ↦ hcan.offlineIn_iff_listed h
    exact {
      lookup := hlookup
      selection := fun S r known registered properties clients hselect cid hcid ↦
        (not_mem_online_iff hselect hcid).trans (hlookup _ (partitionOf_lt hselect hcid) r)
      planner := h.planner hlookup
      profile := fun p _ hkey ↦ hcan.assigned h hkey }

theorem exists_of_map_toOption {ε α β : Type} {x : Except ε α} {f : α → β} {b : β} (h : x.toOption.map f = some b) :
    ∃ a, x = .ok a ∧ f a = b := by
  cases x with
  | error e => cases h
  | ok a => exact ⟨a, rfl, Option.some.inj h⟩

theorem offline_in_turn_honoured : ∃ c, Fields.construct fourCpus offlineInTurn = .ok c ∧ Honoured c := by
  have hkeys : (Fields.construct fourCpus offlineInTurn).toOption.map (fun c ↦
      (c.virtualClients.offlineRounds.keys, c.clientProfiles.keys)) =
        some ([canonicalKey 0, canonicalKey 1, canonicalKey 3], []) := by decide +kernel
  obtain ⟨c, hc, hkeys⟩ := exists_of_map_toOption hkeys
  obtain ⟨ho, hp⟩ := Prod.ext_iff.mp hkeys
  refine ⟨c, hc, (schedules_honoured_iff c (.construct fourCpus offlineInTurn hc)).mpr (canonical_of_keys ?_ ?_)⟩
  · intro key hkey
    dsimp only at ho
    rw [ho] at hkey
    simp only [List.mem_cons, List.not_mem_nil, or_false] at hkey
    obtain rfl | rfl | rfl := hkey
    · exact ⟨0, rfl⟩
    · exact ⟨1, rfl⟩
    · exact ⟨3, rfl⟩
  · intro key hkey
    dsimp only at hp
    rw [hp] at hkey
    cases hkey

/-- The client `1` is offline in the round `1`, and has the profile `slow`. -/
def otherSpellings : Input where
  virtualClients := { total := 2, offlineRounds := .ofList [(.int 1, [1])] }
  profiles := .ofList [(.str "cpu", {}), (.str "slow", { torchThreads := 2 })]
  clientProfiles := .ofList [(.str "01", "slow")]

/-- Both clients have registered. -/
def twoClients : Dict String ℕ := .ofList [("a", 0), ("b", 1)]

theorem other_spellings_ignored : ∃ c, fromDict fourCpus otherSpellings = .ok c ∧ Listed c 1 1 ∧
    (∃ properties clients, selectFitClients firstItems c 1 .empty twoClients = .ok (properties, clients) ∧
      clients.selected = ["a", "b"]) ∧ c.maxSingleRoundParticipants = .ok 2 ∧
    Assigned c 1 { torchThreads := 2 } ∧ c.profile 1 = .ok {} ∧ ¬ Honoured c := by
  have hread : (fromDict fourCpus otherSpellings).toOption.map (fun c ↦ decide (
      c.virtualClients.offlineRounds.get? (.int 1) = some [1] ∧ c.virtualClients.offlineIn 1 1 = false ∧
        c.virtualClients.total = 2 ∧
        (selectFitClients firstItems c 1 .empty twoClients).toOption.map (·.2.selected) = some ["a", "b"] ∧
        c.maxSingleRoundParticipants = .ok 2 ∧ c.clientProfiles.get? (.str "01") = some "slow" ∧
        c.profiles.get? "slow" = some { torchThreads := 2 } ∧ c.profile 1 = .ok {})) = some true := by decide +kernel
  obtain ⟨c, hc, hread⟩ := exists_of_map_toOption hread
  obtain ⟨hoffline, hlookup, htotal, hselected, hmax, hassigned, hslow, hprofile⟩ := of_decide_eq_true hread
  have hlisted : Listed c 1 1 := ⟨.int 1, [1], hoffline, rfl, List.mem_cons_self⟩
  have hdenotes : Denotes (.str "01") 1 := by rfl
  obtain ⟨⟨properties, clients⟩, hselect, hselected⟩ := exists_of_map_toOption hselected
  refine ⟨c, hc, hlisted, ⟨properties, clients, hselect, hselected⟩, hmax,
    ⟨.str "01", "slow", hassigned, hdenotes, hslow⟩, hprofile, fun hon ↦ ?_⟩
  have hone : 1 < c.virtualClients.total.toNat := by
    rw [htotal]
    decide
  have hoff := (hon.lookup 1 hone 1).mpr hlisted
  rw [hlookup] at hoff
  cases hoff

end SplitFleet.Virtual
