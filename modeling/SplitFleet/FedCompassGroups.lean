import SplitFleet.FedCompass

set_option autoImplicit false

namespace SplitFleet.Compass

open Lib

variable {T : Type}

/-- What a group that is not there counts as. -/
def vacant : ArrivalGroup T := ⟨0, 0, [], [], true⟩

def FedCompass.groupAt (s : FedCompass T) (gid : ℕ) : ArrivalGroup T := (s.groups.get? gid).getD vacant

/-- An assignment in flight. -/
structure Job (s : FedCompass T) (now : ℚ) (c : String) (job : Assignment) : Prop where
  client : job.clientId = c
  known : c ∈ s.partitionSizes.keys
  low : s.config.minLocalSteps ≤ job.localSteps
  high : job.localSteps ≤ s.config.maxLocalSteps
  started : job.started ≤ now
  version : job.modelVersion ≤ s.version
  speed : ∀ gid, job.groupId = some gid → ∃ v, s.speeds.get? c = some v

/-- Where the clients are. The ones in `loose` are neither in flight nor waiting. -/
structure Placed (loose : List String) (now : ℚ) (s : FedCompass T) : Prop where
  speed_pos : ∀ c v, s.speeds.get? c = some v → 0 < v
  loose_nodup : loose.Nodup
  loose_known : ∀ c ∈ loose, c ∈ s.partitionSizes.keys
  loose_active : ∀ c ∈ loose, s.active.get? c = none
  job : ∀ c job, s.active.get? c = some job → Job s now c job
  pending : ∀ gid c, c ∈ (s.groupAt gid).pending ↔ ∃ job, s.active.get? c = some job ∧ job.groupId = some gid
  pending_nodup : ∀ gid, (s.groupAt gid).pending.Nodup
  arrived_known : ∀ gid, ∀ u ∈ (s.groupAt gid).arrived, u.clientId ∈ s.partitionSizes.keys
  arrived_active : ∀ gid, ∀ u ∈ (s.groupAt gid).arrived, s.active.get? u.clientId = none
  arrived_loose : ∀ gid, ∀ u ∈ (s.groupAt gid).arrived, u.clientId ∉ loose
  arrived_speed : ∀ gid, ∀ u ∈ (s.groupAt gid).arrived, ∃ v, s.speeds.get? u.clientId = some v
  arrived_nodup : ∀ gid, ((s.groupAt gid).arrived.map (·.clientId)).Nodup
  arrived_once : ∀ gid gid', ∀ u ∈ (s.groupAt gid).arrived, ∀ u' ∈ (s.groupAt gid').arrived,
    u.clientId = u'.clientId → gid = gid'
  closed : ∀ gid, (s.groupAt gid).closed = true → (s.groupAt gid).arrived = []
  everyone : ∀ c ∈ s.partitionSizes.keys, c ∈ loose ∨ (∃ job, s.active.get? c = some job) ∨
    ∃ gid, ∃ u ∈ (s.groupAt gid).arrived, u.clientId = c
  fresh : ∀ gid g, s.groups.get? gid = some g → gid < s.groupCounter
  early : s.version = 0 → ∀ gid, s.groups.get? gid = none

/-- An open group without members is past its deadline. -/
def Alive (now : ℚ) (s : FedCompass T) : Prop :=
  ∀ gid, (s.groupAt gid).closed = false → (s.groupAt gid).members = [] → (s.groupAt gid).deadline < now

/-- A step that moves no client. -/
structure SameSchedule (s t : FedCompass T) : Prop where
  config : t.config = s.config
  partitionSizes : t.partitionSizes = s.partitionSizes
  speeds : ∀ c, t.speeds.get? c = s.speeds.get? c
  active : ∀ c, t.active.get? c = s.active.get? c
  groups : ∀ gid, t.groups.get? gid = s.groups.get? gid
  groupCounter : t.groupCounter = s.groupCounter
  version : s.version ≤ t.version

section Basic

variable {s t : FedCompass T} {loose : List String} {now : ℚ} {gid : ℕ} {g : ArrivalGroup T} {c : String}

theorem groupAt_of_some (h : s.groups.get? gid = some g) : s.groupAt gid = g := by
  rw [FedCompass.groupAt, h, Option.getD_some]

theorem groupAt_of_none (h : s.groups.get? gid = none) : s.groupAt gid = vacant := by
  rw [FedCompass.groupAt, h, Option.getD_none]

theorem groupAt_insert (gid : ℕ) (g : ArrivalGroup T) (h : t.groups = s.groups.insert gid g) (k : ℕ) :
    t.groupAt k = if gid = k then g else s.groupAt k := by
  rw [FedCompass.groupAt, FedCompass.groupAt, h, Dict.get?_insert]
  split_ifs <;> rfl

theorem exists_group_of_open (h : (s.groupAt gid).closed = false) : s.groups.get? gid = some (s.groupAt gid) := by
  cases hg : s.groups.get? gid with
  | none =>
    rw [groupAt_of_none hg] at h
    cases h
  | some g => rw [groupAt_of_some hg]

theorem SameSchedule.groupAt (h : SameSchedule s t) (k : ℕ) : t.groupAt k = s.groupAt k := by
  rw [FedCompass.groupAt, FedCompass.groupAt, h.groups]

theorem SameSchedule.refl (s : FedCompass T) : SameSchedule s s :=
  ⟨rfl, rfl, fun _ ↦ rfl, fun _ ↦ rfl, fun _ ↦ rfl, rfl, le_rfl⟩

theorem SameSchedule.trans {r : FedCompass T} (h : SameSchedule s t) (h' : SameSchedule t r) : SameSchedule s r where
  config := h'.config.trans h.config
  partitionSizes := h'.partitionSizes.trans h.partitionSizes
  speeds c := (h'.speeds c).trans (h.speeds c)
  active c := (h'.active c).trans (h.active c)
  groups gid := (h'.groups gid).trans (h.groups gid)
  groupCounter := h'.groupCounter.trans h.groupCounter
  version := h.version.trans h'.version

theorem Job.of_same {job : Assignment} (h : Job s now c job) (hs : SameSchedule s t) : Job t now c job where
  client := h.client
  known := hs.partitionSizes ▸ h.known
  low := hs.config ▸ h.low
  high := hs.config ▸ h.high
  started := h.started
  version := h.version.trans hs.version
  speed := by
    simp only [hs.speeds]
    exact h.speed

theorem Placed.of_same (h : Placed loose now s) (hs : SameSchedule s t) : Placed loose now t where
  speed_pos := by
    simp only [hs.speeds]
    exact h.speed_pos
  loose_nodup := h.loose_nodup
  loose_known := hs.partitionSizes ▸ h.loose_known
  loose_active := by
    simp only [hs.active]
    exact h.loose_active
  job c job hj := (h.job c job ((hs.active c).symm.trans hj)).of_same hs
  pending gid c := by
    rw [hs.groupAt, hs.active]
    exact h.pending gid c
  pending_nodup gid := hs.groupAt gid ▸ h.pending_nodup gid
  arrived_known gid := by
    rw [hs.groupAt, hs.partitionSizes]
    exact h.arrived_known gid
  arrived_active gid := by
    simp only [hs.groupAt, hs.active]
    exact h.arrived_active gid
  arrived_loose gid := hs.groupAt gid ▸ h.arrived_loose gid
  arrived_speed gid := by
    simp only [hs.groupAt, hs.speeds]
    exact h.arrived_speed gid
  arrived_nodup gid := hs.groupAt gid ▸ h.arrived_nodup gid
  arrived_once gid gid' := by
    rw [hs.groupAt, hs.groupAt]
    exact h.arrived_once gid gid'
  closed gid := hs.groupAt gid ▸ h.closed gid
  everyone := by
    simp only [hs.groupAt, hs.active, hs.partitionSizes]
    exact h.everyone
  fresh := by
    simp only [hs.groups, hs.groupCounter]
    exact h.fresh
  early hv := by
    simp only [hs.groups]
    exact h.early (Nat.le_zero.mp (hs.version.trans hv.le))

theorem Placed.later (h : Placed loose now s) {now' : ℚ} (hn : now ≤ now') : Placed loose now' s :=
  { h with job := fun c job hj ↦ { h.job c job hj with started := (h.job c job hj).started.trans hn } }

theorem Alive.of_same (h : Alive now s) (hs : SameSchedule s t) : Alive now t :=
  fun gid ↦ hs.groupAt gid ▸ h gid

theorem Alive.later (h : Alive now s) {now' : ℚ} (hn : now ≤ now') : Alive now' s :=
  fun gid ho hm ↦ (h gid ho hm).trans_le hn

theorem Alive.insert (h : Alive now s) (ht : t.groups = s.groups.insert gid g)
    (hg : g.closed = false → g.members = [] → g.deadline < now) : Alive now t := by
  intro k ho hm
  rw [groupAt_insert gid g ht] at ho hm ⊢
  split_ifs at ho hm ⊢ with hk
  · exact hg ho hm
  · exact h k ho hm

theorem Placed.perm (h : Placed loose now s) {loose' : List String} (hp : loose'.Perm loose) : Placed loose' now s :=
  { h with
    loose_nodup := hp.nodup_iff.mpr h.loose_nodup
    loose_known := fun c hc ↦ h.loose_known c (hp.mem_iff.mp hc)
    loose_active := fun c hc ↦ h.loose_active c (hp.mem_iff.mp hc)
    arrived_loose := fun gid u hu hc ↦ h.arrived_loose gid u hu (hp.mem_iff.mp hc)
    everyone := fun c hc ↦ (h.everyone c hc).imp_left hp.mem_iff.mpr }

theorem Placed.not_pending (h : Placed loose now s) (hc : s.active.get? c = none) : c ∉ (s.groupAt gid).pending := by
  intro hp
  obtain ⟨job, hj, -⟩ := (h.pending gid c).mp hp
  rw [hc] at hj
  cases hj

theorem Placed.group_of_job (h : Placed loose now s) {job : Assignment} (hj : s.active.get? c = some job)
    (hg : job.groupId = some gid) : ∃ g, s.groups.get? gid = some g ∧ c ∈ g.pending := by
  have hp := (h.pending gid c).mpr ⟨job, hj, hg⟩
  cases hk : s.groups.get? gid with
  | none =>
    rw [groupAt_of_none hk] at hp
    cases hp
  | some g => exact ⟨g, rfl, groupAt_of_some hk ▸ hp⟩

end Basic

section Place

variable {s : FedCompass T} {loose : List String} {now : ℚ} {gid : ℕ} {c : String} {job : Assignment}

/-- A loose client gets an assignment in a group that is open, an old or a new one. -/
theorem Placed.place (h : Placed (c :: loose) now s) (hj : Job s now c job) (hgid : job.groupId = some gid)
    {g : ArrivalGroup T} (hp : g.pending = (s.groupAt gid).pending.insert c) (ha : g.arrived = (s.groupAt gid).arrived)
    (ho : g.closed = false) {n m : ℕ} (hn : s.groupCounter ≤ n) (hlt : gid < n) (hv : s.version ≠ 0) :
    Placed loose now
      { s with
        groups := s.groups.insert gid g
        groupCounter := n
        active := s.active.insert c job
        serials := m } := by
  have hnd := List.nodup_cons.mp h.loose_nodup
  have hc : s.active.get? c = none := h.loose_active c List.mem_cons_self
  have hG := groupAt_insert (s := s)
    (t := { s with groups := s.groups.insert gid g, groupCounter := n, active := s.active.insert c job, serials := m })
    gid g rfl
  have hwaits : ∀ k, (FedCompass.groupAt { s with
      groups := s.groups.insert gid g, groupCounter := n, active := s.active.insert c job, serials := m } k).arrived =
      (s.groupAt k).arrived := by
    intro k
    rw [hG]
    split_ifs with hk
    · rw [ha, hk]
    · rfl
  have hother : ∀ k, ∀ u ∈ (s.groupAt k).arrived, u.clientId ≠ c :=
    fun k u hu he ↦ h.arrived_loose k u hu (he ▸ List.mem_cons_self)
  refine
    { speed_pos := h.speed_pos
      loose_nodup := hnd.2
      loose_known := fun d hd ↦ h.loose_known d (List.mem_cons_of_mem c hd)
      loose_active := fun d hd ↦ ?_
      job := fun d job' hd ↦ ?_
      pending := fun k d ↦ ?_
      pending_nodup := fun k ↦ ?_
      arrived_known := fun k ↦ hwaits k ▸ h.arrived_known k
      arrived_active := fun k u hu ↦ ?_
      arrived_loose := fun k u hu hl ↦ h.arrived_loose k u (hwaits k ▸ hu) (List.mem_cons_of_mem c hl)
      arrived_speed := fun k ↦ hwaits k ▸ h.arrived_speed k
      arrived_nodup := fun k ↦ hwaits k ▸ h.arrived_nodup k
      arrived_once := fun k k' u hu u' hu' ↦ h.arrived_once k k' u (hwaits k ▸ hu) u' (hwaits k' ▸ hu')
      closed := fun k hk ↦ ?_
      everyone := fun d hd ↦ ?_
      fresh := fun k g' hk ↦ ?_
      early := fun hz ↦ absurd hz hv }
  · dsimp only
    have hne : c ≠ d := fun he ↦ hnd.1 (he ▸ hd)
    rw [Dict.get?_insert, if_neg hne]
    exact h.loose_active d (List.mem_cons_of_mem c hd)
  · dsimp only at hd
    rw [Dict.get?_insert] at hd
    split_ifs at hd with he
    · cases hd
      subst he
      exact ⟨hj.client, hj.known, hj.low, hj.high, hj.started, hj.version, hj.speed⟩
    · have hj' := h.job d job' hd
      exact ⟨hj'.client, hj'.known, hj'.low, hj'.high, hj'.started, hj'.version, hj'.speed⟩
  · rw [hG]
    dsimp only
    rw [Dict.get?_insert]
    by_cases he : c = d
    · subst he
      simp only [if_pos]
      by_cases hk : gid = k
      · subst hk
        rw [if_pos rfl, hp]
        exact ⟨fun _ ↦ ⟨job, rfl, hgid⟩, fun _ ↦ List.mem_insert_self⟩
      · rw [if_neg hk]
        refine ⟨fun hm ↦ absurd hm (h.not_pending hc), fun hjob ↦ ?_⟩
        obtain ⟨job', hjob, hk'⟩ := hjob
        cases hjob
        exact absurd (Option.some.inj (hgid.symm.trans hk')) hk
    · rw [if_neg he, ← h.pending k d]
      split_ifs with hk
      · subst hk
        rw [hp, List.mem_insert_iff]
        exact ⟨fun hm ↦ hm.resolve_left (Ne.symm he), .inr⟩
      · rfl
  · rw [hG]
    split_ifs with hk
    · rw [hp]
      exact (h.pending_nodup gid).insert
    · exact h.pending_nodup k
  · dsimp only
    rw [Dict.get?_insert, if_neg fun he ↦ hother k u (hwaits k ▸ hu) he.symm]
    exact h.arrived_active k u (hwaits k ▸ hu)
  · rw [hwaits]
    rw [hG] at hk
    split_ifs at hk with he
    · rw [ho] at hk
      cases hk
    · exact h.closed k hk
  · obtain hl | ⟨job', hjob⟩ | ⟨k, u, hu, hd'⟩ := h.everyone d hd
    · obtain rfl | hl := List.mem_cons.mp hl
      · exact .inr (.inl ⟨job, by rw [Dict.get?_insert, if_pos rfl]⟩)
      · exact .inl hl
    · right
      left
      by_cases he : c = d
      · exact ⟨job, by rw [Dict.get?_insert, if_pos he]⟩
      · exact ⟨job', by rw [Dict.get?_insert, if_neg he, hjob]⟩
    · exact .inr (.inr ⟨k, u, (hwaits k).symm ▸ hu, hd'⟩)
  · dsimp only at hk
    rw [Dict.get?_insert] at hk
    split_ifs at hk with he
    · exact he ▸ hlt
    · exact (h.fresh k g' hk).trans_le hn

/-- A client in flight delivers: it is loose then, its group no longer waits for it. -/
theorem Placed.depart (h : Placed loose now s) (hj : s.active.get? c = some job) {v : ℚ} (hv : 0 < v)
    (groups : Dict ℕ (ArrivalGroup T)) {log : List Happening}
    (hp : ∀ k, ((groups.get? k).getD vacant).pending = (s.groupAt k).pending.erase c)
    (ha : ∀ k, ((groups.get? k).getD vacant).arrived = (s.groupAt k).arrived)
    (hcl : ∀ k, ((groups.get? k).getD vacant).closed = (s.groupAt k).closed)
    (hk : ∀ k g, groups.get? k = some g → ∃ g', s.groups.get? k = some g') :
    Placed (c :: loose) now
      { s with groups := groups, active := s.active.erase c, speeds := s.speeds.insert c v, log := log } where
  speed_pos d w hw := by
    dsimp only at hw
    rw [Dict.get?_insert] at hw
    split_ifs at hw
    · cases hw
      exact hv
    · exact h.speed_pos d w hw
  loose_nodup := by
    refine List.nodup_cons.mpr ⟨fun hc ↦ ?_, h.loose_nodup⟩
    rw [h.loose_active c hc] at hj
    cases hj
  loose_known := List.forall_mem_cons.mpr ⟨(h.job c job hj).known, h.loose_known⟩
  loose_active d hd := by
    dsimp only
    rw [Dict.get?_erase]
    split_ifs with he
    · rfl
    · exact h.loose_active d ((List.mem_cons.mp hd).resolve_left (Ne.symm he))
  job d job' hd := by
    dsimp only at hd
    rw [Dict.get?_erase] at hd
    split_ifs at hd with he
    have hj' := h.job d job' hd
    refine ⟨hj'.client, hj'.known, hj'.low, hj'.high, hj'.started, hj'.version, fun gid hg ↦ ?_⟩
    obtain ⟨w, hw⟩ := hj'.speed gid hg
    exact ⟨w, by rw [Dict.get?_insert, if_neg he, hw]⟩
  pending k d := by
    dsimp only
    rw [FedCompass.groupAt, hp, (h.pending_nodup k).mem_erase_iff, h.pending k d, Dict.get?_erase]
    by_cases he : c = d
    · subst he
      simp
    · rw [if_neg he]
      exact and_iff_right (Ne.symm he)
  pending_nodup k := by
    rw [FedCompass.groupAt, hp]
    exact (h.pending_nodup k).erase c
  arrived_known k := by
    rw [FedCompass.groupAt, ha]
    exact h.arrived_known k
  arrived_active k u hu := by
    rw [FedCompass.groupAt, ha] at hu
    dsimp only
    rw [Dict.get?_erase]
    split_ifs
    · rfl
    · exact h.arrived_active k u hu
  arrived_loose k u hu hl := by
    rw [FedCompass.groupAt, ha] at hu
    obtain he | hl := List.mem_cons.mp hl
    · have hn := h.arrived_active k u hu
      rw [he, hj] at hn
      cases hn
    · exact h.arrived_loose k u hu hl
  arrived_speed k u hu := by
    rw [FedCompass.groupAt, ha] at hu
    dsimp only
    rw [Dict.get?_insert]
    split_ifs
    · exact ⟨v, rfl⟩
    · exact h.arrived_speed k u hu
  arrived_nodup k := by
    rw [FedCompass.groupAt, ha]
    exact h.arrived_nodup k
  arrived_once k k' := by
    rw [FedCompass.groupAt, FedCompass.groupAt, ha, ha]
    exact h.arrived_once k k'
  closed k := by
    rw [FedCompass.groupAt, ha, hcl]
    exact h.closed k
  everyone d hd := by
    obtain hl | ⟨job', hjob⟩ | ⟨k, u, hu, hd'⟩ := h.everyone d hd
    · exact .inl (List.mem_cons_of_mem c hl)
    · by_cases he : c = d
      · exact .inl (he ▸ List.mem_cons_self)
      · exact .inr (.inl ⟨job', by rw [Dict.get?_erase, if_neg he, hjob]⟩)
    · refine .inr (.inr ⟨k, u, ?_, hd'⟩)
      rw [FedCompass.groupAt, ha]
      exact hu
  fresh k g hg := (hk k g hg).elim fun g' ↦ h.fresh k g'
  early hz k := by
    cases hg : groups.get? k with
    | none => rfl
    | some g =>
      obtain ⟨g', hg'⟩ := hk k g hg
      rw [h.early hz k] at hg'
      cases hg'

/-- A loose client waits in an open group. -/
theorem Placed.wait (h : Placed (c :: loose) now s) {u : Update T} (hu : u.clientId = c) {g : ArrivalGroup T}
    (hg : s.groups.get? gid = some g) (ho : g.closed = false) (hs : ∃ v, s.speeds.get? c = some v) :
    Placed loose now { s with groups := s.groups.insert gid { g with arrived := g.arrived ++ [u] } } := by
  subst hu
  have hnd := List.nodup_cons.mp h.loose_nodup
  have hG := groupAt_insert (s := s) gid { g with arrived := g.arrived ++ [u] }
    (t := { s with groups := s.groups.insert gid { g with arrived := g.arrived ++ [u] } }) rfl
  have hgat : s.groupAt gid = g := groupAt_of_some hg
  set t : FedCompass T := { s with groups := s.groups.insert gid { g with arrived := g.arrived ++ [u] } } with ht
  have hpending : ∀ k, (t.groupAt k).pending = (s.groupAt k).pending := by
    intro k
    rw [hG]
    split_ifs with hk
    · rw [← hk, hgat]
    · rfl
  have hclosed : ∀ k, (t.groupAt k).closed = (s.groupAt k).closed := by
    intro k
    rw [hG]
    split_ifs with hk
    · rw [← hk, hgat]
    · rfl
  have hmem : ∀ k, ∀ u' ∈ (t.groupAt k).arrived, u' ∈ (s.groupAt k).arrived ∨ k = gid ∧ u' = u := by
    intro k u' hu'
    rw [hG] at hu'
    split_ifs at hu' with hk
    · obtain hu' | hu' := List.mem_append.mp hu'
      · exact .inl (hk ▸ hgat.symm ▸ hu')
      · exact .inr ⟨hk.symm, List.mem_singleton.mp hu'⟩
    · exact .inl hu'
  have hkeep : ∀ k, ∀ u' ∈ (s.groupAt k).arrived, u' ∈ (t.groupAt k).arrived := by
    intro k u' hu'
    rw [hG]
    split_ifs with hk
    · subst hk
      exact List.mem_append_left _ (hgat ▸ hu')
    · exact hu'
  have hnew : ∀ k, ∀ u' ∈ (s.groupAt k).arrived, u'.clientId ≠ u.clientId :=
    fun k u' hu' he ↦ h.arrived_loose k u' hu' (he ▸ List.mem_cons_self)
  refine
    { speed_pos := h.speed_pos
      loose_nodup := hnd.2
      loose_known := fun d hd ↦ h.loose_known d (List.mem_cons_of_mem _ hd)
      loose_active := fun d hd ↦ h.loose_active d (List.mem_cons_of_mem _ hd)
      job := fun d job hd ↦ ?_
      pending := fun k d ↦ hpending k ▸ h.pending k d
      pending_nodup := fun k ↦ hpending k ▸ h.pending_nodup k
      arrived_known := fun k u' hu' ↦ ?_
      arrived_active := fun k u' hu' ↦ ?_
      arrived_loose := fun k u' hu' ↦ ?_
      arrived_speed := fun k u' hu' ↦ ?_
      arrived_nodup := fun k ↦ ?_
      arrived_once := fun k k' u₁ hu₁ u₂ hu₂ he ↦ ?_
      closed := fun k hk ↦ ?_
      everyone := fun d hd ↦ ?_
      fresh := fun k g' hk ↦ ?_
      early := fun hz ↦ absurd (h.early hz gid) (hg ▸ Option.some_ne_none g) }
  · have hj := h.job d job hd
    exact ⟨hj.client, hj.known, hj.low, hj.high, hj.started, hj.version, hj.speed⟩
  · obtain hu' | ⟨-, rfl⟩ := hmem k u' hu'
    · exact h.arrived_known k u' hu'
    · exact h.loose_known _ List.mem_cons_self
  · obtain hu' | ⟨-, rfl⟩ := hmem k u' hu'
    · exact h.arrived_active k u' hu'
    · exact h.loose_active _ List.mem_cons_self
  · obtain hu' | ⟨-, rfl⟩ := hmem k u' hu'
    · exact fun hl ↦ h.arrived_loose k u' hu' (List.mem_cons_of_mem _ hl)
    · exact hnd.1
  · obtain hu' | ⟨-, rfl⟩ := hmem k u' hu'
    · exact h.arrived_speed k u' hu'
    · exact hs
  · rw [hG]
    split_ifs with hk
    · rw [List.map_append]
      have hold : (g.arrived.map (·.clientId)).Nodup := hgat ▸ h.arrived_nodup gid
      refine List.Nodup.append hold (List.nodup_singleton _) fun d hd hd' ↦ ?_
      obtain ⟨u', hu', rfl⟩ := List.mem_map.mp hd
      exact hnew gid u' (hgat.symm ▸ hu') (List.mem_singleton.mp hd')
    · exact h.arrived_nodup k
  · obtain h₁ | ⟨hk₁, he₁⟩ := hmem k u₁ hu₁
    · obtain h₂ | ⟨-, he₂⟩ := hmem k' u₂ hu₂
      · exact h.arrived_once k k' u₁ h₁ u₂ h₂ he
      · exact absurd (he₂ ▸ he) (hnew k u₁ h₁)
    · obtain h₂ | ⟨hk₂, -⟩ := hmem k' u₂ hu₂
      · exact absurd (he₁ ▸ he.symm) (hnew k' u₂ h₂)
      · exact hk₁.trans hk₂.symm
  · rw [hclosed] at hk
    by_cases hkg : gid = k
    · rw [← hkg, hgat, ho] at hk
      cases hk
    · rw [hG, if_neg hkg]
      exact h.closed k hk
  · obtain hl | hjob | ⟨k, u', hu', hd'⟩ := h.everyone d hd
    · obtain rfl | hl := List.mem_cons.mp hl
      · refine .inr (.inr ⟨gid, u, ?_, rfl⟩)
        rw [hG, if_pos rfl]
        exact List.mem_append_right _ List.mem_cons_self
      · exact .inl hl
    · exact .inr (.inl hjob)
    · exact .inr (.inr ⟨k, u', hkeep k u' hu', hd'⟩)
  · rw [ht] at hk
    dsimp only at hk
    rw [Dict.get?_insert] at hk
    split_ifs at hk with he
    · exact he ▸ h.fresh gid g hg
    · exact h.fresh k g' hk

/-- A group closes: its arrivals are loose. -/
theorem Placed.closeGroup (h : Placed loose now s) {g : ArrivalGroup T} (hg : s.groups.get? gid = some g)
    (reason : String) : Placed (g.arrived.map (·.clientId) ++ loose) now (s.closeGroup gid g now reason) := by
  have hgat : s.groupAt gid = g := groupAt_of_some hg
  set t := s.closeGroup gid g now reason with ht
  have hG := groupAt_insert (s := s) (t := t) gid { g with closed := true, arrived := [] } rfl
  have hpending : ∀ k, (t.groupAt k).pending = (s.groupAt k).pending := by
    intro k
    rw [hG]
    split_ifs with hk
    · rw [← hk, hgat]
    · rfl
  have hmem : ∀ k, ∀ u ∈ (t.groupAt k).arrived, u ∈ (s.groupAt k).arrived ∧ k ≠ gid := by
    intro k u hu
    rw [hG] at hu
    split_ifs at hu with hk
    · cases hu
    · exact ⟨hu, Ne.symm hk⟩
  refine
    { speed_pos := h.speed_pos
      loose_nodup := ?_
      loose_known := fun c hc ↦ ?_
      loose_active := fun c hc ↦ ?_
      job := fun c job hc ↦ ?_
      pending := fun k c ↦ hpending k ▸ h.pending k c
      pending_nodup := fun k ↦ hpending k ▸ h.pending_nodup k
      arrived_known := fun k u hu ↦ h.arrived_known k u (hmem k u hu).1
      arrived_active := fun k u hu ↦ h.arrived_active k u (hmem k u hu).1
      arrived_loose := fun k u hu hl ↦ ?_
      arrived_speed := fun k u hu ↦ h.arrived_speed k u (hmem k u hu).1
      arrived_nodup := fun k ↦ ?_
      arrived_once := fun k k' u hu u' hu' ↦ h.arrived_once k k' u (hmem k u hu).1 u' (hmem k' u' hu').1
      closed := fun k hk ↦ ?_
      everyone := fun c hc ↦ ?_
      fresh := fun k g' hk ↦ ?_
      early := fun hz ↦ absurd (h.early hz gid) (hg ▸ Option.some_ne_none g) }
  · refine List.Nodup.append (hgat ▸ h.arrived_nodup gid) h.loose_nodup fun c hc hl ↦ ?_
    obtain ⟨u, hu, rfl⟩ := List.mem_map.mp hc
    exact h.arrived_loose gid u (hgat.symm ▸ hu) hl
  · obtain hc | hc := List.mem_append.mp hc
    · obtain ⟨u, hu, rfl⟩ := List.mem_map.mp hc
      exact h.arrived_known gid u (hgat.symm ▸ hu)
    · exact h.loose_known c hc
  · obtain hc | hc := List.mem_append.mp hc
    · obtain ⟨u, hu, rfl⟩ := List.mem_map.mp hc
      exact h.arrived_active gid u (hgat.symm ▸ hu)
    · exact h.loose_active c hc
  · have hj := h.job c job hc
    exact ⟨hj.client, hj.known, hj.low, hj.high, hj.started, hj.version, hj.speed⟩
  · obtain ⟨hu, hk⟩ := hmem k u hu
    obtain hl | hl := List.mem_append.mp hl
    · obtain ⟨u', hu', he⟩ := List.mem_map.mp hl
      exact hk (h.arrived_once k gid u hu u' (hgat.symm ▸ hu') he.symm)
    · exact h.arrived_loose k u hu hl
  · rw [hG]
    split_ifs
    · exact List.nodup_nil
    · exact h.arrived_nodup k
  · rw [hG] at hk ⊢
    split_ifs at hk ⊢
    · rfl
    · exact h.closed k hk
  · obtain hl | hjob | ⟨k, u, hu, hd⟩ := h.everyone c hc
    · exact .inl (List.mem_append_right _ hl)
    · exact .inr (.inl hjob)
    · by_cases hk : gid = k
      · rw [← hk, hgat] at hu
        exact .inl (List.mem_append_left _ (List.mem_map.mpr ⟨u, hu, hd⟩))
      · refine .inr (.inr ⟨k, u, ?_, hd⟩)
        rw [hG, if_neg hk]
        exact hu
  · rw [ht] at hk
    dsimp only [FedCompass.closeGroup] at hk
    rw [Dict.get?_insert] at hk
    split_ifs at hk with he
    · exact he ▸ h.fresh gid g hg
    · exact h.fresh k g' hk

/-- A closed group that waits for nobody goes. -/
theorem Placed.popDone (h : Placed loose now s) (gid : ℕ) : Placed loose now (s.popDone gid) := by
  rw [FedCompass.popDone]
  split
  · next g hg =>
    split_ifs with hdone
    · have hgat : s.groupAt gid = g := groupAt_of_some hg
      have harrived : g.arrived = [] := hgat ▸ h.closed gid (hgat.symm ▸ hdone.1)
      have hpending : g.pending = [] := List.isEmpty_iff.mp hdone.2
      set t : FedCompass T := { s with groups := s.groups.erase gid } with ht
      have hget : ∀ k, t.groups.get? k = if gid = k then none else s.groups.get? k :=
        fun k ↦ Dict.get?_erase s.groups gid k
      have hP : ∀ k, (t.groupAt k).pending = (s.groupAt k).pending := by
        intro k
        rw [FedCompass.groupAt, hget]
        split_ifs with hk
        · rw [← hk, hgat, hpending]
          rfl
        · rfl
      have hA : ∀ k, (t.groupAt k).arrived = (s.groupAt k).arrived := by
        intro k
        rw [FedCompass.groupAt, hget]
        split_ifs with hk
        · rw [← hk, hgat, harrived]
          rfl
        · rfl
      refine
        { speed_pos := h.speed_pos
          loose_nodup := h.loose_nodup
          loose_known := h.loose_known
          loose_active := h.loose_active
          job := fun c job hc ↦ ?_
          pending := fun k c ↦ hP k ▸ h.pending k c
          pending_nodup := fun k ↦ hP k ▸ h.pending_nodup k
          arrived_known := fun k ↦ hA k ▸ h.arrived_known k
          arrived_active := fun k ↦ hA k ▸ h.arrived_active k
          arrived_loose := fun k ↦ hA k ▸ h.arrived_loose k
          arrived_speed := fun k ↦ hA k ▸ h.arrived_speed k
          arrived_nodup := fun k ↦ hA k ▸ h.arrived_nodup k
          arrived_once := fun k k' ↦ hA k ▸ hA k' ▸ h.arrived_once k k'
          closed := fun k hk ↦ ?_
          everyone := fun c hc ↦ ?_
          fresh := fun k g' hk ↦ ?_
          early := fun hz k ↦ ?_ }
      · have hj := h.job c job hc
        exact ⟨hj.client, hj.known, hj.low, hj.high, hj.started, hj.version, hj.speed⟩
      · rw [hA]
        by_cases hkg : gid = k
        · rw [← hkg, hgat, harrived]
        · rw [FedCompass.groupAt, hget, if_neg hkg] at hk
          exact h.closed k hk
      · simp only [hA]
        exact h.everyone c hc
      · rw [hget] at hk
        split_ifs at hk
        exact h.fresh k g' hk
      · rw [hget, h.early hz k]
        exact ite_self none
    · exact h
  · exact h

end Place

end SplitFleet.Compass
