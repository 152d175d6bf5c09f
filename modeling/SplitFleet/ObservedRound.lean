import SplitFleet.Redelivery

set_option autoImplicit false

namespace SplitFleet.GreedyPolicy

open Lib Feasibility Feedback

variable {normalize : String → String} {E : Environment} {round : ℤ}

section Turn

variable {s s' u : Policy} {o : PlacementFeedback ℚ}

/-- What is known of the client's table, of the costs and of the volumes of an accepted success. -/
structure Evidence (E : Environment) (s : Policy) (o : PlacementFeedback ℚ) where
  candidate : SplitCandidateDescriptor
  table : CostTable
  forward : ℚ
  backward : ℚ
  service : ℚ
  batch : ℤ
  volume : ℚ
  exchange : ℚ
  executed : 1 ≤ o.numBatches
  candidate_eq : s.catalogByBoundary.get? o.boundary = some candidate
  table_eq : effectiveTable E s o.clientId = .ok table
  costs_eq : computationCosts o = .ok (forward, backward, service)
  batch_eq : batchSizeOf E o.clientId = .ok batch
  volumes_eq : volumes E s.profiles candidate batch = .ok (volume, exchange)

/-- The table with the costs of the observation in it. -/
def Evidence.costed (e : Evidence E s o) : CostTable :=
  e.table.observe e.candidate.boundary e.forward e.backward e.service

/-- The table with the slopes of the observation as well. -/
def Evidence.learned (e : Evidence E s o) : CostTable := e.costed.observeLink o e.volume e.exchange

/-- The policy that has learned from an observation. -/
def Evidence.settle (e : Evidence E s o) : Policy :=
  markObserved o (((s.keepTable o.clientId e.table).storeTable o.clientId e.costed).storeTable o.clientId e.learned)

/-- `feedback_clients.append(cid)`, where the round has diagnostics. -/
def noted (round : ℤ) (cid : Cid) (d : RoundDiagnostics) (s : Policy) : Policy :=
  { s with roundDiagnostics := s.roundDiagnostics.insert round { d with feedbackClients := d.feedbackClients ++ [cid] } }

theorem settle_diagnostics (e : Evidence E s o) : e.settle.roundDiagnostics = s.roundDiagnostics := by
  obtain ⟨_, he⟩ := keepTable_eq s o.clientId e.table
  rw [Evidence.settle, he]
  rfl

theorem noteFeedback_run_iff {cid : Cid} : (noteFeedback round cid).run s = .ok () s' ↔
    ∃ d, s.roundDiagnostics.get? round = some d ∧ s' = noted round cid d s := by
  rw [noteFeedback, Method.get_bind_run]
  cases s.roundDiagnostics.get? round with
  | none =>
    constructor
    · intro h
      cases h
    · rintro ⟨d, hd, -⟩
      cases hd
  | some d =>
    constructor
    · intro h
      cases h
      exact ⟨d, rfl, rfl⟩
    · rintro ⟨_, hd, rfl⟩
      cases hd
      rfl

/-- When the loop accepts a success, and what it makes of it. -/
theorem observeSuccess_run_iff : (observeSuccess E round o).run s = .ok () s' ↔
    ∃ (e : Evidence E s o) (d : RoundDiagnostics), s.roundDiagnostics.get? round = some d ∧
      s' = noted round o.clientId d e.settle := by
  constructor
  · intro h
    obtain ⟨hn, h⟩ := Method.require_bind_eq_ok h
    rw [Method.get_bind_run] at h
    cases hc : s.catalogByBoundary.get? o.boundary with
    | none =>
      rw [hc] at h
      cases h
    | some candidate =>
      rw [hc] at h
      obtain ⟨t, v, hv, h⟩ := Method.bind_eq_ok h
      obtain ⟨ht, rfl⟩ := table_eq_ok hv
      obtain ⟨⟨forward, backward, service⟩, hcosts, h⟩ := Method.lift_bind_eq_ok h
      dsimp only at h
      rw [Method.modify_bind_run] at h
      obtain ⟨batch, hbatch, h⟩ := Method.lift_bind_eq_ok h
      rw [Method.get_bind_run] at h
      obtain ⟨⟨volume, exchange⟩, hvolumes, h⟩ := Method.lift_bind_eq_ok h
      dsimp only at h
      rw [Method.modify_bind_run, Method.modify_bind_run] at h
      have hvolumes' : volumes E s.profiles candidate batch = .ok (volume, exchange) := by
        rw [← keepTable_profiles s o.clientId t]
        exact hvolumes
      let e : Evidence E s o := ⟨candidate, t, forward, backward, service, batch, volume, exchange, hn, hc, ht, hcosts,
        hbatch, hvolumes'⟩
      obtain ⟨d, hd, hs'⟩ := noteFeedback_run_iff.mp h
      have hd' : e.settle.roundDiagnostics.get? round = some d := hd
      rw [settle_diagnostics] at hd'
      exact ⟨e, d, hd', hs'⟩
  · rintro ⟨e, d, hd, rfl⟩
    have htable : (table E o.clientId).run s = .ok e.table (s.keepTable o.clientId e.table) := by
      rw [table_run, e.table_eq]
    have hvolumes : volumes E (s.keepTable o.clientId e.table).profiles e.candidate e.batch =
        .ok (e.volume, e.exchange) := by
      rw [keepTable_profiles, e.volumes_eq]
    rw [observeSuccess, require_of e.executed, Method.ok_bind_run, Method.get_bind_run, e.candidate_eq]
    dsimp only
    rw [Method.run_bind_of_ok htable, e.costs_eq, Method.ok_bind_run]
    dsimp only
    rw [Method.modify_bind_run, e.batch_eq, Method.ok_bind_run, Method.get_bind_run]
    have hvolumes' : volumes E ((s.keepTable o.clientId e.table).storeTable o.clientId e.costed).profiles
        e.candidate e.batch = .ok (e.volume, e.exchange) := hvolumes
    rw [Evidence.costed] at hvolumes'
    rw [hvolumes', Method.ok_bind_run]
    dsimp only
    rw [Method.modify_bind_run, Method.modify_bind_run]
    refine noteFeedback_run_iff.mpr ⟨d, ?_, rfl⟩
    rw [← hd, ← settle_diagnostics e]
    rfl

/-- The policy with one failure more. -/
def failedTurn (normalize : String → String) (round : ℤ) (s : Policy) (o : PlacementFeedback ℚ) : Policy :=
  { s with
    feasibilityFilter := s.feasibilityFilter.observeFailure round o.clientId
      (failedBoundary s o.clientId (some o.boundary)) (normalize "runtime") none }

/-- A turn of the loop accepts an observation. -/
inductive TakesIn (normalize : String → String) (E : Environment) (round : ℤ) (s : Policy)
    (o : PlacementFeedback ℚ) : Policy → Prop
  | seen (hr : o.roundId = round) (hk : actionKey o ∈ s.observedActions) : TakesIn normalize E round s o s
  | failure (hr : o.roundId = round) (hk : actionKey o ∉ s.observedActions) (hp : PlannedAs s round o)
      (hs : o.success = false) : TakesIn normalize E round s o (failedTurn normalize round s o)
  | success (hr : o.roundId = round) (hk : actionKey o ∉ s.observedActions) (hp : PlannedAs s round o)
      (hs : o.success = true) (e : Evidence E s o) (d : RoundDiagnostics)
      (hd : s.roundDiagnostics.get? round = some d) :
    TakesIn normalize E round s o (noted round o.clientId d e.settle)

theorem observeOne_run_iff :
    (observeOne normalize E round o).run s = .ok () s' ↔ TakesIn normalize E round s o s' := by
  constructor
  · intro h
    obtain ⟨hr, h⟩ := Method.require_bind_eq_ok h
    rw [Method.get_bind_run] at h
    by_cases hk : actionKey o ∈ s.observedActions
    · rw [if_pos hk] at h
      cases h
      exact .seen hr hk
    · rw [if_neg hk] at h
      obtain ⟨hp, h⟩ := Method.require_bind_eq_ok h
      cases hs : o.success with
      | false =>
        rw [hs, if_neg Bool.false_ne_true] at h
        cases h
        exact .failure hr hk hp hs
      | true =>
        rw [hs, if_pos rfl] at h
        obtain ⟨e, d, hd, rfl⟩ := observeSuccess_run_iff.mp h
        exact .success hr hk hp hs e d hd
  · intro h
    cases h with
    | seen hr hk => exact observeOne_of_observed hr hk
    | failure hr hk hp hs => exact observeOne_of_failure hr hk hs hp
    | success hr hk hp hs e d hd =>
      rw [PlannedAs] at hp
      rw [observeOne, require_of hr, Method.ok_bind_run, Method.get_bind_run, if_neg hk, require_of hp,
        Method.ok_bind_run, hs, if_pos rfl]
      exact observeSuccess_run_iff.mpr ⟨e, d, hd, rfl⟩

def Acceptable (normalize : String → String) (E : Environment) (round : ℤ) (s : Policy)
    (o : PlacementFeedback ℚ) : Prop := ∃ s', TakesIn normalize E round s o s'

end Turn

section Steady

variable {s s' u : Policy} {o : PlacementFeedback ℚ}

/-- What the checks of an observation read, its own action apart, is no different. -/
structure Steady (E : Environment) (s u : Policy) : Prop where
  profiles : u.profiles = s.profiles
  catalog : u.catalogByBoundary = s.catalogByBoundary
  assignments : u.roundAssignments = s.roundAssignments
  diagnostics : ∀ r, u.roundDiagnostics.get? r = none ↔ s.roundDiagnostics.get? r = none
  tables : ∀ cid, (∃ t, effectiveTable E u cid = .ok t) ↔ ∃ t, effectiveTable E s cid = .ok t

theorem Steady.refl (s : Policy) : Steady E s s := ⟨rfl, rfl, rfl, fun _ ↦ .rfl, fun _ ↦ .rfl⟩

theorem Steady.symm (h : Steady E s u) : Steady E u s :=
  ⟨h.profiles.symm, h.catalog.symm, h.assignments.symm, fun r ↦ (h.diagnostics r).symm, fun cid ↦ (h.tables cid).symm⟩

theorem Steady.trans (h : Steady E s s') (h' : Steady E s' u) : Steady E s u where
  profiles := h'.profiles.trans h.profiles
  catalog := h'.catalog.trans h.catalog
  assignments := h'.assignments.trans h.assignments
  diagnostics r := (h'.diagnostics r).trans (h.diagnostics r)
  tables cid := (h'.tables cid).trans (h.tables cid)

/-- Only the client's own table is different in a policy that has learned from an observation. -/
theorem get?_settle (e : Evidence E s o) (cid : Cid) :
    e.settle.costTables.get? cid = if cid = o.clientId then some e.learned else s.costTables.get? cid := by
  have hkeep : (s.keepTable o.clientId e.table).costTables.get? cid = _ := get?_keepTable
  by_cases hc : cid = o.clientId
  · rw [if_pos hc, hc]
    simp [Evidence.settle, markObserved, Policy.storeTable]
  · rw [if_neg hc] at hkeep ⊢
    rw [← hkeep]
    simp [Evidence.settle, markObserved, Policy.storeTable, Ne.symm hc]

theorem settle_savedTables (e : Evidence E s o) : e.settle.savedTables = s.savedTables := by
  obtain ⟨_, he⟩ := keepTable_eq s o.clientId e.table
  rw [Evidence.settle, he]
  rfl

theorem settle_profiles (e : Evidence E s o) : e.settle.profiles = s.profiles := keepTable_profiles s _ _

/-- The tables after an accepted success. -/
theorem effectiveTable_settle (e : Evidence E s o) (d : RoundDiagnostics) (cid : Cid) :
    effectiveTable E (noted round o.clientId d e.settle) cid =
      if cid = o.clientId then .ok e.learned else effectiveTable E s cid := by
  have hget : (noted round o.clientId d e.settle).costTables.get? cid = _ := get?_settle e cid
  have hsaved : (noted round o.clientId d e.settle).savedTables = s.savedTables := settle_savedTables e
  have hprofiles : (noted round o.clientId d e.settle).profiles = s.profiles := settle_profiles e
  rw [effectiveTable, hget, hsaved, hprofiles]
  by_cases hc : cid = o.clientId
  · rw [if_pos hc, if_pos hc]
  · rw [if_neg hc, if_neg hc, effectiveTable]

theorem TakesIn.steady (h : TakesIn normalize E round s o u) : Steady E s u := by
  cases h with
  | seen => exact .refl s
  | failure => exact ⟨rfl, rfl, rfl, fun _ ↦ .rfl, fun _ ↦ .rfl⟩
  | success hr hk hp hs e d hd =>
    obtain ⟨_, he⟩ := keepTable_eq s o.clientId e.table
    refine ⟨settle_profiles e, ?_, ?_, fun r ↦ ?_, fun cid ↦ ?_⟩
    · rw [Evidence.settle, he]
      rfl
    · rw [Evidence.settle, he]
      rfl
    · rw [noted, settle_diagnostics, Dict.get?_insert]
      by_cases hr' : round = r
      · subst hr'
        simp [hd]
      · rw [if_neg hr']
    · rw [effectiveTable_settle]
      by_cases hc : cid = o.clientId
      · rw [if_pos hc, hc, e.table_eq]
        exact iff_of_true ⟨_, rfl⟩ ⟨_, rfl⟩
      · rw [if_neg hc]

theorem plannedAs_congr (h : Steady E s u) : PlannedAs u round o ↔ PlannedAs s round o := by
  rw [PlannedAs, h.assignments, PlannedAs]

theorem Steady.evidence (h : Steady E s u) (e : Evidence E s o) : Nonempty (Evidence E u o) := by
  obtain ⟨t, ht⟩ := (h.tables o.clientId).mpr ⟨_, e.table_eq⟩
  refine ⟨⟨e.candidate, t, e.forward, e.backward, e.service, e.batch, e.volume, e.exchange, e.executed, ?_, ht,
    e.costs_eq, e.batch_eq, ?_⟩⟩
  · rw [h.catalog, e.candidate_eq]
  · rw [h.profiles, e.volumes_eq]

theorem Steady.acceptable (h : Steady E s u) (hk : actionKey o ∈ u.observedActions ↔ actionKey o ∈ s.observedActions)
    (ha : Acceptable normalize E round s o) : Acceptable normalize E round u o := by
  obtain ⟨s', ha⟩ := ha
  cases ha with
  | seen hr hk' => exact ⟨_, .seen hr (hk.mpr hk')⟩
  | failure hr hk' hp hs => exact ⟨_, .failure hr (mt hk.mp hk') ((plannedAs_congr h).mpr hp) hs⟩
  | success hr hk' hp hs e d hd =>
    obtain ⟨e'⟩ := h.evidence e
    obtain ⟨d', hd'⟩ := Option.ne_none_iff_exists'.mp (mt (h.diagnostics round).mp (hd ▸ Option.some_ne_none d))
    exact ⟨_, .success hr (mt hk.mp hk') ((plannedAs_congr h).mpr hp) hs e' d' hd'⟩

end Steady

end SplitFleet.GreedyPolicy
