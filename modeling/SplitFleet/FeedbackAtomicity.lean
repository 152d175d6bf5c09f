import SplitFleet.ObservedRound

set_option autoImplicit false

namespace SplitFleet.GreedyPolicy

open Lib Feasibility Feedback

variable {C : GreedyConfig} {normalize : String → String} {E : Environment} {round : ℤ}

section Rejection

variable {s s' t u : Policy} {o : PlacementFeedback ℚ}

/-- A success of a planned cut whose computation costs are not all there, or negative. -/
structure Miscosted (E : Environment) (round : ℤ) (s : Policy) (o : PlacementFeedback ℚ) : Prop where
  round_eq : o.roundId = round
  fresh_action : actionKey o ∉ s.observedActions
  planned : PlannedAs s round o
  success : o.success = true
  executed : 1 ≤ o.numBatches
  candidate : ∃ candidate, s.catalogByBoundary.get? o.boundary = some candidate
  table : ∃ t, effectiveTable E s o.clientId = .ok t
  costs : ∃ e, computationCosts o = .error e

/-- The checks of an observation that can fail. -/
inductive Rejected (E : Environment) (round : ℤ) (s : Policy) (o : PlacementFeedback ℚ) : Prop
  | round (hr : o.roundId ≠ round)
  | plan (hr : o.roundId = round) (hk : actionKey o ∉ s.observedActions) (hp : ¬ PlannedAs s round o)
  | batches (hr : o.roundId = round) (hk : actionKey o ∉ s.observedActions) (hp : PlannedAs s round o)
      (hs : o.success = true) (hn : o.numBatches < 1)
  | costs (h : Miscosted E round s o)

/-- An observation that is rejected leaves the policy as it is, but for the table of its client. -/
theorem observeOne_of_rejected (h : Rejected E round s o) : ∃ e t, (observeOne normalize E round o).run s = .error e t ∧
    (t = s ∧ ¬ Miscosted E round s o ∨ Miscosted E round s o ∧ ∃ table, t = s.keepTable o.clientId table) := by
  cases h with
  | round hr =>
    refine ⟨.valueError "Feedback round does not match observe_round", s, ?_, .inl ⟨rfl, fun hm ↦ hr hm.round_eq⟩⟩
    rw [observeOne, require, if_neg hr]
    rfl
  | plan hr hk hp =>
    refine ⟨.valueError "Feedback must match the client's executed round plan", s, ?_, .inl ⟨rfl, fun hm ↦ hp hm.planned⟩⟩
    rw [PlannedAs] at hp
    rw [observeOne, require_of hr, Method.ok_bind_run, Method.get_bind_run, if_neg hk, require, if_neg hp]
    rfl
  | batches hr hk hp hs hn =>
    refine ⟨.valueError "Greedy feedback requires actual executed batches", s, ?_, .inl ⟨rfl, fun hm ↦ absurd hm.executed (by omega)⟩⟩
    rw [PlannedAs] at hp
    rw [observeOne, require_of hr, Method.ok_bind_run, Method.get_bind_run, if_neg hk, require_of hp,
      Method.ok_bind_run, hs, if_pos rfl, observeSuccess, require, if_neg (by omega)]
    rfl
  | costs h =>
    obtain ⟨candidate, hc⟩ := h.candidate
    obtain ⟨t, ht⟩ := h.table
    obtain ⟨e, he⟩ := h.costs
    refine ⟨e, s.keepTable o.clientId t, ?_, .inr ⟨h, t, rfl⟩⟩
    have hp := h.planned
    rw [PlannedAs] at hp
    have htable : (table E o.clientId).run s = .ok t (s.keepTable o.clientId t) := by
      rw [table_run, ht]
    rw [observeOne, require_of h.round_eq, Method.ok_bind_run, Method.get_bind_run, if_neg h.fresh_action,
      require_of hp, Method.ok_bind_run, h.success, if_pos rfl, observeSuccess, require_of h.executed,
      Method.ok_bind_run, Method.get_bind_run, hc]
    dsimp only
    rw [Method.run_bind_of_ok htable, he]
    rfl

theorem Steady.miscosted (h : Steady E s u) (hk : actionKey o ∈ u.observedActions ↔ actionKey o ∈ s.observedActions)
    (hm : Miscosted E round s o) : Miscosted E round u o where
  round_eq := hm.round_eq
  fresh_action := mt hk.mp hm.fresh_action
  planned := (plannedAs_congr h).mpr hm.planned
  success := hm.success
  executed := hm.executed
  candidate := by
    rw [h.catalog]
    exact hm.candidate
  table := (h.tables o.clientId).mpr hm.table
  costs := hm.costs

theorem Steady.rejected (h : Steady E s u) (hk : actionKey o ∈ u.observedActions ↔ actionKey o ∈ s.observedActions)
    (hr : Rejected E round s o) : Rejected E round u o := by
  cases hr with
  | round hr => exact .round hr
  | plan hr hk' hp => exact .plan hr (mt hk.mp hk') (mt (plannedAs_congr h).mp hp)
  | batches hr hk' hp hs hn => exact .batches hr (mt hk.mp hk') ((plannedAs_congr h).mpr hp) hs hn
  | costs hm => exact .costs (h.miscosted hk hm)

end Rejection

section Growth

variable {s s' t u : Policy} {o : PlacementFeedback ℚ} {pre : List (PlacementFeedback ℚ)}

/-- Actions are only added, and failures only counted. -/
structure Grows (s t : Policy) : Prop where
  observed : s.observedActions ⊆ t.observedActions
  failures : ∀ key, failures s.feasibilityFilter key ≤ failures t.feasibilityFilter key

theorem Grows.trans (h : Grows s t) (h' : Grows t u) : Grows s u :=
  ⟨h.observed.trans h'.observed, fun key ↦ (h.failures key).trans (h'.failures key)⟩

/-- More than before is remembered. -/
def Advanced (s t : Policy) : Prop :=
  t.observedActions ≠ s.observedActions ∨ ∃ key, failures s.feasibilityFilter key < failures t.feasibilityFilter key

theorem failures_observeMemory (f : FeasibilityFilter) (cid : Cid) (boundary : String) (client server : Option ℚ)
    (key : Cid × String) : failures (f.observeMemory cid boundary client server) key = failures f key := by
  have hcounts : (f.observeMemory cid boundary client server).failureCounts = f.failureCounts := by
    unfold FeasibilityFilter.observeMemory
    cases client with
    | none =>
      cases server with
      | none => rfl
      | some y => dsimp only; split_ifs <;> rfl
    | some x =>
      cases server with
      | none => dsimp only; split_ifs <;> rfl
      | some y => dsimp only; split_ifs <;> rfl
  rw [failures, hcounts, failures]

theorem settle_observed (e : Evidence E s o) : e.settle.observedActions = insert (actionKey o) s.observedActions := by
  obtain ⟨_, he⟩ := keepTable_eq s o.clientId e.table
  rw [Evidence.settle, he]
  rfl

theorem settle_failures (e : Evidence E s o) (key : Cid × String) :
    failures e.settle.feasibilityFilter key = failures s.feasibilityFilter key := by
  obtain ⟨_, he⟩ := keepTable_eq s o.clientId e.table
  rw [Evidence.settle, he]
  exact failures_observeMemory _ _ _ _ _ _

theorem TakesIn.grows (h : TakesIn normalize E round s o u) : Grows s u := by
  cases h with
  | seen => exact ⟨subset_rfl, fun _ ↦ le_rfl⟩
  | failure =>
    refine ⟨subset_rfl, fun key ↦ ?_⟩
    rw [failedTurn, failures_observeFailure]
    split_ifs <;> omega
  | success hr hk hp hs e d hd =>
    refine ⟨?_, fun key ↦ (settle_failures e key).ge⟩
    rw [noted, settle_observed]
    exact Finset.subset_insert _ _

/-- An action that is not remembered makes a difference. -/
theorem TakesIn.advanced (h : TakesIn normalize E round s o u) (hk : actionKey o ∉ s.observedActions)
    (ht : Grows u t) : Advanced s t := by
  cases h with
  | seen _ hk' => exact absurd hk' hk
  | failure =>
    refine .inr ⟨(o.clientId, normalize "runtime"), lt_of_lt_of_le ?_ (ht.failures _)⟩
    rw [failedTurn, failures_observeFailure, if_pos rfl]
    omega
  | success hr hk hp hs e d hd =>
    left
    intro he
    apply hk
    rw [← he]
    apply ht.observed
    rw [noted, settle_observed]
    exact Finset.mem_insert_self _ _

theorem TakesIn.eq_of_seen (h : TakesIn normalize E round s o u) (hk : actionKey o ∈ s.observedActions) : u = s := by
  cases h with
  | seen => rfl
  | failure _ hk' => exact absurd hk hk'
  | success _ hk' => exact absurd hk hk'

theorem TakesIn.mem_observed_iff (h : TakesIn normalize E round s o u) {k : ActionKey} (hk : k ≠ actionKey o) :
    k ∈ u.observedActions ↔ k ∈ s.observedActions := by
  cases h with
  | seen => rfl
  | failure => rfl
  | success hr hk' hp hs e d hd =>
    rw [noted, settle_observed, Finset.mem_insert, or_iff_right hk]

/-- The part of a batch that was gone through. -/
theorem observed_of_forM (h : (pre.forM (observeOne normalize E round)).run s = .ok () u) :
    Steady E s u ∧ Grows s u ∧ (∀ k ∉ pre.map actionKey, k ∈ u.observedActions ↔ k ∈ s.observedActions) ∧
      ((∀ p ∈ pre, actionKey p ∈ s.observedActions) → u = s) ∧
      ((∃ p ∈ pre, actionKey p ∉ s.observedActions) → ∀ t, Grows u t → Advanced s t) := by
  induction pre generalizing s with
  | nil =>
    cases h
    exact ⟨.refl _, ⟨subset_rfl, fun _ ↦ le_rfl⟩, fun _ _ ↦ .rfl, fun _ ↦ rfl, by simp⟩
  | cons p pre ih =>
    obtain ⟨v, hv, h⟩ := Method.forM_cons_eq_ok h
    have ha := observeOne_run_iff.mp hv
    obtain ⟨hsteady, hgrows, hobs, hsame, hadv⟩ := ih h
    refine ⟨ha.steady.trans hsteady, ha.grows.trans hgrows, fun k hk ↦ ?_, fun hall ↦ ?_, fun hex t ht ↦ ?_⟩
    · rw [List.map_cons, List.mem_cons, not_or] at hk
      rw [hobs k hk.2, ha.mem_observed_iff hk.1]
    · obtain rfl := ha.eq_of_seen (hall p List.mem_cons_self)
      exact hsame fun q hq ↦ hall q (List.mem_cons_of_mem p hq)
    · by_cases hk : actionKey p ∈ s.observedActions
      · obtain rfl := ha.eq_of_seen hk
        obtain ⟨q, hq, hqk⟩ := hex
        rcases List.mem_cons.mp hq with rfl | hq
        · exact absurd hk hqk
        · exact hadv ⟨q, hq, hqk⟩ t ht
      · exact ha.advanced hk (hgrows.trans ht)

/-- One observation after the other is accepted where each of them would be, since no two report one
action. -/
theorem exists_forM_iff (hnd : (pre.map actionKey).Nodup) :
    (∃ u, (pre.forM (observeOne normalize E round)).run s = .ok () u) ↔
      ∀ p ∈ pre, Acceptable normalize E round s p := by
  induction pre generalizing s with
  | nil => exact iff_of_true ⟨s, rfl⟩ (by simp)
  | cons p pre ih =>
    rw [List.map_cons, List.nodup_cons] at hnd
    have hkeep {v : Policy} (ha : TakesIn normalize E round s p v) {q : PlacementFeedback ℚ} (hq : q ∈ pre) :
        actionKey q ∈ v.observedActions ↔ actionKey q ∈ s.observedActions := by
      refine ha.mem_observed_iff fun hk ↦ hnd.1 ?_
      rw [← hk]
      exact List.mem_map_of_mem hq
    rw [List.forall_mem_cons]
    constructor
    · rintro ⟨u, h⟩
      obtain ⟨v, hv, h⟩ := Method.forM_cons_eq_ok h
      have ha := observeOne_run_iff.mp hv
      refine ⟨⟨v, ha⟩, fun q hq ↦ ?_⟩
      exact ha.steady.symm.acceptable (hkeep ha hq).symm ((ih hnd.2).mp ⟨u, h⟩ q hq)
    · rintro ⟨⟨v, ha⟩, hrest⟩
      obtain ⟨u, hu⟩ := (ih hnd.2).mpr fun q hq ↦ ha.steady.acceptable (hkeep ha hq) (hrest q hq)
      refine ⟨u, ?_⟩
      rw [Method.forM_cons_run (observeOne_run_iff.mpr ha)]
      exact hu

end Growth

section Batch

variable {s t u : Policy} {o : PlacementFeedback ℚ} {pre post : List (PlacementFeedback ℚ)}
  {feedback : List (PlacementFeedback Reading)}

/-- The cost tables, the feasibility state, the last boundaries and the observed actions. -/
structure SameLearning (s t : Policy) : Prop where
  costTables : t.costTables = s.costTables
  filter : t.feasibilityFilter = s.feasibilityFilter
  lastBoundary : t.lastBoundary = s.lastBoundary
  observed : t.observedActions = s.observedActions

/-- A call that raises since an observation is rejected changes nothing that was learned. -/
def AllOrNothing (C : GreedyConfig) (normalize : String → String) (E : Environment) (s : Policy) (round : ℤ)
    (feedback : List (PlacementFeedback Reading)) : Prop :=
  ∀ e t, (observeRound C normalize E round feedback).run s = .error e t →
    (∃ pre o post u, aggregateFeedback normalize feedback = .ok (pre ++ o :: post) ∧
      (pre.forM (observeOne normalize E round)).run s = .ok () u ∧ Rejected E round u o) → SameLearning s t

/-- An observation is rejected after one that is taken in, or for its costs, before its client has a
table. -/
def Torn (normalize : String → String) (E : Environment) (s : Policy) (round : ℤ)
    (feedback : List (PlacementFeedback Reading)) : Prop :=
  ∃ pre o post, aggregateFeedback normalize feedback = .ok (pre ++ o :: post) ∧
    (∀ p ∈ pre, Acceptable normalize E round s p) ∧ Rejected E round s o ∧
    ((∃ p ∈ pre, actionKey p ∉ s.observedActions) ∨
      Miscosted E round s o ∧ s.costTables.get? o.clientId = none)

/-- The observations of a batch are of different actions. -/
theorem nodup_actionKey {observations : List (PlacementFeedback ℚ)}
    (h : aggregateFeedback normalize feedback = .ok observations) : (observations.map actionKey).Nodup := by
  have hkeys : observations.map actionKey = groupKeys feedback := by
    have hall := mapM_eq_ok_iff.mp h
    clear h
    generalize groupKeys feedback = keys at hall
    induction hall with
    | nil => rfl
    | cons hk _ ih => rw [List.map_cons, (actionKey_aggregateGroup hk).1, ih]
  rw [hkeys, groupKeys]
  exact (sortedBy_perm keyOrder _).nodup_iff.mpr (List.nodup_dedup _)

theorem observeRound_of_rejected (ha : aggregateFeedback normalize feedback = .ok (pre ++ o :: post))
    (hu : (pre.forM (observeOne normalize E round)).run s = .ok () u) {e : PyError}
    (ht : (observeOne normalize E round o).run u = .error e t) :
    (observeRound C normalize E round feedback).run s = .error e t := by
  have hloop : ((pre ++ o :: post).forM (observeOne normalize E round)).run s = .error e t := by
    rw [Method.forM_append_run hu]
    exact Method.run_bind_of_error ht
  rw [observeRound, ha, Method.ok_bind_run, Method.run_bind_of_error hloop]

theorem sameLearning_keepTable (table : CostTable) {cid : Cid} :
    SameLearning s (s.keepTable cid table) ↔ s.costTables.get? cid ≠ none := by
  constructor
  · intro h hn
    have hget : (s.keepTable cid table).costTables.get? cid = _ := get?_keepTable
    rw [h.costTables, if_pos rfl, hn] at hget
    cases hget
  · intro h
    obtain ⟨t, ht⟩ := Option.ne_none_iff_exists'.mp h
    rw [Policy.keepTable, ht]
    exact ⟨rfl, rfl, rfl, rfl⟩

theorem Advanced.not_sameLearning (h : Advanced s t) : ¬ SameLearning s t := by
  rintro ⟨-, hf, -, ho⟩
  rcases h with hne | ⟨key, hlt⟩
  · exact hne ho
  · rw [hf] at hlt
    exact lt_irrefl _ hlt

theorem grows_keepTable (table : CostTable) (cid : Cid) : Grows s (s.keepTable cid table) := by
  obtain ⟨_, he⟩ := keepTable_eq s cid table
  rw [he]
  exact ⟨subset_rfl, fun _ ↦ le_rfl⟩

theorem observeRound_allOrNothing_iff (C : GreedyConfig) (normalize : String → String) (E : Environment) (s : Policy)
    (round : ℤ) (feedback : List (PlacementFeedback Reading)) :
    AllOrNothing C normalize E s round feedback ↔ ¬ Torn normalize E s round feedback := by
  constructor
  · rintro hall ⟨pre, o, post, ha, hpre, hr, hcase⟩
    have hnd := nodup_actionKey ha
    rw [List.map_append, List.map_cons, List.nodup_append] at hnd
    obtain ⟨hnd, -, hdisj⟩ := hnd
    obtain ⟨u, hu⟩ := (exists_forM_iff hnd).mpr hpre
    obtain ⟨hsteady, -, hobs, hsame, hadv⟩ := observed_of_forM hu
    have hk : actionKey o ∈ u.observedActions ↔ actionKey o ∈ s.observedActions :=
      hobs _ fun hm ↦ hdisj _ hm _ List.mem_cons_self rfl
    have hr' := hsteady.rejected hk hr
    obtain ⟨e, t, ht, hstate⟩ := @observeOne_of_rejected normalize E round u o hr'
    have hlearn := hall e t (observeRound_of_rejected ha hu ht) ⟨pre, o, post, u, ha, hu, hr'⟩
    have hgrows : Grows u t := by
      rcases hstate with ⟨rfl, -⟩ | ⟨-, table, rfl⟩
      · exact ⟨subset_rfl, fun _ ↦ le_rfl⟩
      · exact grows_keepTable table _
    by_cases hex : ∃ p ∈ pre, actionKey p ∉ s.observedActions
    · exact (hadv hex t hgrows).not_sameLearning hlearn
    · obtain ⟨hm, hn⟩ := hcase.resolve_left hex
      obtain rfl : u = s := hsame (by simpa using hex)
      obtain ⟨-, table, rfl⟩ := hstate.resolve_left fun h ↦ h.2 hm
      exact (sameLearning_keepTable table).mp hlearn hn
  · rintro hno e t ht ⟨pre, o, post, u, ha, hu, hr⟩
    have hnd := nodup_actionKey ha
    rw [List.map_append, List.map_cons, List.nodup_append] at hnd
    obtain ⟨hnd, -, hdisj⟩ := hnd
    obtain ⟨hsteady, -, hobs, hsame, -⟩ := observed_of_forM hu
    have hk : actionKey o ∈ u.observedActions ↔ actionKey o ∈ s.observedActions :=
      hobs _ fun hm ↦ hdisj _ hm _ List.mem_cons_self rfl
    have hr' := hsteady.symm.rejected hk.symm hr
    have hpre := (exists_forM_iff hnd).mp ⟨u, hu⟩
    have hseen : ∀ p ∈ pre, actionKey p ∈ s.observedActions := by
      intro p hp
      by_contra hp'
      exact hno ⟨pre, o, post, ha, hpre, hr', .inl ⟨p, hp, hp'⟩⟩
    obtain rfl := hsame hseen
    obtain ⟨e', t', ht', hstate⟩ := @observeOne_of_rejected normalize E round u o hr
    cases ht.symm.trans (observeRound_of_rejected ha hu ht')
    rcases hstate with ⟨rfl, -⟩ | ⟨hm, table, rfl⟩
    · exact ⟨rfl, rfl, rfl, rfl⟩
    · exact (sameLearning_keepTable table).mpr fun hn ↦ hno ⟨pre, o, post, ha, hpre, hr', .inr ⟨hm, hn⟩⟩

end Batch

section Sample

def pairPolicy : Policy := (planRound sampleConfig sampleEnvironment 1 ["a", "b"] true).after samplePolicy

/-- A failure of one client, and a success of the other one in which no batch was executed. -/
def pairFeedback : List (PlacementFeedback Reading) :=
  [sampleFailure, { sampleFailure with
    clientId := "b"
    success := true }]

/-- The failure of the first client is counted although the success of the second one is rejected. -/
theorem rejected_batch_half_applied : ¬ ∀ (C : GreedyConfig) (normalize : String → String) (E : Environment)
    (s : Policy) (round : ℤ) (feedback : List (PlacementFeedback Reading)),
    AllOrNothing C normalize E s round feedback := by
  intro hall
  have hrun : (observeRound sampleConfig id sampleEnvironment 1 pairFeedback).run pairPolicy = .error _ _ := rfl
  have hlearn := hall sampleConfig id sampleEnvironment pairPolicy 1 pairFeedback _ _ hrun
    ⟨[_], _, [], _, rfl, rfl, .batches rfl (by decide) rfl rfl (by decide)⟩
  have hsize := congrArg (fun f ↦ f.failureCounts.size) hlearn.filter
  cases hsize

end Sample

end SplitFleet.GreedyPolicy
