import SplitFleet.CostTables
import SplitFleet.Lib.Lists

set_option autoImplicit false

namespace SplitFleet.Feedback

open Lib Feasibility

variable {normalize : String → String}

section Groups

variable {key : ActionKey} {values values' : List (PlacementFeedback Reading)}

theorem exists_median_iff {l : List (Option Reading)} : (∃ m, median l = .ok m) ↔ ∀ q ∈ present l, 0 ≤ q := by
  rw [median]
  constructor
  · rintro ⟨m, hm⟩ q hq
    by_contra hneg
    rw [if_neg (List.ne_nil_of_mem hq), if_pos ⟨q, hq, not_le.mp hneg⟩] at hm
    cases hm
  · intro h
    by_cases hnil : present l = []
    · exact ⟨none, if_pos hnil⟩
    · refine ⟨_, (if_neg hnil).trans (if_neg ?_)⟩
      rintro ⟨q, hq, hneg⟩
      exact absurd (h q hq) (not_le.mpr hneg)

/-- A median of fewer values that are there is computed where the one of all is. -/
theorem median_of_subset {l l' : List (Option Reading)} (hsub : ∀ v ∈ l', v ∈ l ∨ v = none)
    (h : ∃ m, median l = .ok m) : ∃ m, median l' = .ok m := by
  rw [exists_median_iff] at h ⊢
  intro q hq
  obtain ⟨v, hv, hvq⟩ := List.mem_filterMap.mp hq
  rcases hsub v hv with hv | rfl
  · exact h q (List.mem_filterMap.mpr ⟨v, hv, hvq⟩)
  · cases hvq

theorem medians_of_subset (hsub : ∀ v ∈ values', v ∈ values) (h : ∃ r, medians values = .ok r) :
    ∃ r, medians values' = .ok r := by
  rw [medians, exists_mapM_ok_iff] at h ⊢
  intro name hname
  rw [exists_map_ok]
  refine median_of_subset ?_ (exists_map_ok.mp (h name hname))
  intro v hv
  obtain ⟨w, hw, rfl⟩ := List.mem_map.mp hv
  exact .inl (List.mem_map_of_mem (hsub w hw))

theorem serverLoadMedians_of_subset {loads loads' : List (Dict String Reading)}
    (hsub : ∀ v ∈ loads', v ∈ loads) (h : ∃ r, serverLoadMedians loads = .ok r) :
    ∃ r, serverLoadMedians loads' = .ok r := by
  rw [serverLoadMedians] at h ⊢
  by_cases hnil : loads' = []
  · exact ⟨none, if_pos hnil⟩
  · obtain ⟨load, hload⟩ := List.exists_mem_of_ne_nil _ hnil
    rw [if_neg (List.ne_nil_of_mem (hsub load hload))] at h
    obtain ⟨r, h⟩ := h
    obtain ⟨measured, hm, -⟩ := bind_eq_ok h
    have hall := exists_mapM_ok_iff.mp ⟨measured, hm⟩
    have hall' : ∀ name ∈ (loads'.flatMap Dict.keys).dedup,
        ∃ r, (median (loads'.map (·.get? name))).map (name, ·) = .ok r := by
      intro name hname
      obtain ⟨d, hd, hname⟩ := List.mem_flatMap.mp (List.mem_dedup.mp hname)
      rw [exists_map_ok]
      refine median_of_subset ?_ (exists_map_ok.mp
        (hall name (List.mem_dedup.mpr (List.mem_flatMap.mpr ⟨d, hsub d hd, hname⟩))))
      intro v hv
      obtain ⟨w, hw, rfl⟩ := List.mem_map.mp hv
      exact .inl (List.mem_map_of_mem (hsub w hw))
    obtain ⟨measured', hm'⟩ := exists_mapM_ok_iff.mpr hall'
    rw [if_neg hnil, hm', ok_bind]
    exact ⟨_, rfl⟩

theorem stableIds_eq_ok {ids : List String} (h : stableIds normalize values = .ok ids) {id : String} :
    id ∈ ids ↔ ∃ v ∈ values.filterMap (·.executionProfile),
      (ExecutionProfileKey.fromValue normalize v).map ExecutionProfileKey.stableId = .ok id := by
  have hall := mapM_eq_ok_iff.mp h
  constructor
  · intro hid
    exact forall₂_exists_of_mem_right hall hid
  · rintro ⟨v, hv, hvid⟩
    obtain ⟨id', hid', hv'⟩ := forall₂_exists_of_mem_right hall.flip hv
    cases hvid.symm.trans hv'
    exact hid'

/-- What the turn of a group asks before it aggregates. -/
structure Combinable (normalize : String → String) (values : List (PlacementFeedback Reading)) : Prop where
  success : ∀ v ∈ values, ∀ w ∈ values, v.success = w.success
  profiles : ∃ ids, stableIds normalize values = .ok ids ∧ ids.dedup.length ≤ 1
  medians : ∃ r, medians values = .ok r
  loads : ∃ r, serverLoadMedians (values.filterMap (·.serverLoad)) = .ok r

theorem uniform_iff : (values.map (·.success)).dedup.length ≤ 1 ↔
    ∀ v ∈ values, ∀ w ∈ values, v.success = w.success := by
  rw [length_dedup_le_one_iff]
  simp only [List.forall_mem_map]

theorem exists_aggregateGroup_iff :
    (∃ o, aggregateGroup normalize key values = .ok o) ↔ Combinable normalize values := by
  constructor
  · rintro ⟨o, h⟩
    obtain ⟨_, hs, h⟩ := bind_eq_ok h
    obtain ⟨ids, hids, h⟩ := bind_eq_ok h
    obtain ⟨_, hp, h⟩ := bind_eq_ok h
    obtain ⟨r, hr, h⟩ := bind_eq_ok h
    obtain ⟨l, hl, h⟩ := bind_eq_ok h
    exact ⟨uniform_iff.mp (of_require hs), ⟨ids, hids, of_require hp⟩, ⟨r, hr⟩, ⟨l, hl⟩⟩
  · rintro ⟨hs, ⟨ids, hids, hp⟩, ⟨r, hr⟩, ⟨l, hl⟩⟩
    rw [aggregateGroup, require_of (uniform_iff.mpr hs), ok_bind, hids, ok_bind, require_of hp, ok_bind, hr,
      ok_bind, hl, ok_bind]
    exact ⟨_, rfl⟩

theorem Combinable.of_subset (h : Combinable normalize values) (hsub : ∀ v ∈ values', v ∈ values) :
    Combinable normalize values' where
  success := fun v hv w hw ↦ h.success v (hsub v hv) w (hsub w hw)
  profiles := by
    obtain ⟨ids, hids, hle⟩ := h.profiles
    have hprofiles : ∀ p ∈ values'.filterMap (·.executionProfile), p ∈ values.filterMap (·.executionProfile) := by
      intro p hp
      obtain ⟨v, hv, hvp⟩ := List.mem_filterMap.mp hp
      exact List.mem_filterMap.mpr ⟨v, hsub v hv, hvp⟩
    obtain ⟨ids', hids'⟩ : ∃ ids', stableIds normalize values' = .ok ids' := by
      have hall := exists_mapM_ok_iff.mp ⟨ids, hids⟩
      exact exists_mapM_ok_iff.mpr fun p hp ↦ hall p (hprofiles p hp)
    refine ⟨ids', hids', ?_⟩
    rw [length_dedup_le_one_iff] at hle ⊢
    have hmem : ∀ id ∈ ids', id ∈ ids := by
      intro id hid
      obtain ⟨v, hv, hvid⟩ := (stableIds_eq_ok hids').mp hid
      exact (stableIds_eq_ok hids).mpr ⟨v, hprofiles v hv, hvid⟩
    exact fun a ha b hb ↦ hle a (hmem a ha) b (hmem b hb)
  medians := medians_of_subset hsub h.medians
  loads := by
    refine serverLoadMedians_of_subset ?_ h.loads
    intro load hload
    obtain ⟨v, hv, hvl⟩ := List.mem_filterMap.mp hload
    exact List.mem_filterMap.mpr ⟨v, hsub v hv, hvl⟩

/-- The aggregate of a group speaks of the action of the group. -/
theorem actionKey_aggregateGroup {o : PlacementFeedback ℚ} (h : aggregateGroup normalize key values = .ok o) :
    actionKey o = key ∧ o.success = values.all (·.success) := by
  obtain ⟨_, -, h⟩ := bind_eq_ok h
  obtain ⟨_, -, h⟩ := bind_eq_ok h
  obtain ⟨_, -, h⟩ := bind_eq_ok h
  obtain ⟨_, -, h⟩ := bind_eq_ok h
  obtain ⟨_, -, h⟩ := bind_eq_ok h
  cases h
  exact ⟨rfl, rfl⟩

end Groups

section Batch

variable {feedback feedback' : List (PlacementFeedback Reading)} {observations : List (PlacementFeedback ℚ)}

theorem mem_group {key : ActionKey} {v : PlacementFeedback Reading} :
    v ∈ group feedback key ↔ v ∈ feedback ∧ actionKey v = key := by
  rw [group, List.mem_filter, decide_eq_true_iff]

theorem mem_groupKeys {key : ActionKey} : key ∈ groupKeys feedback ↔ ∃ v ∈ feedback, actionKey v = key := by
  rw [groupKeys, mem_sortedBy, List.mem_dedup, List.mem_map]

/-- Any part of a batch that is accepted is accepted. -/
theorem aggregateFeedback_of_subset (h : aggregateFeedback normalize feedback = .ok observations)
    (hsub : ∀ v ∈ feedback', v ∈ feedback) : ∃ observations', aggregateFeedback normalize feedback' = .ok observations' := by
  have hall := exists_mapM_ok_iff.mp ⟨observations, h⟩
  refine exists_mapM_ok_iff.mpr fun key hkey ↦ ?_
  obtain ⟨v, hv, hvk⟩ := mem_groupKeys.mp hkey
  have hgroup := exists_aggregateGroup_iff.mp (hall key (mem_groupKeys.mpr ⟨v, hsub v hv, hvk⟩))
  refine exists_aggregateGroup_iff.mpr (hgroup.of_subset fun w hw ↦ ?_)
  exact mem_group.mpr ⟨hsub w (mem_group.mp hw).1, (mem_group.mp hw).2⟩

/-- An observation says of its action what the values it aggregates say. -/
theorem success_of_mem_group {key : ActionKey} {o : PlacementFeedback ℚ}
    (h : aggregateGroup normalize key (group feedback key) = .ok o) {v : PlacementFeedback Reading}
    (hv : v ∈ group feedback key) : o.success = v.success := by
  have huniform := (exists_aggregateGroup_iff.mp ⟨o, h⟩).success
  rw [(actionKey_aggregateGroup h).2]
  cases hs : v.success with
  | true => exact List.all_eq_true.mpr fun w hw ↦ (huniform w hw v hv).trans hs
  | false => exact List.all_eq_false.mpr ⟨v, hv, by rw [hs]; exact Bool.false_ne_true⟩

theorem exists_value_of_observation (h : aggregateFeedback normalize feedback = .ok observations)
    {o : PlacementFeedback ℚ} (ho : o ∈ observations) :
    ∃ v ∈ feedback, actionKey v = actionKey o ∧ v.success = o.success := by
  obtain ⟨key, hkey, hgroup⟩ := forall₂_exists_of_mem_right (mapM_eq_ok_iff.mp h) ho
  obtain ⟨v, hv, hvk⟩ := mem_groupKeys.mp hkey
  refine ⟨v, hv, hvk.trans (actionKey_aggregateGroup hgroup).1.symm, ?_⟩
  exact (success_of_mem_group hgroup (mem_group.mpr ⟨hv, hvk⟩)).symm

theorem exists_observation_of_value (h : aggregateFeedback normalize feedback = .ok observations)
    {v : PlacementFeedback Reading} (hv : v ∈ feedback) :
    ∃ o ∈ observations, actionKey o = actionKey v ∧ o.success = v.success := by
  obtain ⟨o, ho, hgroup⟩ := forall₂_exists_of_mem_right (mapM_eq_ok_iff.mp h).flip
    (mem_groupKeys.mpr ⟨v, hv, rfl⟩)
  exact ⟨o, ho, (actionKey_aggregateGroup hgroup).1, success_of_mem_group hgroup (mem_group.mpr ⟨hv, rfl⟩)⟩

/-- A batch that is accepted does not report an action both as a success and as a failure. -/
theorem success_eq_of_actionKey_eq (h : aggregateFeedback normalize feedback = .ok observations)
    {v w : PlacementFeedback Reading} (hv : v ∈ feedback) (hw : w ∈ feedback) (hk : actionKey v = actionKey w) :
    v.success = w.success := by
  obtain ⟨o, -, hgroup⟩ := forall₂_exists_of_mem_right (mapM_eq_ok_iff.mp h).flip
    (mem_groupKeys.mpr ⟨v, hv, rfl⟩)
  rw [← success_of_mem_group hgroup (mem_group.mpr ⟨hv, rfl⟩),
    success_of_mem_group hgroup (mem_group.mpr ⟨hw, hk.symm⟩)]

end Batch

end SplitFleet.Feedback

namespace SplitFleet.GreedyPolicy

open Lib Feasibility Feedback

variable {C : GreedyConfig} {normalize : String → String} {E : Environment} {round : ℤ}

/-- The policy has the same plans and has seen the same actions. -/
structure SameActions (s t : Policy) : Prop where
  assignments : t.roundAssignments = s.roundAssignments
  observed : t.observedActions = s.observedActions

instance : IsPreorder Policy SameActions where
  refl _ := ⟨rfl, rfl⟩
  trans _ _ _ h h' := ⟨h'.assignments.trans h.assignments, h'.observed.trans h.observed⟩

section Turns

variable {s s' t : Policy} {cid : Cid} {o : PlacementFeedback ℚ}

theorem sameActions_table : Method.Respects SameActions (table E cid) := by
  intro s
  rw [Method.after, table_run]
  cases effectiveTable E s cid with
  | error e => exact ⟨rfl, rfl⟩
  | ok t =>
    obtain ⟨_, he⟩ := keepTable_eq s cid t
    dsimp only
    rw [he]
    exact ⟨rfl, rfl⟩

theorem sameActions_adopt (state : SavedState) : Method.Respects SameActions (adopt C state) :=
  .bind .get fun _ ↦ .bind (.lift _) fun _ ↦ .modify fun _ ↦ ⟨rfl, rfl⟩

theorem sameActions_readCatalog : Method.Respects SameActions (readCatalog C E) := by
  refine .bind (.lift _) fun _ ↦ .bind (.lift _) fun _ ↦ .bind (.lift _) fun _ ↦
    .bind (.modify fun _ ↦ ⟨rfl, rfl⟩) fun _ ↦ .bind .get fun s ↦ ?_
  cases s.pendingState with
  | none => exact .pure _
  | some pending => exact .bind (.modify fun _ ↦ ⟨rfl, rfl⟩) fun _ ↦ sameActions_adopt pending

theorem sameActions_catalog : Method.Respects SameActions (catalog C E) := by
  refine .bind .get fun s ↦ ?_
  by_cases hs : s.catalogByBoundary.entries = []
  · rw [if_pos hs]
    exact .bind sameActions_readCatalog fun _ ↦ .bind .get fun _ ↦ .pure _
  · rw [if_neg hs]
    exact .bind .get fun _ ↦ .pure _

theorem sameActions_stateDict : Method.Respects SameActions (stateDict C E) := by
  refine .bind .get fun s ↦ .bind (.lift _) fun _ ↦ .bind sameActions_catalog fun l ↦ ?_
  cases l with
  | nil => exact .throw _
  | cons first rest => exact .bind .get fun _ ↦ .pure _

theorem sameActions_saveState : Method.Respects SameActions (saveState C E) := by
  rw [saveState]
  by_cases hC : C.savesState
  · rw [if_pos hC]
    exact .bind sameActions_stateDict fun _ ↦ .modify fun _ ↦ ⟨rfl, rfl⟩
  · rw [if_neg hC]
    exact .pure _

theorem sameActions_noteFeedback : Method.Respects SameActions (noteFeedback round cid) := by
  refine .bind .get fun s ↦ ?_
  cases s.roundDiagnostics.get? round with
  | none => exact .throw _
  | some d => exact .modify fun _ ↦ ⟨rfl, rfl⟩

/-- A success that is accepted is remembered. -/
theorem observeSuccess_eq_ok (h : (observeSuccess E round o).run s = .ok () s') :
    s'.roundAssignments = s.roundAssignments ∧ s'.observedActions = insert (actionKey o) s.observedActions := by
  obtain ⟨-, h⟩ := Method.require_bind_eq_ok h
  rw [Method.get_bind_run] at h
  cases hc : s.catalogByBoundary.get? o.boundary with
  | none =>
    rw [hc] at h
    cases h
  | some candidate =>
    rw [hc] at h
    obtain ⟨t, u, hu, h⟩ := Method.bind_eq_ok h
    have htable := sameActions_table.of_ok hu
    obtain ⟨⟨forward, backward, service⟩, -, h⟩ := Method.lift_bind_eq_ok h
    dsimp only at h
    rw [Method.modify_bind_run] at h
    obtain ⟨batch, -, h⟩ := Method.lift_bind_eq_ok h
    rw [Method.get_bind_run] at h
    obtain ⟨⟨volume, exchange⟩, -, h⟩ := Method.lift_bind_eq_ok h
    dsimp only at h
    rw [Method.modify_bind_run, Method.modify_bind_run] at h
    have hnote := sameActions_noteFeedback.of_ok h
    exact ⟨hnote.assignments.trans htable.assignments,
      hnote.observed.trans (congrArg (insert (actionKey o)) htable.observed)⟩

/-- The cut is the one the client was given for the round. -/
def PlannedAs (s : Policy) (round : ℤ) (o : PlacementFeedback ℚ) : Prop :=
  (s.roundAssignments.get? (round, true)).bind (·.get? o.clientId) = some o.boundary

/-- What one turn of the loop does where it returns. -/
theorem observeOne_eq_ok (h : (observeOne normalize E round o).run s = .ok () s') :
    o.roundId = round ∧ s'.roundAssignments = s.roundAssignments ∧
      (actionKey o ∈ s.observedActions ∧ s'.observedActions = s.observedActions ∨
        actionKey o ∉ s.observedActions ∧ PlannedAs s round o ∧
          (o.success = true ∧ s'.observedActions = insert (actionKey o) s.observedActions ∨
            o.success = false ∧ s'.observedActions = s.observedActions)) := by
  obtain ⟨hround, h⟩ := Method.require_bind_eq_ok h
  rw [Method.get_bind_run] at h
  by_cases hk : actionKey o ∈ s.observedActions
  · rw [if_pos hk] at h
    cases h
    exact ⟨hround, rfl, .inl ⟨hk, rfl⟩⟩
  · rw [if_neg hk] at h
    obtain ⟨hplan, h⟩ := Method.require_bind_eq_ok h
    cases hs : o.success with
    | true =>
      rw [hs, if_pos rfl] at h
      obtain ⟨ha, ho⟩ := observeSuccess_eq_ok h
      exact ⟨hround, ha, .inr ⟨hk, hplan, .inl ⟨rfl, ho⟩⟩⟩
    | false =>
      rw [hs, if_neg Bool.false_ne_true] at h
      cases h
      exact ⟨hround, rfl, .inr ⟨hk, hplan, .inr ⟨rfl, rfl⟩⟩⟩

end Turns

section Accepted

variable {s s' : Policy} {observations : List (PlacementFeedback ℚ)}

/-- What the loop leaves behind where it returns: the actions of the successes are remembered, and an
action that is not was planned. -/
theorem observations_eq_ok (h : (observations.forM (observeOne normalize E round)).run s = .ok () s') :
    s'.roundAssignments = s.roundAssignments ∧
      (∀ k, k ∈ s'.observedActions ↔ k ∈ s.observedActions ∨ ∃ o ∈ observations, o.success = true ∧ actionKey o = k) ∧
      ∀ o ∈ observations, o.roundId = round ∧ (actionKey o ∈ s'.observedActions ∨ PlannedAs s' round o) := by
  induction observations generalizing s with
  | nil =>
    cases h
    exact ⟨rfl, by simp, by simp⟩
  | cons o rest ih =>
    obtain ⟨u, hu, h⟩ := Method.forM_cons_eq_ok h
    obtain ⟨hround, hassign, hturn⟩ := observeOne_eq_ok hu
    obtain ⟨hassign', hobs', hrest⟩ := ih h
    refine ⟨hassign'.trans hassign, fun k ↦ ?_, fun p hp ↦ ?_⟩
    · rw [hobs']
      rcases hturn with ⟨hk, he⟩ | ⟨-, -, ⟨hs, he⟩ | ⟨hs, he⟩⟩
      · rw [he]
        simp only [List.exists_mem_cons_iff]
        constructor
        · rintro (hk' | hk')
          · exact .inl hk'
          · exact .inr (.inr hk')
        · rintro (hk' | ⟨-, rfl⟩ | hk')
          · exact .inl hk'
          · exact .inl hk
          · exact .inr hk'
      · rw [he, Finset.mem_insert]
        simp only [List.exists_mem_cons_iff, hs, true_and]
        constructor
        · rintro ((rfl | hk') | hk')
          · exact .inr (.inl rfl)
          · exact .inl hk'
          · exact .inr (.inr hk')
        · rintro (hk' | rfl | hk')
          · exact .inl (.inr hk')
          · exact .inl (.inl rfl)
          · exact .inr hk'
      · rw [he]
        simp [hs]
    · rcases List.mem_cons.mp hp with rfl | hp
      · refine ⟨hround, ?_⟩
        rcases hturn with ⟨hk, he⟩ | ⟨-, hplan, -⟩
        · exact .inl ((hobs' _).mpr (.inl (he ▸ hk)))
        · refine .inr ?_
          rw [PlannedAs, hassign', hassign]
          exact hplan
      · exact hrest p hp

end Accepted

section Again

/-- `_failure_counts.get(key, 0)`. -/
def failures (f : FeasibilityFilter) (key : Cid × String) : ℤ := (f.failureCounts.get? key).getD 0

theorem failures_observeFailure (f : FeasibilityFilter) (cid : Cid) (boundary : Option String) (kind : String)
    (reason : Option String) (key : Cid × String) :
    failures (f.observeFailure round cid boundary kind reason) key =
      failures f key + if key = (cid, kind) then 1 else 0 := by
  have hcounts : (f.observeFailure round cid boundary kind reason).failureCounts =
      (f.countFailure cid kind).failureCounts := by
    unfold FeasibilityFilter.observeFailure
    cases boundary with
    | none => rfl
    | some b =>
      dsimp only
      split_ifs <;> rfl
  rw [failures, hcounts, FeasibilityFilter.countFailure, Dict.get?_insert, failures]
  by_cases hk : key = (cid, kind)
  · rw [if_pos hk.symm, if_pos hk, hk]
    rfl
  · rw [if_neg (Ne.symm hk), if_neg hk, add_zero]

/-- What a turn of the loop may meet when a batch comes again: an action that is remembered, or a
failure of one that was planned. -/
def Known (round : ℤ) (s : Policy) (o : PlacementFeedback ℚ) : Prop :=
  o.roundId = round ∧ (actionKey o ∈ s.observedActions ∨ o.success = false ∧ PlannedAs s round o)

variable {s s' : Policy} {o : PlacementFeedback ℚ} {observations : List (PlacementFeedback ℚ)}

theorem observeOne_of_observed (hr : o.roundId = round) (hk : actionKey o ∈ s.observedActions) :
    (observeOne normalize E round o).run s = .ok () s := by
  rw [observeOne, require_of hr, Method.ok_bind_run, Method.get_bind_run, if_pos hk]
  rfl

/-- A failure that is not remembered is counted. -/
theorem observeOne_of_failure (hr : o.roundId = round) (hk : actionKey o ∉ s.observedActions)
    (hs : o.success = false) (hp : PlannedAs s round o) :
    (observeOne normalize E round o).run s = .ok () { s with
      feasibilityFilter := s.feasibilityFilter.observeFailure round o.clientId
        (failedBoundary s o.clientId (some o.boundary)) (normalize "runtime") none } := by
  rw [PlannedAs] at hp
  rw [observeOne, require_of hr, Method.ok_bind_run, Method.get_bind_run, if_neg hk, require_of hp,
    Method.ok_bind_run, hs]
  rfl

/-- The loop over a batch that comes again touches the filter alone, and there it counts every
failure whose action is not remembered. -/
theorem observations_again (h : ∀ o ∈ observations, Known round s o) :
    ∃ f, (observations.forM (observeOne normalize E round)).run s = .ok () { s with feasibilityFilter := f } ∧
      (∀ key, failures s.feasibilityFilter key ≤ failures f key) ∧
      ((∀ o ∈ observations, actionKey o ∈ s.observedActions) → f = s.feasibilityFilter) ∧
      ∀ o ∈ observations, actionKey o ∉ s.observedActions →
        failures s.feasibilityFilter (o.clientId, normalize "runtime") <
          failures f (o.clientId, normalize "runtime") := by
  induction observations generalizing s with
  | nil => exact ⟨s.feasibilityFilter, rfl, fun _ ↦ le_rfl, fun _ ↦ rfl, by simp⟩
  | cons o rest ih =>
    have hrest : ∀ p ∈ rest, Known round s p := fun p hp ↦ h p (List.mem_cons_of_mem o hp)
    obtain ⟨hr, hcase⟩ := h o List.mem_cons_self
    by_cases hk : actionKey o ∈ s.observedActions
    · obtain ⟨f, hrun, hle, hsame, hlt⟩ := ih hrest
      refine ⟨f, ?_, hle, fun hall ↦ hsame fun p hp ↦ hall p (List.mem_cons_of_mem o hp), ?_⟩
      · rw [Method.forM_cons_run (observeOne_of_observed hr hk)]
        exact hrun
      · intro p hp hpk
        rcases List.mem_cons.mp hp with rfl | hp
        · exact absurd hk hpk
        · exact hlt p hp hpk
    · obtain ⟨hs, hp⟩ := hcase.resolve_left hk
      have hturn := @observeOne_of_failure normalize E round s o hr hk hs hp
      generalize hg : s.feasibilityFilter.observeFailure round o.clientId
        (failedBoundary s o.clientId (some o.boundary)) (normalize "runtime") none = g at hturn
      have hcount (key : Cid × String) : failures g key =
          failures s.feasibilityFilter key + if key = (o.clientId, normalize "runtime") then 1 else 0 := by
        rw [← hg, failures_observeFailure]
      have hmono (key : Cid × String) : failures s.feasibilityFilter key ≤ failures g key := by
        rw [hcount]
        split_ifs <;> omega
      obtain ⟨f, hrun, hle, -, hlt⟩ := ih (s := { s with feasibilityFilter := g }) hrest
      refine ⟨f, ?_, fun key ↦ (hmono key).trans (hle key), fun hall ↦ absurd (hall o List.mem_cons_self) hk, ?_⟩
      · rw [Method.forM_cons_run hturn]
        exact hrun
      · intro p hp' hpk
        rcases List.mem_cons.mp hp' with rfl | hp'
        · have hone := hcount (p.clientId, normalize "runtime")
          rw [if_pos rfl] at hone
          have := hle (p.clientId, normalize "runtime")
          dsimp only at this
          omega
        · exact (hmono _).trans_lt (hlt p hp' hpk)

/-- Asking for the document where the catalog is there changes nothing. -/
def Reads (s t : Policy) : Prop := s.Loaded → t = s

instance : IsPreorder Policy Reads where
  refl _ := fun _ ↦ rfl
  trans s t u h h' := fun hs ↦ by
    have ht := h hs
    subst ht
    exact h' hs

theorem reads_stateDict : Method.Respects Reads (stateDict C E) := by
  refine .bind .get fun s ↦ .bind (.lift _) fun _ ↦ .bind ?_ fun l ↦ ?_
  · intro s hs
    rw [Method.after, catalog_run_of_loaded hs]
  · cases l with
    | nil => exact .throw _
    | cons first rest => exact .bind .get fun _ ↦ .pure _

theorem saveState_after (hs : C.savesState = true → s.Loaded) :
    ∃ file, (saveState C E).after s = { s with stateFile := file } := by
  rw [saveState]
  by_cases hC : C.savesState = true
  · rw [if_pos hC]
    have hread := reads_stateDict (C := C) (E := E) s (hs hC)
    rw [Method.after] at hread
    cases hr : (stateDict C E).run s with
    | error e t =>
      rw [hr] at hread
      dsimp only at hread
      rw [Method.after, Method.run_bind_of_error hr]
      exact ⟨s.stateFile, hread⟩
    | ok state t =>
      rw [hr] at hread
      dsimp only at hread
      rw [Method.after_bind_of_ok hr, hread]
      exact ⟨some state, rfl⟩
  · rw [if_neg hC]
    exact ⟨s.stateFile, rfl⟩

theorem loaded_of_saveState (h : (saveState C E).run s = .ok () s') (hC : C.savesState = true) : s'.Loaded := by
  rw [saveState, if_pos hC] at h
  obtain ⟨state, u, hu, h⟩ := Method.bind_eq_ok h
  obtain ⟨tables, first, rest, -, hcatalog, -⟩ := stateDict_eq_ok hu
  cases h
  exact (loaded_of_catalog_eq_ok hcatalog).1

end Again

section Redelivery

variable {E' : Environment} {s s' : Policy} {feedback feedback' : List (PlacementFeedback Reading)}

/-- The cost tables, the whole of the feasibility filter and the last executed boundaries. -/
structure Unchanged (s t : Policy) : Prop where
  costTables : t.costTables = s.costTables
  filter : t.feasibilityFilter = s.feasibilityFilter
  lastBoundary : t.lastBoundary = s.lastBoundary

/-- What an accepted batch leaves behind. -/
theorem observeRound_eq_ok (h : (observeRound C normalize E round feedback).run s = .ok () s') :
    (∃ observations, aggregateFeedback normalize feedback = .ok observations) ∧
      (C.savesState = true → s'.Loaded) ∧
      ∀ v ∈ feedback, v.roundId = round ∧
        (v.success = true → actionKey v ∈ s'.observedActions) ∧
        (v.success = false → (actionKey v ∈ s'.observedActions ↔ actionKey v ∈ s.observedActions)) ∧
        (actionKey v ∈ s'.observedActions ∨
          (s'.roundAssignments.get? (round, true)).bind (·.get? v.clientId) = some v.boundary) := by
  obtain ⟨observations, hobs, h⟩ := Method.lift_bind_eq_ok h
  obtain ⟨_, u, hu, h⟩ := Method.bind_eq_ok h
  obtain ⟨-, hobserved, hplanned⟩ := observations_eq_ok hu
  have hsave := sameActions_saveState.of_ok h
  refine ⟨⟨observations, hobs⟩, loaded_of_saveState h, fun v hv ↦ ?_⟩
  obtain ⟨o, ho, hkey, hsuccess⟩ := exists_observation_of_value hobs hv
  obtain ⟨hround, hplan⟩ := hplanned o ho
  rw [hsave.observed, hsave.assignments, ← hkey]
  have hfields : o.roundId = v.roundId ∧ o.clientId = v.clientId ∧ o.boundary = v.boundary := by
    rw [actionKey, actionKey, Prod.mk.injEq, Prod.mk.injEq] at hkey
    exact hkey
  refine ⟨hfields.1.symm.trans hround, fun hs ↦ ?_, fun hs ↦ ?_, ?_⟩
  · exact (hobserved _).mpr (.inr ⟨o, ho, hsuccess.trans hs, rfl⟩)
  · rw [hobserved]
    constructor
    · rintro (hk | ⟨p, hp, hps, hpk⟩)
      · exact hk
      · -- the batch would report the action both ways
        obtain ⟨w, hw, hwk, hws⟩ := exists_value_of_observation hobs hp
        have := success_eq_of_actionKey_eq hobs hv hw (hkey.symm.trans (hpk.symm.trans hwk.symm))
        rw [hs, hws, hps] at this
        cases this
    · exact .inl
  · rw [PlannedAs, hfields.2.1, hfields.2.2] at hplan
    exact hplan

/-- Part of an accepted batch comes again: it changes nothing exactly where each of its failures is of
an action that was already remembered before the batch came for the first time. -/
theorem observeRound_again (h : (observeRound C normalize E round feedback).run s = .ok () s')
    (hsub : ∀ v ∈ feedback', v ∈ feedback) :
    Unchanged s' ((observeRound C normalize E' round feedback').after s') ↔
      ∀ v ∈ feedback', v.success = false → actionKey v ∈ s.observedActions := by
  obtain ⟨⟨observations, hobs⟩, hloaded, hvalues⟩ := observeRound_eq_ok h
  obtain ⟨observations', hobs'⟩ := aggregateFeedback_of_subset hobs hsub
  have hknown : ∀ o ∈ observations', Known round s' o := by
    intro o ho
    obtain ⟨v, hv, hkey, hsuccess⟩ := exists_value_of_observation hobs' ho
    obtain ⟨hround, htrue, -, hplan⟩ := hvalues v (hsub v hv)
    have hfields : v.roundId = o.roundId ∧ v.clientId = o.clientId ∧ v.boundary = o.boundary := by
      rw [actionKey, actionKey, Prod.mk.injEq, Prod.mk.injEq] at hkey
      exact hkey
    rw [hkey] at htrue hplan
    refine ⟨hfields.1.symm.trans hround, ?_⟩
    cases hs : o.success with
    | true => exact .inl (htrue (hsuccess.trans hs))
    | false =>
      refine hplan.imp id fun hp ↦ ⟨rfl, ?_⟩
      rw [PlannedAs, ← hfields.2.1, ← hfields.2.2]
      exact hp
  obtain ⟨f, hrun, -, hsame, hlt⟩ := @observations_again normalize E' round s' observations' hknown
  obtain ⟨file, hfile⟩ := saveState_after (C := C) (E := E') (s := { s' with feasibilityFilter := f }) hloaded
  have hafter : (observeRound C normalize E' round feedback').after s' =
      { s' with feasibilityFilter := f, stateFile := file } := by
    rw [observeRound, hobs']
    refine (Method.after_bind_of_ok (Method.run_liftM_ok _ s')).trans ?_
    rw [Method.after_bind_of_ok hrun, hfile]
  rw [hafter]
  constructor
  · intro hun v hv hs
    rw [← (hvalues v (hsub v hv)).2.2.1 hs]
    obtain ⟨o, ho, hkey, -⟩ := exists_observation_of_value hobs' hv
    by_contra hk
    have hcount := hlt o ho (hkey ▸ hk)
    rw [show f = s'.feasibilityFilter from hun.filter] at hcount
    exact lt_irrefl _ hcount
  · intro hall
    refine ⟨rfl, hsame fun o ho ↦ ?_, rfl⟩
    obtain ⟨v, hv, hkey, -⟩ := exists_value_of_observation hobs' ho
    obtain ⟨-, htrue, hfalse, -⟩ := hvalues v (hsub v hv)
    rw [← hkey]
    cases hs : v.success with
    | true => exact htrue hs
    | false => exact (hfalse hs).mpr (hall v hv hs)

end Redelivery

section Sample

/-- The client could not run its cut. -/
def sampleFailure : PlacementFeedback Reading where
  roundId := 1
  clientId := "a"
  boundary := "late"
  measured := fun _ ↦ none
  numExamples := 0
  numBatches := 0
  executionProfile := none
  success := false
  serverLoad := none
  completionScope := none

def plannedPolicy : Policy := (planRound sampleConfig sampleEnvironment 1 ["a"] true).after samplePolicy

theorem observeRound_again_sample : ∃ s',
    (observeRound sampleConfig id sampleEnvironment 1 [sampleFailure]).run plannedPolicy = .ok () s' ∧
    (Unchanged s' ((observeRound sampleConfig id sampleEnvironment 1 [sampleFailure]).after s') ↔
      ∀ v ∈ [sampleFailure], v.success = false → actionKey v ∈ plannedPolicy.observedActions) := by
  have h : (observeRound sampleConfig id sampleEnvironment 1 [sampleFailure]).run plannedPolicy = .ok () _ := rfl
  exact ⟨_, h, observeRound_again h fun v hv ↦ hv⟩

/-- A failure that is delivered twice is counted twice. -/
theorem failure_counted_twice : ¬ ∀ (C : GreedyConfig) (normalize : String → String) (E : Environment) (round : ℤ)
    (s s' : Policy) (feedback feedback' : List (PlacementFeedback Reading)),
    (observeRound C normalize E round feedback).run s = .ok () s' → (∀ v ∈ feedback', v ∈ feedback) →
      Unchanged s' ((observeRound C normalize E round feedback').after s') := by
  intro hall
  have h : (observeRound sampleConfig id sampleEnvironment 1 [sampleFailure]).run plannedPolicy = .ok () _ := rfl
  have hun := hall _ _ _ _ _ _ _ _ h fun v hv ↦ hv
  have hcount := congrArg (failures · ("a", "runtime")) hun.filter
  exact absurd hcount (by decide)

end Sample

end SplitFleet.GreedyPolicy
