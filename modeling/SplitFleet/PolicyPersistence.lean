import SplitFleet.CostTables
import SplitFleet.Lib.Lists

set_option autoImplicit false

namespace SplitFleet.GreedyPolicy

open Lib Feasibility Feedback

/-- What stays as it is while a policy is in use: the candidates and their features, the transport ids
in use, and the logical id of each. -/
structure Deployment where
  candidates : List SplitCandidateDescriptor
  profiles : Profiles
  InUse : Cid → Prop
  logical : Cid → String
  injective : ∀ t, InUse t → ∀ u, InUse u → logical t = logical u → t = u

/-- A call in which the providers answer for this deployment, where they answer. -/
structure Serves (D : Deployment) (E : Environment) : Prop where
  candidates : ∀ l, E.candidates true = .ok l → l = D.candidates
  profiles : ∀ p, E.workloadFeatures = .ok p → p = D.profiles
  logical : ∀ t, D.InUse t → ∀ props, E.client t = .ok props → props.logicalId t = D.logical t

/-- What `load_state_dict` asks of a table. -/
structure ValidTable (t : CostTable) : Prop where
  networkSlope : 0 ≤ t.networkSecondsPerByte
  networkIntercept : 0 ≤ t.networkInterceptSeconds
  stateSlope : 0 ≤ t.stateSecondsPerByte
  stateIntercept : 0 ≤ t.stateInterceptSeconds
  anchors : t.anchors ≠ []

section Tables

variable {E : Environment}

theorem checkTable_iff {t : CostTable} : checkTable t = .ok () ↔ ValidTable t := by
  constructor
  · intro h
    obtain ⟨_, hcosts, h⟩ := bind_eq_ok h
    obtain ⟨h₁, h₂, h₃, h₄⟩ := of_require hcosts
    exact ⟨h₁, h₂, h₃, h₄, of_require h⟩
  · intro h
    rw [checkTable, require_of ⟨h.networkSlope, h.networkIntercept, h.stateSlope, h.stateIntercept⟩, ok_bind,
      require_of h.anchors]

theorem affineSamples_nonneg {small large : List Reading} {delta slope intercept : ℚ}
    (h : affineSamples small large delta = .ok (slope, intercept)) : 0 ≤ slope ∧ 0 ≤ intercept := by
  rw [affineSamples] at h
  split_ifs at h
  cases h
  exact ⟨le_max_right _ _, le_max_right _ _⟩

/-- A calibrated table could be persisted. -/
theorem validTable_of_calibrated {profiles : Option Profiles} {logical : String} {t : CostTable}
    (h : calibratedTable E profiles logical = .ok t) : ValidTable t := by
  rw [calibratedTable] at h
  cases hr : E.receipt with
  | none =>
    rw [hr] at h
    cases h
  | some receipt =>
    rw [hr] at h
    obtain ⟨_, hne, h⟩ := bind_eq_ok h
    obtain ⟨anchors, hanchors, h⟩ := bind_eq_ok h
    obtain ⟨⟨ns, ni⟩, hnetwork, h⟩ := bind_eq_ok h
    obtain ⟨⟨ss, si⟩, hstate, h⟩ := bind_eq_ok h
    cases h
    obtain ⟨hns, hni⟩ := affineSamples_nonneg hnetwork
    obtain ⟨hss, hsi⟩ := affineSamples_nonneg hstate
    refine ⟨hns, hni, hss, hsi, ?_⟩
    have hlength := (mapM_eq_ok_iff.mp hanchors).length_eq
    intro hnil
    have hperm := (sortedBy_perm anchorOrder anchors).length_eq
    rw [show sortedBy anchorOrder anchors = [] from hnil, ← hlength] at hperm
    exact of_require hne (List.length_eq_zero_iff.mp hperm.symm)

theorem ValidTable.observe {t : CostTable} (h : ValidTable t) (boundary : String) (forward backward service : ℚ) :
    ValidTable (t.observe boundary forward backward service) :=
  ⟨h.networkSlope, h.networkIntercept, h.stateSlope, h.stateIntercept, h.anchors⟩

theorem slopeFrom_nonneg {old : ℚ} (h : 0 ≤ old) (milliseconds : Option ℚ) (intercept volume : ℚ) :
    0 ≤ slopeFrom old milliseconds intercept volume := by
  unfold slopeFrom
  cases milliseconds with
  | none => exact h
  | some ms =>
    dsimp only
    split_ifs
    · exact le_max_right _ _
    · exact h

theorem ValidTable.observeLink {t : CostTable} (h : ValidTable t) (o : PlacementFeedback ℚ) (volume exchange : ℚ) :
    ValidTable (t.observeLink o volume exchange) :=
  ⟨slopeFrom_nonneg h.networkSlope .., h.networkIntercept, slopeFrom_nonneg h.stateSlope .., h.stateIntercept,
    h.anchors⟩

end Tables

/-- The catalog that `_catalog` keeps. -/
structure GoodCatalog (D : Deployment) : Prop where
  nonempty : D.candidates ≠ []
  distinct : (D.candidates.map (·.boundary)).Nodup
  oneGraph : (D.candidates.map fun c ↦ (c.graphSignature, c.frameworkBackend)).dedup.length = 1

def Deployment.catalog (D : Deployment) : Dict String SplitCandidateDescriptor :=
  .ofList (D.candidates.map fun c ↦ (c.boundary, c))

/-- What holds of a policy in any run of a deployment. -/
structure Inv (D : Deployment) (s : Policy) : Prop where
  catalog : s.catalogByBoundary.entries = [] ∨ s.catalogByBoundary = D.catalog ∧ GoodCatalog D
  profiles : ∀ p, s.profiles = some p → p = D.profiles
  tables : ∀ cid t, s.costTables.get? cid = some t → D.InUse cid ∧ ValidTable t
  saved : ∀ l t, s.savedTables.get? l = some t → ValidTable t
  assignments : ∀ k a, s.roundAssignments.get? k = some a → ∀ cid ∈ a.keys, D.InUse cid

section Preservation

variable {C : GreedyConfig} {normalize : String → String} {D : Deployment} {E : Environment} {s t : Policy}

theorem inv_fresh (filter : FeasibilityFilter) (pending : Option SavedState) : Inv D (.fresh filter pending) where
  catalog := .inl rfl
  profiles := by
    intro p h
    cases h
  tables := by
    intro cid t h
    cases h
  saved := by
    intro l t h
    cases h
  assignments := by
    intro k a h
    cases h

/-- A call keeps the invariant, raised or not. -/
def Keeps (D : Deployment) (s t : Policy) : Prop := Inv D s → Inv D t

instance : IsPreorder Policy (Keeps D) where
  refl _ := id
  trans _ _ _ h h' := h' ∘ h

/-- The fields the invariant speaks of are the same. -/
theorem keeps_of_fields (hk : t.catalogByBoundary = s.catalogByBoundary) (hp : t.profiles = s.profiles)
    (hc : t.costTables = s.costTables) (hs : t.savedTables = s.savedTables)
    (ha : t.roundAssignments = s.roundAssignments) : Keeps D s t := by
  intro h
  refine ⟨?_, ?_, ?_, ?_, ?_⟩
  · rw [hk]
    exact h.catalog
  · rw [hp]
    exact h.profiles
  · rw [hc]
    exact h.tables
  · rw [hs]
    exact h.saved
  · rw [ha]
    exact h.assignments

theorem Inv.storeTable (h : Inv D s) {cid : Cid} {t : CostTable} (hcid : D.InUse cid) (ht : ValidTable t) :
    Inv D (s.storeTable cid t) where
  catalog := h.catalog
  profiles := h.profiles
  saved := h.saved
  assignments := h.assignments
  tables := by
    intro cid' t' hget
    rw [Policy.storeTable, Dict.get?_insert] at hget
    split_ifs at hget with hc
    · cases hget
      exact hc ▸ ⟨hcid, ht⟩
    · exact h.tables cid' t' hget

theorem Inv.effectiveTable (h : Inv D s) {cid : Cid} {t : CostTable} (ht : effectiveTable E s cid = .ok t) :
    ValidTable t := by
  rw [GreedyPolicy.effectiveTable] at ht
  cases hc : s.costTables.get? cid with
  | some t' =>
    rw [hc] at ht
    cases ht
    exact (h.tables cid t hc).2
  | none =>
    rw [hc] at ht
    obtain ⟨props, -, ht⟩ := bind_eq_ok ht
    cases hs : s.savedTables.get? (props.logicalId cid) with
    | some t' =>
      rw [hs] at ht
      cases ht
      exact h.saved _ t hs
    | none =>
      rw [hs] at ht
      exact validTable_of_calibrated ht

theorem keeps_table {cid : Cid} (hcid : D.InUse cid) : Method.Respects (Keeps D) (table E cid) := by
  intro s h
  rw [Method.after, table_run]
  cases ht : GreedyPolicy.effectiveTable E s cid with
  | error e => exact h
  | ok t =>
    dsimp only
    rw [Policy.keepTable]
    cases s.costTables.get? cid with
    | some _ => exact h
    | none => exact h.storeTable hcid (h.effectiveTable ht)

theorem keeps_adopt (state : SavedState) : Method.Respects (Keeps D) (adopt C state) := by
  refine .bind_of_ok .get fun s u s' hu ↦ ?_
  cases hu
  cases hc : checkState C s state with
  | error e =>
    exact id
  | ok v =>
    intro h
    refine ⟨h.catalog, h.profiles, h.tables, fun l t hl ↦ ?_, h.assignments⟩
    rw [checkState] at hc
    cases hcat : s.sortedCatalog with
    | nil =>
      rw [hcat] at hc
      cases hc
    | cons first rest =>
      rw [hcat] at hc
      obtain ⟨_, -, hc⟩ := bind_eq_ok hc
      have hmem : t ∈ state.costTables.values := by
        refine (Dict.mem_values_iff _).mpr ⟨l, ?_⟩
        simpa [adopt, Method.after] using hl
      exact checkTable_iff.mp (forM_eq_ok_iff.mp hc t hmem)

theorem keeps_readCatalog (hE : Serves D E) : Method.Respects (Keeps D) (readCatalog C E) := by
  refine .lift_bind fun candidates hcandidates ↦ .require_bind fun hdistinct ↦ .require_bind fun hgraph ↦ ?_
  cases hE.candidates candidates hcandidates
  refine .bind (.modify fun s h ↦ ?_) fun _ ↦ .bind .get fun s ↦ ?_
  · exact ⟨.inr ⟨rfl, hdistinct.1, hdistinct.2, hgraph⟩, h.profiles, h.tables, h.saved, h.assignments⟩
  · cases s.pendingState with
    | none => exact .pure _
    | some pending =>
      exact .bind (.modify fun _ ↦ keeps_of_fields rfl rfl rfl rfl rfl) fun _ ↦ keeps_adopt pending

theorem keeps_catalog (hE : Serves D E) : Method.Respects (Keeps D) (catalog C E) := by
  refine .bind .get fun s ↦ ?_
  by_cases hs : s.catalogByBoundary.entries = []
  · rw [if_pos hs]
    exact .bind (keeps_readCatalog hE) fun _ ↦ .bind .get fun _ ↦ .pure _
  · rw [if_neg hs]
    exact .bind .get fun _ ↦ .pure _

theorem keeps_initializeReference (hE : Serves D E) : Method.Respects (Keeps D) (initializeReference E) := by
  refine .bind .get fun s ↦ ?_
  cases s.profiles with
  | some p => exact .pure _
  | none =>
    refine .lift_bind fun profiles hprofiles ↦ .modify fun s h ↦ ?_
    refine ⟨h.catalog, ?_, h.tables, h.saved, h.assignments⟩
    intro p hp
    cases hp
    exact hE.profiles profiles hprofiles

section Planning

variable {round : ℤ} {server : ServerContext} {cid : Cid}

theorem keeps_score (hcid : D.InUse cid) {c : SplitCandidateDescriptor} {batch count : ℤ}
    {context : Option NetworkContext} : Method.Respects (Keeps D) (score E cid c batch count context) :=
  .bind (keeps_table hcid) fun _ ↦ .bind .get fun _ ↦ .lift _

theorem keeps_front (hcid : D.InUse cid) {c : SplitCandidateDescriptor} :
    Method.Respects (Keeps D) (front E cid c) :=
  .bind (keeps_table hcid) fun _ ↦ .bind .get fun _ ↦ .lift _

theorem keeps_planClient (hE : Serves D E) (hcid : D.InUse cid) :
    Method.Respects (Keeps D) (planClient C E server round cid) := by
  refine .bind (.lift _) fun props ↦ .bind (.lift _) fun _ ↦ .bind ((keeps_catalog hE).map _) fun _ ↦
    .bind .get fun s ↦ .bind (.lift _) fun _ ↦ .bind (.lift _) fun context ↦
    .bind (.mapM fun c _ ↦ keeps_score hcid) fun scores ↦ ?_
  cases argmin (feasibleIn s cid round (capabilities props server)) scores with
  | none => exact .throw _
  | some chosen =>
    refine .bind (keeps_front hcid) fun frontend ↦ .bind .get fun _ ↦ .bind (.lift _) fun profile ↦
      .bind ?_ fun _ ↦ .pure _
    exact .modify fun _ ↦ keeps_of_fields rfl rfl rfl rfl rfl

theorem cid_of_planClient {p : ClientPlan} (h : (planClient C E server round cid).run s = .ok p t) :
    p.cid = cid := by
  obtain ⟨props, -, h⟩ := Method.lift_bind_eq_ok h
  obtain ⟨-, h⟩ := Method.require_bind_eq_ok h
  obtain ⟨_, u, -, h⟩ := Method.bind_eq_ok h
  rw [Method.get_bind_run] at h
  obtain ⟨-, h⟩ := Method.require_bind_eq_ok h
  obtain ⟨context, -, h⟩ := Method.lift_bind_eq_ok h
  obtain ⟨scores, v, -, h⟩ := Method.bind_eq_ok h
  cases hc : argmin (feasibleIn u cid round (capabilities props server)) scores with
  | none =>
    rw [hc] at h
    cases h
  | some chosen =>
    rw [hc] at h
    obtain ⟨frontend, v, -, h⟩ := Method.bind_eq_ok h
    rw [Method.get_bind_run] at h
    obtain ⟨profile, -, h⟩ := Method.lift_bind_eq_ok h
    cases h
    rfl

theorem cids_of_plans {cids : List Cid} {plans : List ClientPlan}
    (h : (cids.mapM (planClient C E server round)).run s = .ok plans t) : plans.map (·.cid) = cids := by
  induction cids generalizing s plans with
  | nil =>
    cases h
    rfl
  | cons cid cids ih =>
    obtain ⟨p, u, rest, hp, hrest, rfl⟩ := Method.mapM_cons_eq_ok h
    rw [List.map_cons, cid_of_planClient hp, ih hrest]

/-- The stored assignments name the clients of the cohort. -/
theorem Inv.recordRound (h : Inv D s) {plans : List ClientPlan} (hplans : ∀ cid ∈ plans.map (·.cid), D.InUse cid) :
    Inv D (recordRound C E server round plans s) where
  catalog := h.catalog
  profiles := h.profiles
  tables := h.tables
  saved := h.saved
  assignments := by
    intro k a hget cid hcid
    rw [GreedyPolicy.recordRound, Dict.get?_filterKeys] at hget
    split_ifs at hget
    rw [Dict.get?_insert] at hget
    split_ifs at hget with hk
    · cases hget
      obtain ⟨v, hv⟩ := (Dict.mem_keys_iff _).mp hcid
      obtain ⟨p, hp, he⟩ := List.mem_map.mp (Dict.mem_of_get?_ofList hv)
      cases he
      exact hplans p.cid (List.mem_map_of_mem hp)
    · exact h.assignments k a hget cid hcid

theorem keeps_planTraining (hE : Serves D E) {cids : List Cid} (hcids : ∀ cid ∈ cids, D.InUse cid) :
    Method.Respects (Keeps D) (planTraining C E round cids) := by
  refine .bind ((keeps_catalog hE).map _) fun _ ↦ .bind (keeps_initializeReference hE) fun _ ↦
    .lift_bind fun server _ ↦ .bind_of_ok (.mapM fun cid hcid ↦ keeps_planClient hE (hcids cid hcid)) ?_
  intro s plans t hplans h
  refine h.recordRound ?_
  rw [cids_of_plans hplans]
  exact hcids

theorem keeps_planRound (hE : Serves D E) {clientIds : List Cid} {training : Bool}
    (hids : ∀ cid ∈ clientIds, D.InUse cid) :
    Method.Respects (Keeps D) (planRound C E round clientIds training) := by
  rw [planRound]
  by_cases hnil : sortedSet clientIds = []
  · rw [if_pos hnil]
    exact .pure _
  · rw [if_neg hnil]
    refine .bind .get fun s ↦ ?_
    cases s.roundAssignments.get? (round, training) with
    | some cached => exact .bind (.lift _) fun _ ↦ .pure _
    | none =>
      dsimp only
      cases training with
      | true =>
        rw [if_pos rfl]
        exact keeps_planTraining hE fun cid hcid ↦ hids cid (mem_sortedSet.mp hcid)
      | false =>
        rw [if_neg Bool.false_ne_true, planEvaluation]
        refine .bind (.lift _) fun candidates ↦ ?_
        dsimp only
        split
        · exact .throw _
        · exact .bind .get fun _ ↦ .pure _

end Planning

section Observing

variable {round : ℤ} {o : PlacementFeedback ℚ}

theorem keeps_noteFeedback (cid : Cid) : Method.Respects (Keeps D) (noteFeedback round cid) := by
  refine .bind .get fun s ↦ ?_
  cases s.roundDiagnostics.get? round with
  | none => exact .throw _
  | some d => exact .modify fun _ ↦ keeps_of_fields rfl rfl rfl rfl rfl

theorem keeps_observeSuccess (hcid : D.InUse o.clientId) :
    Method.Respects (Keeps D) (observeSuccess E round o) := by
  refine .bind (.lift _) fun _ ↦ .bind .get fun s ↦ ?_
  cases s.catalogByBoundary.get? o.boundary with
  | none => exact .throw _
  | some candidate =>
    refine .bind_of_ok (keeps_table hcid) fun s t u ht ↦ ?_
    -- the table that is stored twice was valid when it was read
    intro h
    have hvalid : ValidTable t := by
      obtain ⟨heff, hu⟩ := table_eq_ok ht
      have heff' : GreedyPolicy.effectiveTable E u o.clientId = .ok t := by
        rw [hu, (sameView_keepTable heff).tables, heff]
      exact h.effectiveTable heff'
    refine Method.Respects.lift_bind (R := Keeps D) (fun costs _ ↦ ?_) u h
    obtain ⟨forward, backward, service⟩ := costs
    have hobserved := hvalid.observe candidate.boundary forward backward service
    refine .bind (.modify fun s h ↦ h.storeTable hcid hobserved) fun _ ↦ .bind (.lift _) fun batch ↦
      .bind .get fun s ↦ .bind (.lift _) fun v ↦ ?_
    exact .bind (.modify fun s h ↦ h.storeTable hcid (hobserved.observeLink o v.1 v.2)) fun _ ↦
      .bind (.modify fun s ↦ keeps_of_fields rfl rfl rfl rfl rfl) fun _ ↦ keeps_noteFeedback _

theorem keeps_observeOne : Method.Respects (Keeps D) (observeOne normalize E round o) := by
  refine .bind (.lift _) fun _ ↦ .bind_of_ok .get fun s u s' hu ↦ ?_
  cases hu
  intro h
  by_cases hk : actionKey o ∈ s.observedActions
  · rw [if_pos hk]
    exact h
  · rw [if_neg hk]
    refine Method.Respects.require_bind (R := Keeps D) (fun hplan ↦ ?_) s h
    cases o.success with
    | false => exact .modify fun _ ↦ keeps_of_fields rfl rfl rfl rfl rfl
    | true =>
      obtain ⟨a, ha, hcid⟩ := Option.bind_eq_some_iff.mp hplan
      exact keeps_observeSuccess (h.assignments _ a ha _ ((Dict.mem_keys_iff a).mpr ⟨_, hcid⟩))

theorem keeps_stateDict (hE : Serves D E) : Method.Respects (Keeps D) (stateDict C E) := by
  refine .bind .get fun s ↦ .bind (.lift _) fun _ ↦ .bind (keeps_catalog hE) fun l ↦ ?_
  cases l with
  | nil => exact .throw _
  | cons first rest => exact .bind .get fun _ ↦ .pure _

theorem keeps_observeFailure {cid : Cid} {boundary : Option String} {kind : String} {reason : Option String} :
    Method.Respects (Keeps D) (observeFailure normalize round cid boundary kind reason) :=
  .modify fun _ ↦ keeps_of_fields rfl rfl rfl rfl rfl

theorem keeps_observeRound (hE : Serves D E) (feedback : List (PlacementFeedback Reading)) :
    Method.Respects (Keeps D) (observeRound C normalize E round feedback) := by
  refine .bind (.lift _) fun observations ↦ .bind (.forM fun o _ ↦ keeps_observeOne) fun _ ↦ ?_
  rw [saveState]
  by_cases hC : C.savesState = true
  · rw [if_pos hC]
    exact .bind (keeps_stateDict hE) fun _ ↦ .modify fun _ ↦ keeps_of_fields rfl rfl rfl rfl rfl
  · rw [if_neg hC]
    exact .pure _

end Observing

/-- One call of a run. -/
inductive Step (C : GreedyConfig) (normalize : String → String) (D : Deployment) (s : Policy) : Policy → Prop
  | planRound (E : Environment) (round : ℤ) (clientIds : List Cid) (training : Bool) (hE : Serves D E)
      (hids : ∀ cid ∈ clientIds, D.InUse cid) :
      Step C normalize D s ((planRound C E round clientIds training).after s)
  | observeRound (E : Environment) (round : ℤ) (feedback : List (PlacementFeedback Reading)) (hE : Serves D E) :
      Step C normalize D s ((observeRound C normalize E round feedback).after s)
  | observeFailure (round : ℤ) (cid : Cid) (boundary : Option String) (kind : String) (reason : Option String) :
      Step C normalize D s ((observeFailure normalize round cid boundary kind reason).after s)

/-- The policies of the runs of a deployment, from any filter and any state of a warm start. -/
inductive Reachable (C : GreedyConfig) (normalize : String → String) (D : Deployment) : Policy → Prop
  | fresh (filter : FeasibilityFilter) (pending : Option SavedState) : Reachable C normalize D (.fresh filter pending)
  | step {s t : Policy} (hs : Reachable C normalize D s) (h : Step C normalize D s t) : Reachable C normalize D t

theorem inv_of_step (h : Step C normalize D s t) (hs : Inv D s) : Inv D t := by
  cases h with
  | planRound E round clientIds training hE hids => exact keeps_planRound hE hids s hs
  | observeRound E round feedback hE => exact keeps_observeRound hE feedback s hs
  | observeFailure round cid boundary kind reason => exact keeps_observeFailure s hs

theorem inv_of_reachable (h : Reachable C normalize D s) : Inv D s := by
  induction h with
  | fresh filter pending => exact inv_fresh filter pending
  | step _ h ih => exact inv_of_step h ih

end Preservation

section Document

variable {C : GreedyConfig} {D D' : Deployment} {E E' : Environment} {s : Policy}

/-- The tables that a document has: under the logical id of a client in use its own table, and else
what was restored before. -/
theorem tables_of_fold {l : List (Cid × CostTable)} {d tables : Dict String CostTable} (hE : Serves D E)
    (hl : ∀ p ∈ l, D.InUse p.1) (hnd : (l.map Prod.fst).Nodup)
    (h : l.foldlM (fun tables p ↦ do
      let props ← E.client p.1
      return tables.insert (props.logicalId p.1) p.2) d = .ok tables) :
    (∀ t, D.InUse t → tables.get? (D.logical t) = (Dict.lookup l t).or (d.get? (D.logical t))) ∧
      ∀ k v, tables.get? k = some v → (∃ p ∈ l, p.2 = v) ∨ d.get? k = some v := by
  induction l generalizing d with
  | nil =>
    cases h
    exact ⟨fun t _ ↦ rfl, fun k v hv ↦ .inr hv⟩
  | cons p l ih =>
    rw [List.foldlM_cons] at h
    obtain ⟨d', hd', h⟩ := bind_eq_ok h
    obtain ⟨props, hprops, hd'⟩ := bind_eq_ok hd'
    cases hd'
    rw [List.map_cons, List.nodup_cons] at hnd
    have hp := hl p List.mem_cons_self
    rw [hE.logical p.1 hp props hprops] at h
    obtain ⟨hget, hval⟩ := ih (fun q hq ↦ hl q (List.mem_cons_of_mem p hq)) hnd.2 h
    refine ⟨fun t ht ↦ ?_, fun k v hv ↦ ?_⟩
    · rw [hget t ht, Dict.get?_insert]
      by_cases hpt : p.1 = t
      · subst hpt
        rw [Dict.lookup_eq_none_iff.mpr hnd.1, if_pos rfl]
        simp [Dict.lookup]
      · have hne : D.logical p.1 ≠ D.logical t := fun he ↦ hpt (D.injective p.1 hp t ht he)
        rw [if_neg hne]
        simp [Dict.lookup, hpt]
    · rcases hval k v hv with ⟨q, hq, hqv⟩ | hv
      · exact .inl ⟨q, List.mem_cons_of_mem p hq, hqv⟩
      · rw [Dict.get?_insert] at hv
        split_ifs at hv
        · exact .inl ⟨p, List.mem_cons_self, Option.some.inj hv⟩
        · exact .inr hv

theorem mem_costTables (hs : Inv D s) {p : Cid × CostTable} (hp : p ∈ s.costTables.entries) :
    D.InUse p.1 ∧ ValidTable p.2 :=
  hs.tables p.1 p.2 ((Dict.get?_eq_some_iff _).mpr hp)

/-- The tables of a document, for the clients in use. -/
theorem tables_of_document (hE : Serves D E) (hs : Inv D s) {tables : Dict String CostTable}
    (h : tablesByLogicalId E s = .ok tables) :
    (∀ t, D.InUse t → tables.get? (D.logical t) = (s.costTables.get? t).or (s.savedTables.get? (D.logical t))) ∧
      ∀ v ∈ tables.values, ValidTable v := by
  obtain ⟨hget, hval⟩ := tables_of_fold hE (fun p hp ↦ (mem_costTables hs hp).1) s.costTables.nodup h
  refine ⟨hget, fun v hv ↦ ?_⟩
  obtain ⟨k, hk⟩ := (Dict.mem_values_iff _).mp hv
  rcases hval k v hk with ⟨p, hp, rfl⟩ | hv
  · exact (mem_costTables hs hp).2
  · exact hs.saved k v hv

theorem checkState_iff {state : SavedState} : checkState C s state = .ok () ↔
    ∃ first rest, s.sortedCatalog = first :: rest ∧ state.identity = identityOf C first ∧
      ∀ v ∈ state.costTables.values, ValidTable v := by
  rw [checkState]
  cases hc : s.sortedCatalog with
  | nil =>
    constructor
    · intro h
      cases h
    · rintro ⟨first, rest, h, -⟩
      cases h
  | cons first rest =>
    dsimp only
    constructor
    · intro h
      obtain ⟨_, hid, h⟩ := bind_eq_ok h
      exact ⟨first, rest, rfl, of_require hid, fun v hv ↦ checkTable_iff.mp (forM_eq_ok_iff.mp h v hv)⟩
    · rintro ⟨first', rest', h, hid, hv⟩
      cases h
      rw [require_of hid, ok_bind]
      exact forM_eq_ok_iff.mpr fun v hv' ↦ checkTable_iff.mpr (hv v hv')

theorem adopt_run {state : SavedState} (h : checkState C s state = .ok ()) :
    (adopt C state).run s = .ok () { s with
      savedTables := state.costTables
      feasibilityFilter := s.feasibilityFilter.loadStateDict state.feasibility
      stateRestored := true } := by
  rw [adopt, Method.get_bind_run, h]
  rfl

/-- Reading the catalog of a policy that waits for no saved state leaves the filter as it is. -/
theorem filter_of_catalog {l : List SplitCandidateDescriptor} {s' : Policy} (hp : s.pendingState = none)
    (h : (catalog C E).run s = .ok l s') : s'.feasibilityFilter = s.feasibilityFilter := by
  by_cases hs : s.Loaded
  · rw [catalog_run_of_loaded hs] at h
    cases h
    rfl
  · rw [catalog, Method.get_bind_run, if_pos (not_not.mp hs)] at h
    obtain ⟨_, u, hu, h⟩ := Method.bind_eq_ok h
    cases h
    obtain ⟨candidates, -, hu⟩ := Method.lift_bind_eq_ok hu
    obtain ⟨-, hu⟩ := Method.require_bind_eq_ok hu
    obtain ⟨-, hu⟩ := Method.require_bind_eq_ok hu
    rw [Method.modify_bind_run, Method.get_bind_run] at hu
    dsimp only at hu
    rw [hp] at hu
    cases hu
    rfl

/-- A document that `load_state_dict` accepts in this deployment. -/
def Accepts (C : GreedyConfig) (D : Deployment) (state : SavedState) : Prop :=
  ∃ first rest, sortedBy position D.catalog.values = first :: rest ∧ state.identity = identityOf C first ∧
    ∀ v ∈ state.costTables.values, ValidTable v

theorem checkState_of_accepts {state : SavedState} (hs : s.catalogByBoundary = D.catalog)
    (h : Accepts C D state) : checkState C s state = .ok () := by
  obtain ⟨first, rest, hsorted, hrest⟩ := h
  rw [← hs] at hsorted
  exact checkState_iff.mpr ⟨first, rest, hsorted, hrest⟩

/-- The policy that has loaded a document into a new one. -/
def restored (D : Deployment) (filter : FeasibilityFilter) (pending : Option SavedState) (state : SavedState) :
    Policy :=
  { Policy.fresh filter pending with
    catalogByBoundary := D.catalog
    pendingState := none
    savedTables := state.costTables
    feasibilityFilter := filter.loadStateDict state.feasibility
    stateRestored := true }

theorem loadStateDict_run {filter : FeasibilityFilter} {pending : Option SavedState} {state : SavedState}
    (hgood : GoodCatalog D) (hE : E.candidates true = .ok D.candidates) (hstate : Accepts C D state)
    (hpending : ∀ p, pending = some p → Accepts C D p) :
    (loadStateDict C E state).run (.fresh filter pending) = .ok () (restored D filter pending state) := by
  have hread : (readCatalog C E).run (.fresh filter pending) =
      match pending with
      | none => .ok () { Policy.fresh filter pending with catalogByBoundary := D.catalog }
      | some p => (adopt C p).run
        { Policy.fresh filter pending with catalogByBoundary := D.catalog, pendingState := none } := by
    rw [readCatalog, hE, Method.ok_bind_run, require_of ⟨hgood.nonempty, hgood.distinct⟩, Method.ok_bind_run,
      require_of hgood.oneGraph, Method.ok_bind_run, Method.modify_bind_run, Method.get_bind_run]
    cases pending <;> rfl
  have hcatalog : ∃ u, (readCatalog C E).run (.fresh filter pending) = .ok () u ∧
      u.catalogByBoundary = D.catalog ∧
      (adopt C state).run u = .ok () (restored D filter pending state) := by
    cases pending with
    | none =>
      refine ⟨_, hread, rfl, ?_⟩
      rw [adopt_run (checkState_of_accepts rfl hstate)]
      rfl
    | some p =>
      refine ⟨_, hread.trans (adopt_run (checkState_of_accepts rfl (hpending p rfl))), rfl, ?_⟩
      rw [adopt_run (checkState_of_accepts rfl hstate)]
      rfl
  obtain ⟨u, hu, -, hadopt⟩ := hcatalog
  have hrun : (catalog C E).run (.fresh filter pending) = .ok u.sortedCatalog u := by
    have hnil : (Policy.fresh filter pending).catalogByBoundary.entries = [] := rfl
    rw [catalog, Method.get_bind_run, if_pos hnil, Method.run_bind_of_ok hu]
    rfl
  rw [loadStateDict, Method.run_bind_of_ok (Method.run_discard_of_ok hrun)]
  exact hadopt

/-- What a document says of the policy it was written by. -/
theorem document_eq {state : SavedState} {s' : Policy} (hE : Serves D E) (hs : Inv D s)
    (hpending : s.pendingState = none) (h : (stateDict C E).run s = .ok state s') :
    GoodCatalog D ∧ Accepts C D state ∧ state.feasibility = s.feasibilityFilter.stateDict ∧
      ∀ t, D.InUse t →
        state.costTables.get? (D.logical t) = (s.costTables.get? t).or (s.savedTables.get? (D.logical t)) := by
  obtain ⟨tables, first, rest, htables, hcatalog, rfl⟩ := stateDict_eq_ok h
  obtain ⟨hget, hvalid⟩ := tables_of_document hE hs htables
  have hs' : Inv D s' := (keeps_catalog hE).of_ok hcatalog hs
  obtain ⟨hloaded, hsorted⟩ := loaded_of_catalog_eq_ok hcatalog
  obtain ⟨hcat, hgood⟩ := hs'.catalog.resolve_left hloaded
  have hfilter := filter_of_catalog hpending hcatalog
  rw [Policy.sortedCatalog, hcat] at hsorted
  exact ⟨hgood, ⟨first, rest, hsorted.symm, rfl, hvalid⟩, congrArg FeasibilityFilter.stateDict hfilter, hget⟩

/-- A restored policy writes the document it was restored from. -/
theorem stateDict_restored {filter g : FeasibilityFilter} {pending : Option SavedState} {state : SavedState}
    (hstate : Accepts C D state) (hfeas : state.feasibility = g.stateDict) :
    (stateDict C E).run (restored D filter pending state) = .ok state (restored D filter pending state) := by
  obtain ⟨first, rest, hsorted, hid, -⟩ := hstate
  have hloaded : (restored D filter pending state).Loaded := by
    rw [Policy.Loaded]
    intro hnil
    have : D.catalog.values = [] := congrArg (List.map Prod.snd) hnil
    rw [this] at hsorted
    cases hsorted
  have htables : tablesByLogicalId E (restored D filter pending state) = .ok state.costTables := rfl
  rw [stateDict, Method.get_bind_run, htables, Method.ok_bind_run, Method.run_bind_of_ok (catalog_run_of_loaded hloaded)]
  have hl : (restored D filter pending state).sortedCatalog = first :: rest := hsorted
  rw [hl]
  dsimp only
  rw [Method.get_bind_run]
  have hfilter : (restored D filter pending state).feasibilityFilter.stateDict = state.feasibility := by
    rw [hfeas]
    exact (congrArg (fun f ↦ (filter.loadStateDict f).stateDict) hfeas).trans
      (FeasibilityFilter.stateDict_loadStateDict filter g)
  rw [hfilter, ← hid]
  rfl

end Document

section Scores

variable {E E' : Environment} {profiles : Option Profiles}

theorem scoreWith_congr (h : E'.stateDownloadBytes = E.stateDownloadBytes) (t : CostTable)
    (c : SplitCandidateDescriptor) (batch count : ℤ) (context : Option NetworkContext) :
    scoreWith E' profiles t c batch count context = scoreWith E profiles t c batch count context := by
  have hpayload : payloadVolumes E' profiles c batch = payloadVolumes E profiles c batch := by
    rw [payloadVolumes, h, payloadVolumes]
  have htransport : transportCost E' profiles c t batch context = transportCost E profiles c t batch context := by
    cases context with
    | none => rw [transportCost, volumes, hpayload, transportCost, volumes]
    | some context => rw [transportCost, liveNetworkCost, hpayload, transportCost, liveNetworkCost]
  rw [scoreWith, htransport, scoreWith]

theorem calibratedTable_congr (h : E'.receipt = E.receipt) (logical : String) :
    calibratedTable E' profiles logical = calibratedTable E profiles logical := by
  rw [calibratedTable, h, calibratedTable]

/-- `_score` as `plan_round` calls it. -/
def plannedScore (E : Environment) (cid : Cid) (c : SplitCandidateDescriptor) (batch count : ℤ)
    (context : Option NetworkContext) : Method Policy ℚ := do
  initializeReference E
  score E cid c batch count context

variable {D : Deployment} {s : Policy}

theorem initializeReference_run (hE : E.workloadFeatures = .ok D.profiles) (hs : Inv D s) :
    (initializeReference E).run s = .ok () { s with profiles := some D.profiles } := by
  rw [initializeReference, Method.get_bind_run]
  cases hp : s.profiles with
  | none =>
    rw [hE]
    rfl
  | some p =>
    cases hs.profiles p hp
    have hsame : ({ s with profiles := some D.profiles } : Policy) = s := by rw [← hp]
    rw [hsame]
    rfl

/-- The score of a client that the telemetry knows: from its own table, from a restored one, or from
the calibration. -/
theorem plannedScore_value (hE : E.workloadFeatures = .ok D.profiles) (hs : Inv D s) {cid : Cid}
    {props : ClientContext} (hprops : E.client cid = .ok props) (c : SplitCandidateDescriptor) (batch count : ℤ)
    (context : Option NetworkContext) :
    (plannedScore E cid c batch count context).value s =
      ((match (s.costTables.get? cid).or (s.savedTables.get? (props.logicalId cid)) with
        | some t => .ok t
        | none => calibratedTable E (some D.profiles) (props.logicalId cid)) >>= fun t ↦
          scoreWith E (some D.profiles) t c batch count context) := by
  rw [plannedScore, Method.value_bind_of_ok (initializeReference_run hE hs)]
  have htable : effectiveTable E { s with profiles := some D.profiles } cid =
      match (s.costTables.get? cid).or (s.savedTables.get? (props.logicalId cid)) with
      | some t => .ok t
      | none => calibratedTable E (some D.profiles) (props.logicalId cid) := by
    rw [effectiveTable, hprops]
    dsimp only
    cases s.costTables.get? cid with
    | some t => rfl
    | none => cases hsaved : s.savedTables.get? (props.logicalId cid) <;> simp [hsaved]
  rw [← htable, Method.value]
  cases ht : effectiveTable E { s with profiles := some D.profiles } cid with
  | error e =>
    rw [score_run_error ht]
    rfl
  | ok t =>
    rw [score_run ht, ok_bind]
    dsimp only
    cases scoreWith E (some D.profiles) t c batch count context <;> rfl

end Scores

section Verdicts

variable (f : FeasibilityFilter) (c : SplitCandidateDescriptor) (cid cid' : Cid)

/-- Why a cut is barred from a client for good, in the client's own rows or else for everyone. -/
def barReason (f : FeasibilityFilter) (c : SplitCandidateDescriptor) (cid : Cid) : Option String :=
  match f.invalidClientBoundaries.get? (cid, c.boundary) with
  | some reason => some reason
  | none => if c.trainable then none else some "candidate_not_trainable"

/-- The checks that depend on the round and on the limits. -/
def limits (f : FeasibilityFilter) (c : SplitCandidateDescriptor) (cooldown : ℤ) (demand : Option ℤ) (round : ℤ)
    (values : Capabilities) : FeasibilityResult :=
  if !abiAllowed c values then ⟨false, some "feature_abi_mismatch"⟩
  else if round ≤ cooldown then ⟨false, some "temporary_failure_cooldown"⟩
  else if exceeds demand values.clientMemoryBytes then ⟨false, some "client_memory_limit"⟩
  else if exceeds (f.serverDemand c) values.serverMemoryBytes then ⟨false, some "server_memory_limit"⟩
  else ⟨true, none⟩

theorem check_eq (round : ℤ) (values : Capabilities) : f.check c cid round values =
    if !c.valid then ⟨false, some (validationReason c)⟩
    else match f.invalidBoundaries.get? c.boundary with
    | some reason => ⟨false, some reason⟩
    | none =>
      match barReason f c cid with
      | some reason => ⟨false, some reason⟩
      | none => limits f c (f.cooldownOf cid c.boundary) (f.clientDemand cid c) round values := by
  rw [FeasibilityFilter.check, barReason]
  cases c.valid with
  | false => rfl
  | true =>
    cases f.invalidBoundaries.get? c.boundary with
    | some reason => rfl
    | none =>
      cases f.invalidClientBoundaries.get? (cid, c.boundary) with
      | some reason => rfl
      | none => cases c.trainable <;> rfl

/-- After the cooldown, with a limit on the memory of the client alone. -/
theorem limits_clientLimit {cooldown round : ℤ} (demand limit : Option ℤ) (h : cooldown < round) :
    limits f c cooldown demand round ⟨none, limit, none⟩ =
      if exceeds demand limit then ⟨false, some "client_memory_limit"⟩ else ⟨true, none⟩ := by
  have hserver : exceeds (f.serverDemand c) none = false := by cases f.serverDemand c <;> rfl
  rw [limits, if_neg (by simp [abiAllowed]), if_neg (not_le.mpr h)]
  dsimp only
  rw [hserver]
  rfl

/-- No limit at all. -/
def unlimited : Capabilities := ⟨none, none, none⟩

theorem limits_unlimited {cooldown round : ℤ} (demand : Option ℤ) (h : cooldown < round) :
    limits f c cooldown demand round unlimited = ⟨true, none⟩ := by
  rw [unlimited, limits_clientLimit f c demand none h]
  cases demand <;> rfl

/-- The verdicts tell the end of the cooldown and the memory demand. -/
theorem limits_eq_iff {cooldown cooldown' : ℤ} {demand demand' : Option ℤ} :
    (∀ round values, limits f c cooldown' demand' round values = limits f c cooldown demand round values) ↔
      cooldown' = cooldown ∧ demand' = demand := by
  constructor
  · intro h
    have hreason : ∀ {a b : ℤ} {d d' : Option ℤ}, a < b →
        limits f c b d b unlimited ≠ limits f c a d' b unlimited := by
      intro a b d d' hab he
      rw [limits_unlimited f c d' hab, limits, unlimited, if_neg (by simp [abiAllowed]), if_pos le_rfl] at he
      cases he
    refine ⟨?_, ?_⟩
    · rcases lt_trichotomy cooldown' cooldown with hlt | heq | hlt
      · exact absurd (h cooldown unlimited).symm (hreason hlt)
      · exact heq
      · exact absurd (h cooldown' unlimited) (hreason hlt)
    · have hexceeds : ∀ l, exceeds demand' (some l) = exceeds demand (some l) := by
        intro l
        have hl := h (max cooldown cooldown' + 1) ⟨none, some l, none⟩
        rw [limits_clientLimit f c _ _ (by omega), limits_clientLimit f c _ _ (by omega)] at hl
        cases hd' : exceeds demand' (some l) with
        | true =>
          cases hd : exceeds demand (some l) with
          | true => rfl
          | false => rw [hd', hd] at hl; cases hl
        | false =>
          cases hd : exceeds demand (some l) with
          | true => rw [hd', hd] at hl; cases hl
          | false => rfl
      cases demand' with
      | none =>
        cases demand with
        | none => rfl
        | some d =>
          have := hexceeds (d - 1)
          simp [exceeds] at this
      | some d' =>
        cases demand with
        | none =>
          have := hexceeds (d' - 1)
          simp [exceeds] at this
        | some d =>
          have h₁ := hexceeds (d' - 1)
          have h₂ := hexceeds (d - 1)
          simp only [exceeds, decide_eq_decide] at h₁ h₂
          rw [Option.some_inj]
          omega
  · rintro ⟨rfl, rfl⟩ round values
    rfl

/-- The rows of a filter say the same of a cut for two client ids. -/
structure SameRows (f : FeasibilityFilter) (c : SplitCandidateDescriptor) (cid cid' : Cid) : Prop where
  bar : barReason f c cid' = barReason f c cid
  cooldown : barReason f c cid = none → f.cooldownOf cid' c.boundary = f.cooldownOf cid c.boundary
  demand : barReason f c cid = none → f.clientDemand cid' c = f.clientDemand cid c

/-- Two client ids get the same verdicts on a cut exactly where the cut is barred from everyone or the
rows say the same of both. -/
theorem check_eq_iff : (∀ round values, f.check c cid' round values = f.check c cid round values) ↔
    (c.valid = true → f.invalidBoundaries.get? c.boundary = none → SameRows f c cid cid') := by
  constructor
  · intro h hv hb
    have hcheck : ∀ round values,
        (match barReason f c cid' with
          | some reason => (⟨false, some reason⟩ : FeasibilityResult)
          | none => limits f c (f.cooldownOf cid' c.boundary) (f.clientDemand cid' c) round values) =
        match barReason f c cid with
          | some reason => ⟨false, some reason⟩
          | none => limits f c (f.cooldownOf cid c.boundary) (f.clientDemand cid c) round values := by
      intro round values
      have hr := h round values
      rw [check_eq, check_eq, hv, hb] at hr
      exact hr
    cases hbar : barReason f c cid with
    | some reason =>
      cases hbar' : barReason f c cid' with
      | some reason' =>
        have hr := hcheck 0 unlimited
        rw [hbar, hbar'] at hr
        cases hr
        have hbarred : barReason f c cid ≠ none := by
          rw [hbar]
          exact Option.some_ne_none _
        exact ⟨hbar'.trans hbar.symm, fun hn ↦ absurd hn hbarred, fun hn ↦ absurd hn hbarred⟩
      | none =>
        have hr := hcheck (f.cooldownOf cid' c.boundary + 1) unlimited
        rw [hbar, hbar'] at hr
        dsimp only at hr
        rw [limits_unlimited f c _ (lt_add_one _)] at hr
        cases hr
    | none =>
      cases hbar' : barReason f c cid' with
      | some reason' =>
        have hr := hcheck (f.cooldownOf cid c.boundary + 1) unlimited
        rw [hbar, hbar'] at hr
        dsimp only at hr
        rw [limits_unlimited f c _ (lt_add_one _)] at hr
        cases hr
      | none =>
        simp only [hbar, hbar'] at hcheck
        obtain ⟨hcool, hdem⟩ := (limits_eq_iff f c).mp hcheck
        exact ⟨hbar'.trans hbar.symm, fun _ ↦ hcool, fun _ ↦ hdem⟩
  · intro h round values
    rw [check_eq, check_eq]
    cases hv : c.valid with
    | false => rfl
    | true =>
      cases hb : f.invalidBoundaries.get? c.boundary with
      | some reason => rfl
      | none =>
        obtain ⟨hbar, hcool, hdem⟩ := h hv hb
        rw [hbar]
        cases hr : barReason f c cid with
        | some reason => rfl
        | none => rw [hcool hr, hdem hr]

end Verdicts

section Restore

variable {C : GreedyConfig} {normalize : String → String} {D D' : Deployment} {E E' : Environment}

/-- A client under its transport ids in two deployments. -/
structure SameClient (D D' : Deployment) (cid cid' : Cid) : Prop where
  inUse : D.InUse cid
  inUse' : D'.InUse cid'
  logical : D'.logical cid' = D.logical cid

/-- The telemetry of two calls knows the client, and says the same but for the transport ids. -/
structure SameTelemetry (D D' : Deployment) (E E' : Environment) (cid cid' : Cid) : Prop where
  serves : Serves D E
  serves' : Serves D' E'
  profiles : E.workloadFeatures = .ok D.profiles
  profiles' : E'.workloadFeatures = .ok D'.profiles
  client : ∃ props, E.client cid = .ok props
  client' : ∃ props, E'.client cid' = .ok props
  receipt : E'.receipt = E.receipt
  stateDownloadBytes : E'.stateDownloadBytes = E.stateDownloadBytes

/-- The document of `s` gives back `s`: a new policy loads it, writes it, and from then on scores and
judges as `s` does, for every logical client, cut and round. -/
structure Restores (C : GreedyConfig) (D D' : Deployment) (s : Policy) (state : SavedState) (E' : Environment)
    (filter : FeasibilityFilter) (pending : Option SavedState) (t : Policy) : Prop where
  loads : (loadStateDict C E' state).run (.fresh filter pending) = .ok () t
  saves : ∀ E'', (stateDict C E'').run t = .ok state t
  scores : ∀ cid cid', SameClient D D' cid cid' → ∀ E₁ E₂, SameTelemetry D D' E₁ E₂ cid cid' →
    ∀ c batch count context, (plannedScore E₂ cid' c batch count context).value t =
      (plannedScore E₁ cid c batch count context).value s
  verdicts : ∀ cid cid', SameClient D D' cid cid' → ∀ c ∈ D.candidates, ∀ round values,
    t.feasibilityFilter.check c cid' round values = s.feasibilityFilter.check c cid round values

/-- For every client and every cut that is not barred from everyone, the rows of the filter say the
same under both transport ids. -/
def RowsCarry (f : FeasibilityFilter) (D D' : Deployment) : Prop :=
  ∀ cid cid', SameClient D D' cid cid' → ∀ c ∈ D.candidates, c.valid = true →
    f.invalidBoundaries.get? c.boundary = none → SameRows f c cid cid'

theorem inv_restored {filter : FeasibilityFilter} {pending : Option SavedState} {state : SavedState}
    (hgood : GoodCatalog D') (hstate : Accepts C D' state) : Inv D' (restored D' filter pending state) where
  catalog := .inr ⟨rfl, hgood⟩
  profiles := by
    intro p h
    cases h
  tables := by
    intro cid t h
    cases h
  saved := by
    intro l t h
    obtain ⟨first, rest, -, -, hvalid⟩ := hstate
    exact hvalid t ((Dict.mem_values_iff _).mpr ⟨l, h⟩)
  assignments := by
    intro k a h
    cases h

section Document

variable {s s' : Policy} {state : SavedState} {filter : FeasibilityFilter} {pending : Option SavedState}

theorem check_restored (hfeas : state.feasibility = s.feasibilityFilter.stateDict) (c : SplitCandidateDescriptor)
    (cid : Cid) (round : ℤ) (values : Capabilities) :
    (restored D' filter pending state).feasibilityFilter.check c cid round values =
      s.feasibilityFilter.check c cid round values := by
  rw [← FeasibilityFilter.check_loadStateDict filter s.feasibilityFilter, ← hfeas]
  rfl

/-- A document is loaded by a new policy in any deployment of the same catalog. -/
theorem loads_document (hs : Inv D s) (hE : Serves D E) (hdoc : (stateDict C E).run s = .ok state s')
    (hnone : s.pendingState = none) (hcand : D'.candidates = D.candidates)
    (hE' : E'.candidates true = .ok D'.candidates) (hpending : ∀ p, pending = some p → Accepts C D' p) :
    GoodCatalog D' ∧ Accepts C D' state ∧
      (loadStateDict C E' state).run (.fresh filter pending) = .ok () (restored D' filter pending state) := by
  obtain ⟨hgood, haccepts, -, -⟩ := document_eq hE hs hnone hdoc
  have hgood' : GoodCatalog D' := by
    obtain ⟨hne, hnd, hone⟩ := hgood
    constructor <;> rwa [hcand]
  have haccepts' : Accepts C D' state := by
    rw [Accepts, Deployment.catalog, hcand]
    exact haccepts
  exact ⟨hgood', haccepts', loadStateDict_run hgood' hE' haccepts' hpending⟩

end Document

/-- A run in one deployment, its document, and a new policy in another deployment of the same catalog
with the same logical clients: the document, the tables and the scores always come back, and the
verdicts exactly where the rows of the filter, which are stored by transport id, say the same under
the new ids. -/
theorem restores_iff {s s' : Policy} {state : SavedState} {filter : FeasibilityFilter}
    {pending : Option SavedState} (hreach : Reachable C normalize D s) (hE : Serves D E)
    (hdoc : (stateDict C E).run s = .ok state s') (hnone : s.pendingState = none)
    (hcand : D'.candidates = D.candidates) (hprof : D'.profiles = D.profiles)
    (hE' : E'.candidates true = .ok D'.candidates) (hpending : ∀ p, pending = some p → Accepts C D' p) :
    (∃ t, Restores C D D' s state E' filter pending t) ↔ RowsCarry s.feasibilityFilter D D' := by
  have hs := inv_of_reachable hreach
  obtain ⟨-, -, hfeas, hget⟩ := document_eq hE hs hnone hdoc
  obtain ⟨hgood', haccepts', hload⟩ :=
    @loads_document C D D' E E' s s' state filter pending hs hE hdoc hnone hcand hE' hpending
  constructor
  · rintro ⟨t, ht⟩ cid cid' hsame c hc
    cases hload.symm.trans ht.loads
    refine (check_eq_iff s.feasibilityFilter c cid cid').mp fun round values ↦ ?_
    rw [← check_restored hfeas]
    exact ht.verdicts cid cid' hsame c hc round values
  · intro hrows
    refine ⟨_, hload, fun E'' ↦ stateDict_restored haccepts' hfeas, ?_, ?_⟩
    · intro cid cid' hsame E₁ E₂ htel c batch count context
      obtain ⟨props, hprops⟩ := htel.client
      obtain ⟨props', hprops'⟩ := htel.client'
      rw [plannedScore_value htel.profiles' (inv_restored hgood' haccepts') hprops',
        plannedScore_value htel.profiles hs hprops, htel.serves'.logical cid' hsame.inUse' props' hprops',
        htel.serves.logical cid hsame.inUse props hprops, hsame.logical, hprof,
        calibratedTable_congr htel.receipt]
      have hsaved : ((restored D' filter pending state).costTables.get? cid').or
          ((restored D' filter pending state).savedTables.get? (D.logical cid)) =
          (s.costTables.get? cid).or (s.savedTables.get? (D.logical cid)) := hget cid hsame.inUse
      rw [hsaved]
      refine congrArg _ (funext fun t ↦ ?_)
      exact scoreWith_congr htel.stateDownloadBytes t c batch count context
    · intro cid cid' hsame c hc round values
      rw [check_restored hfeas]
      exact (check_eq_iff s.feasibilityFilter c cid cid').mpr (hrows cid cid' hsame c hc) round values

end Restore

section Sample

def sampleProfiles : Profiles := .ofList [("late", ⟨3 / 4, 1000⟩)]

/-- One client, whose transport id is `cid` and whose logical id is `a`. -/
def sampleDeployment (cid : Cid) : Deployment where
  candidates := [sampleCut]
  profiles := sampleProfiles
  InUse := fun t ↦ t = cid
  logical := fun _ ↦ "a"
  injective := fun _ ht _ hu _ ↦ ht.trans hu.symm

theorem serves_sample (cid : Cid) : Serves (sampleDeployment cid) sampleEnvironment where
  candidates := by
    intro l h
    cases h
    rfl
  profiles := by
    intro p h
    cases h
    rfl
  logical := by
    intro t _ props h
    cases h
    rfl

theorem reachable_sample :
    Reachable sampleConfig id (sampleDeployment "x")
      ((planRound sampleConfig sampleEnvironment 1 ["x"] true).after samplePolicy) :=
  .step (.fresh _ _) (.planRound sampleEnvironment 1 ["x"] true (serves_sample "x") fun _ h ↦ List.mem_singleton.mp h)

/-- A policy that has planned a round, restored under another transport id. -/
theorem restores_iff_sample : ∃ s s' state, (stateDict sampleConfig sampleEnvironment).run s = .ok state s' ∧
    ((∃ t, Restores sampleConfig (sampleDeployment "x") (sampleDeployment "y") s state sampleEnvironment
      (.fresh 3 (by decide)) none t) ↔
      RowsCarry s.feasibilityFilter (sampleDeployment "x") (sampleDeployment "y")) := by
  have hdoc : (stateDict sampleConfig sampleEnvironment).run
      ((planRound sampleConfig sampleEnvironment 1 ["x"] true).after samplePolicy) = .ok _ _ := rfl
  refine ⟨_, _, _, hdoc, ?_⟩
  exact restores_iff reachable_sample (serves_sample "x") hdoc rfl rfl rfl rfl fun p h ↦ by cases h

/-- The client's cut has failed. -/
def cooledPolicy : Policy :=
  (observeFailure id 1 "x" (some "late") "runtime" none).after
    ((planRound sampleConfig sampleEnvironment 1 ["x"] true).after samplePolicy)

/-- The cooldown is stored under the transport id, and a restored policy that knows the client by
another one does not find it. -/
theorem cooldown_lost : ¬ ∀ (C : GreedyConfig) (normalize : String → String) (D D' : Deployment)
    (E E' : Environment) (s s' : Policy) (state : SavedState) (filter : FeasibilityFilter),
    Reachable C normalize D s → Serves D E → (stateDict C E).run s = .ok state s' →
    D'.candidates = D.candidates → D'.profiles = D.profiles → E'.candidates true = .ok D'.candidates →
      ∃ t, Restores C D D' s state E' filter none t := by
  intro hall
  have hdoc : (stateDict sampleConfig sampleEnvironment).run cooledPolicy = .ok _ _ := rfl
  have hreach : Reachable sampleConfig id (sampleDeployment "x") cooledPolicy :=
    reachable_sample.step (.observeFailure 1 "x" (some "late") "runtime" none)
  obtain ⟨t, ht⟩ := hall _ _ _ (sampleDeployment "y") _ sampleEnvironment _ _ _ (.fresh 3 (by decide))
    hreach (serves_sample "x") hdoc rfl rfl rfl
  have hs := inv_of_reachable hreach
  have hnone : ∀ p, (none : Option SavedState) = some p → Accepts sampleConfig (sampleDeployment "y") p := by
    intro p h
    cases h
  have hcand : sampleEnvironment.candidates true = .ok (sampleDeployment "y").candidates := rfl
  obtain ⟨-, -, hload⟩ := loads_document hs (serves_sample "x") hdoc rfl rfl hcand hnone
  cases hload.symm.trans ht.loads
  have hv := ht.verdicts "x" "y" ⟨rfl, rfl, rfl⟩ sampleCut List.mem_cons_self 1 ⟨none, none, none⟩
  rw [check_restored (document_eq (serves_sample "x") hs rfl hdoc).2.2.1] at hv
  exact absurd hv (by decide)

end Sample

end SplitFleet.GreedyPolicy
