import SplitFleet.CostTables
import SplitFleet.Lib.Lists

set_option autoImplicit false

namespace SplitFleet.GreedyPolicy

open Lib Feasibility Feedback

variable {C : GreedyConfig} {E : Environment}

/-- The choice for one client, read off a state. -/
def choice (E : Environment) (server : ServerContext) (round : ℤ) (s : Policy) (cid : Cid) :
    Except PyError (SplitCandidateDescriptor × ℚ) := do
  let props ← E.client cid
  let feasible := feasibleIn s cid round (capabilities props server)
  let context ← E.network cid round
  let t ← effectiveTable E s cid
  let scores ← feasible.mapM fun c ↦
    scoreWith E s.profiles t c (props.batchSize.getD 0) (props.numBatches.getD 0) context
  match argmin feasible scores with
  | none => .error (.valueError "attempt to get argmin of an empty sequence")
  | some chosen => return chosen

section Client

variable {s t : Policy} {server : ServerContext} {round : ℤ} {cid : Cid}

theorem choice_congr (h : SameView E s t) : choice E server round t cid = choice E server round s cid := by
  simp only [choice, h.feasibleIn, h.tables, h.profiles]

theorem catalog_respects : Method.Respects (Plans E) (catalog C E) := by
  intro s hs
  rw [Method.after, catalog_run_of_loaded hs]
  exact .refl s

theorem planClient_respects : Method.Respects (Plans E) (planClient C E server round cid) := by
  refine .bind (.lift _) fun props ↦ .bind (.lift _) fun _ ↦ .bind (catalog_respects.map _) fun _ ↦
    .bind .get fun s ↦ .bind (.lift _) fun _ ↦ .bind (.lift _) fun context ↦
    .bind (.mapM fun c _ ↦ score_respects) fun scores ↦ ?_
  cases argmin (feasibleIn s cid round (capabilities props server)) scores with
  | none => exact .throw _
  | some chosen =>
    refine .bind front_respects fun frontend ↦ .bind .get fun _ ↦ .bind (.lift _) fun profile ↦ .bind ?_ fun _ ↦ .pure _
    exact .modify fun s _ ↦ .of_fields rfl rfl rfl rfl rfl

/-- The scores of a comprehension are computed from one table. -/
theorem scores_eq_ok {feasible : List SplitCandidateDescriptor} {batch count : ℤ}
    {context : Option NetworkContext} {scores : List ℚ} (hs : s.Loaded) (hne : feasible ≠ [])
    (h : (feasible.mapM fun c ↦ score E cid c batch count context).run s = .ok scores t) :
    ∃ table, effectiveTable E s cid = .ok table ∧
      feasible.mapM (fun c ↦ scoreWith E s.profiles table c batch count context) = .ok scores := by
  have hall := Method.forall₂_of_mapM (R := Plans E)
    (Q := fun s c x ↦ s.Loaded → ∃ table, effectiveTable E s cid = .ok table ∧
      scoreWith E s.profiles table c batch count context = .ok x)
    (fun c ↦ score_respects)
    (fun c s x t hx _ ↦ by
      obtain ⟨table, ht, hx, -⟩ := score_eq_ok hx
      exact ⟨table, ht, hx⟩)
    (fun c s t x hR hQ hs ↦ by
      obtain ⟨table, ht, hx⟩ := hQ ((hR hs).loaded hs)
      rw [(hR hs).tables] at ht
      rw [(hR hs).profiles] at hx
      exact ⟨table, ht, hx⟩) h
  obtain ⟨c, rest, rfl⟩ := List.exists_cons_of_ne_nil hne
  obtain ⟨x, xs, hc, -, -⟩ := List.forall₂_cons_left_iff.mp hall
  obtain ⟨table, ht, -⟩ := hc hs
  refine ⟨table, ht, mapM_eq_ok_iff.mpr (hall.imp fun d y hd ↦ ?_)⟩
  obtain ⟨table', ht', hy⟩ := hd hs
  cases ht.symm.trans ht'
  exact hy

/-- What a turn of the loop returns is the choice read off the state it starts in. -/
theorem planClient_eq_ok {p : ClientPlan} (hs : s.Loaded)
    (h : (planClient C E server round cid).run s = .ok p t) :
    p.cid = cid ∧ ∃ chosen, choice E server round s cid = .ok chosen ∧ p.boundary = chosen.1.boundary := by
  obtain ⟨props, hprops, h⟩ := Method.lift_bind_eq_ok h
  obtain ⟨-, h⟩ := Method.require_bind_eq_ok h
  obtain ⟨_, u, hu, h⟩ := Method.bind_eq_ok h
  obtain ⟨_, hu⟩ := Method.discard_eq_ok hu
  rw [catalog_run_of_loaded hs] at hu
  cases hu
  rw [Method.get_bind_run] at h
  obtain ⟨hne, h⟩ := Method.require_bind_eq_ok h
  obtain ⟨context, hcontext, h⟩ := Method.lift_bind_eq_ok h
  obtain ⟨scores, u, hu, h⟩ := Method.bind_eq_ok h
  obtain ⟨table, ht, hscores⟩ := scores_eq_ok hs hne hu
  cases hc : argmin (feasibleIn s cid round (capabilities props server)) scores with
  | none =>
    rw [hc] at h
    cases h
  | some chosen =>
    rw [hc] at h
    obtain ⟨frontend, v, -, h⟩ := Method.bind_eq_ok h
    rw [Method.get_bind_run] at h
    obtain ⟨profile, -, h⟩ := Method.lift_bind_eq_ok h
    cases h
    refine ⟨rfl, chosen, ?_, rfl⟩
    simp only [choice, hprops, hcontext, ht, hscores, ok_bind, hc]
    rfl

end Client

section Minimal

variable {s : Policy} {server : ServerContext} {round : ℤ} {cid : Cid}

/-- `_score` returns this number. -/
def Scores (E : Environment) (s : Policy) (cid : Cid) (props : ClientContext) (context : Option NetworkContext)
    (c : SplitCandidateDescriptor) (x : ℚ) : Prop :=
  ∃ t, (score E cid c (props.batchSize.getD 0) (props.numBatches.getD 0) context).run s = .ok x t

theorem Scores.of_table {t : CostTable} {props : ClientContext} {context : Option NetworkContext}
    {c : SplitCandidateDescriptor} {x : ℚ} (ht : effectiveTable E s cid = .ok t)
    (hx : scoreWith E s.profiles t c (props.batchSize.getD 0) (props.numBatches.getD 0) context = .ok x) :
    Scores E s cid props context c x := by
  refine ⟨s.keepTable cid t, ?_⟩
  rw [score_run ht, hx]

theorem pairwise_sortedCatalog (s : Policy) : s.sortedCatalog.Pairwise fun c d ↦ position c ≤ position d :=
  pairwise_sortedBy position _

/-- The first minimum of the scores is the least of the minima in the order of the catalog. -/
theorem argmin_least {feasible : List SplitCandidateDescriptor} {scores : List ℚ}
    {chosen : SplitCandidateDescriptor × ℚ} (hl : scores.length = feasible.length)
    (hsorted : feasible.Pairwise fun c d ↦ position c ≤ position d) (h : argmin feasible scores = some chosen) :
    chosen ∈ feasible.zip scores ∧ ∀ p ∈ feasible.zip scores,
      chosen.2 ≤ p.2 ∧ (p.2 = chosen.2 → position chosen.1 ≤ position p.1) := by
  have hfst : (feasible.zip scores).map Prod.fst = feasible := List.map_fst_zip hl.ge
  rw [← hfst, List.pairwise_map] at hsorted
  exact firstMin_least Prod.snd (fun p ↦ position p.1) hsorted h

/-- The cut chosen for a client: admitted, of minimal score among the admitted ones, and the first of
these in the order of the catalog. -/
def BestCut (E : Environment) (server : ServerContext) (round : ℤ) (s : Policy) (cid : Cid)
    (c : SplitCandidateDescriptor) : Prop :=
  ∃ props context x, E.client cid = .ok props ∧ E.network cid round = .ok context ∧
    c ∈ feasibleIn s cid round (capabilities props server) ∧ Scores E s cid props context c x ∧
    ∀ d ∈ feasibleIn s cid round (capabilities props server),
      ∃ y, Scores E s cid props context d y ∧ x ≤ y ∧ (y = x → position c ≤ position d)

theorem bestCut_of_choice {chosen : SplitCandidateDescriptor × ℚ} (h : choice E server round s cid = .ok chosen) :
    BestCut E server round s cid chosen.1 := by
  obtain ⟨props, hprops, h⟩ := bind_eq_ok h
  obtain ⟨context, hcontext, h⟩ := bind_eq_ok h
  obtain ⟨t, ht, h⟩ := bind_eq_ok h
  obtain ⟨scores, hscores, h⟩ := bind_eq_ok h
  obtain ⟨feasible, hf⟩ : ∃ f, feasibleIn s cid round (capabilities props server) = f := ⟨_, rfl⟩
  rw [hf] at h hscores
  cases hc : argmin feasible scores with
  | none =>
    rw [hc] at h
    cases h
  | some best =>
    rw [hc] at h
    cases h
    have hall := mapM_eq_ok_iff.mp hscores
    have hl := hall.length_eq
    have hsorted : feasible.Pairwise fun c d ↦ position c ≤ position d :=
      hf ▸ (pairwise_sortedCatalog s).filter _
    obtain ⟨hmem, hleast⟩ := argmin_least hl.symm hsorted hc
    have hscore {d : SplitCandidateDescriptor} {y : ℚ} (hd : (d, y) ∈ feasible.zip scores) :
        Scores E s cid props context d y := .of_table ht ((List.forall₂_iff_zip.mp hall).2 hd)
    rw [BestCut]
    refine ⟨props, context, chosen.2, hprops, hcontext, hf.symm ▸ (List.of_mem_zip hmem).1, hscore hmem, ?_⟩
    rw [hf]
    intro d hd
    have hfst : (feasible.zip scores).map Prod.fst = feasible := List.map_fst_zip hl.le
    obtain ⟨p, hp, rfl⟩ := List.mem_map.mp (hfst.symm ▸ hd)
    exact ⟨p.2, hscore hp, hleast p hp⟩

end Minimal

section Round

variable {s s' : Policy} {round : ℤ} {cids : List Cid} {assignment : Dict Cid String}

theorem mem_keys_assignmentOf {plans : List ClientPlan} (hnd : (plans.map (·.cid)).Nodup) :
    (assignmentOf plans).keys = plans.map (·.cid) := by
  rw [Dict.keys, assignmentOf, Dict.entries_ofList, List.map_map]
  · rfl
  · rwa [List.map_map]

theorem get?_assignmentOf {plans : List ClientPlan} (hnd : (plans.map (·.cid)).Nodup) {p : ClientPlan}
    (hp : p ∈ plans) : (assignmentOf plans).get? p.cid = some p.boundary := by
  rw [Dict.get?_eq_some_iff, assignmentOf, Dict.entries_ofList]
  · exact List.mem_map_of_mem hp
  · rwa [List.map_map]

/-- What `plan_round` does before the loop. -/
def prepare (C : GreedyConfig) (E : Environment) : Method Policy Unit := do
  discard (catalog C E)
  initializeReference E

theorem loaded_of_prepare (h : (prepare C E).run s = .ok () s') : s'.Loaded := by
  obtain ⟨_, u, hu, h⟩ := Method.bind_eq_ok h
  obtain ⟨_, hu⟩ := Method.discard_eq_ok hu
  have hl := (loaded_of_catalog_eq_ok hu).1
  rcases initializeReference_eq_ok h with ⟨rfl, -⟩ | ⟨_, -, rfl⟩
  · exact hl
  · exact hl

/-- A round that is planned: every client gets its choice, read off the state before the loop, and
the loop changes nothing that a choice depends on. -/
theorem planTraining_eq_ok (h : (planTraining C E round cids).run s = .ok assignment s') :
    ∃ server plans s₀ s₁, (prepare C E).run s = .ok () s₀ ∧ E.server = .ok server ∧
      List.Forall₂ (fun cid p ↦ p.cid = cid ∧ ∃ chosen, choice E server round s₀ cid = .ok chosen ∧
        p.boundary = chosen.1.boundary) cids plans ∧
      SameView E s₀ s₁ ∧ s' = recordRound C E server round plans s₁ ∧ assignment = assignmentOf plans := by
  obtain ⟨_, u, hu, h⟩ := Method.bind_eq_ok h
  obtain ⟨_, s₀, hs₀, h⟩ := Method.bind_eq_ok h
  obtain ⟨server, hserver, h⟩ := Method.lift_bind_eq_ok h
  obtain ⟨plans, s₁, hplans, h⟩ := Method.bind_eq_ok h
  cases h
  have hprep : (prepare C E).run s = .ok () s₀ := by
    rw [prepare, Method.run_bind_of_ok hu]
    exact hs₀
  have hl := loaded_of_prepare hprep
  have hview : SameView E s₀ s₁ :=
    (Method.Respects.mapM (R := Plans E) fun cid _ ↦ planClient_respects).of_ok hplans hl
  refine ⟨server, plans, s₀, s₁, hprep, hserver, ?_, hview, rfl, rfl⟩
  have hall := Method.forall₂_of_mapM (R := Plans E)
    (Q := fun s cid p ↦ s.Loaded → p.cid = cid ∧ ∃ chosen, choice E server round s cid = .ok chosen ∧
      p.boundary = chosen.1.boundary)
    (fun cid ↦ planClient_respects)
    (fun cid s p t hp hs ↦ planClient_eq_ok hs hp)
    (fun cid s t p hR hQ hs ↦ by
      have h := hQ ((hR hs).loaded hs)
      rwa [choice_congr (hR hs)] at h) hplans
  exact hall.imp fun cid p hp ↦ hp hl

variable {clientIds : List Cid}

/-- Only the set of the clients matters. -/
theorem planRound_congr {clientIds' : List Cid} (h : ∀ cid, cid ∈ clientIds' ↔ cid ∈ clientIds) (training : Bool) :
    planRound C E round clientIds' training = planRound C E round clientIds training := by
  rw [planRound, sortedSet_congr h, planRound]

theorem sortedSet_sortedSet (l : List Cid) : sortedSet (sortedSet l) = sortedSet l :=
  sortedSet_congr fun _ ↦ mem_sortedSet

/-- The three ways in which a call for training returns. -/
inductive Planned (C : GreedyConfig) (E : Environment) (round : ℤ) (cids : List Cid) (s : Policy)
    (assignment : Dict Cid String) (s' : Policy) : Prop
  | empty (hnil : cids = []) (ha : assignment = .empty) (hs : s' = s)
  | cached (hne : cids ≠ []) (hc : s.roundAssignments.get? (round, true) = some assignment)
      (hk : sortedSet assignment.keys = cids) (hs : s' = s)
  | decided (hne : cids ≠ []) (hc : s.roundAssignments.get? (round, true) = none)
      (hp : (planTraining C E round cids).run s = .ok assignment s')

theorem planned_of_planRound (h : (planRound C E round clientIds true).run s = .ok assignment s') :
    Planned C E round (sortedSet clientIds) s assignment s' := by
  rw [planRound] at h
  by_cases hnil : sortedSet clientIds = []
  · rw [if_pos hnil] at h
    cases h
    exact .empty hnil rfl rfl
  · rw [if_neg hnil, Method.get_bind_run] at h
    cases hc : s.roundAssignments.get? (round, true) with
    | none =>
      rw [hc] at h
      exact .decided hnil hc h
    | some cached =>
      rw [hc] at h
      obtain ⟨hk, h⟩ := Method.require_bind_eq_ok h
      cases h
      exact .cached hnil hc hk rfl

theorem planRound_of_cached {cached : Dict Cid String} (hne : sortedSet clientIds ≠ [])
    (hc : s.roundAssignments.get? (round, true) = some cached)
    (hk : sortedSet cached.keys = sortedSet clientIds) :
    (planRound C E round clientIds true).run s = .ok cached s := by
  rw [planRound]
  rw [if_neg hne, Method.get_bind_run, hc]
  dsimp only
  rw [require_of hk]
  rfl

theorem get?_recordRound (server : ServerContext) (plans : List ClientPlan) (s : Policy) :
    (recordRound C E server round plans s).roundAssignments.get? (round, true) = some (assignmentOf plans) := by
  rw [recordRound, Dict.get?_filterKeys, if_pos (by simp), Dict.get?_insert, if_pos rfl]

theorem cids_of_forall₂ {Q : Cid → ClientPlan → Prop} {plans : List ClientPlan}
    (h : List.Forall₂ (fun cid p ↦ p.cid = cid ∧ Q cid p) cids plans) : plans.map (·.cid) = cids := by
  induction h with
  | nil => rfl
  | cons hp _ ih => rw [List.map_cons, hp.1, ih]

/-- The keys of the assignment are the clients, as `sorted` lists them. -/
theorem keys_of_planTraining (hnd : cids.Nodup) (h : (planTraining C E round cids).run s = .ok assignment s') :
    assignment.keys = cids := by
  obtain ⟨server, plans, s₀, s₁, -, -, hall, -, -, rfl⟩ := planTraining_eq_ok h
  have hcids := cids_of_forall₂ hall
  rw [mem_keys_assignmentOf (hcids ▸ hnd), hcids]

/-- The entry of a client in the assignment of a round that is planned. -/
theorem get?_of_planTraining (hnd : cids.Nodup) (h : (planTraining C E round cids).run s = .ok assignment s')
    {cid : Cid} (hcid : cid ∈ cids) :
    ∃ server s₀ chosen, (prepare C E).run s = .ok () s₀ ∧ E.server = .ok server ∧
      choice E server round s₀ cid = .ok chosen ∧ assignment.get? cid = some chosen.1.boundary ∧
      SameView E s₀ s' := by
  obtain ⟨server, plans, s₀, s₁, hprep, hserver, hall, hview, rfl, rfl⟩ := planTraining_eq_ok h
  have hcids := cids_of_forall₂ hall
  rw [← hcids] at hcid
  obtain ⟨p, hp, rfl⟩ := List.mem_map.mp hcid
  obtain ⟨cid, -, hcid', chosen, hchosen, hb⟩ := forall₂_exists_of_mem_right hall hp
  rw [← hcid'] at hchosen
  refine ⟨server, s₀, chosen, hprep, hserver, hchosen, ?_, hview.trans (.of_fields rfl rfl rfl rfl rfl)⟩
  rw [get?_assignmentOf (hcids ▸ hnd) hp, hb]

theorem mem_keys_of_planRound (h : (planRound C E round clientIds true).run s = .ok assignment s') (cid : Cid) :
    cid ∈ assignment.keys ↔ cid ∈ clientIds := by
  rw [← @mem_sortedSet _ _ clientIds]
  cases planned_of_planRound h with
  | empty hnil ha =>
    rw [hnil, ha]
    rfl
  | cached _ _ hk => rw [← hk, mem_sortedSet]
  | decided _ _ hp => rw [keys_of_planTraining (nodup_sortedSet clientIds) hp]

theorem bestCut_of_planRound (h : (planRound C E round clientIds true).run s = .ok assignment s')
    (hc : s.roundAssignments.get? (round, true) = none) {cid : Cid} (hcid : cid ∈ clientIds) :
    ∃ server c, E.server = .ok server ∧ assignment.get? cid = some c.boundary ∧
      BestCut E server round s' cid c := by
  rw [← mem_sortedSet] at hcid
  cases planned_of_planRound h with
  | empty hnil => rw [hnil] at hcid; cases hcid
  | cached _ hc' => rw [hc] at hc'; cases hc'
  | decided _ _ hp =>
    obtain ⟨server, s₀, chosen, -, hserver, hchoice, hget, hview⟩ :=
      get?_of_planTraining (nodup_sortedSet clientIds) hp hcid
    rw [← choice_congr hview] at hchoice
    exact ⟨server, chosen.1, hserver, hget, bestCut_of_choice hchoice⟩

/-- Two cohorts planned from one state: a client that is in both gets one cut. -/
theorem cut_independent_of_cohort {clientIds' : List Cid} {assignment' : Dict Cid String} {t : Policy}
    (h : (planRound C E round clientIds true).run s = .ok assignment s')
    (h' : (planRound C E round clientIds' true).run s = .ok assignment' t) {cid : Cid}
    (hcid : cid ∈ clientIds) (hcid' : cid ∈ clientIds') : assignment'.get? cid = assignment.get? cid := by
  rw [← mem_sortedSet] at hcid hcid'
  cases planned_of_planRound h with
  | empty hnil => rw [hnil] at hcid; cases hcid
  | cached _ hc =>
    cases planned_of_planRound h' with
    | empty hnil' => rw [hnil'] at hcid'; cases hcid'
    | cached _ hc' =>
      cases hc.symm.trans hc'
      rfl
    | decided _ hc' => rw [hc] at hc'; cases hc'
  | decided _ hc hp =>
    cases planned_of_planRound h' with
    | empty hnil' => rw [hnil'] at hcid'; cases hcid'
    | cached _ hc' => rw [hc] at hc'; cases hc'
    | decided _ _ hp' =>
      obtain ⟨server, s₀, chosen, hprep, hserver, hchoice, hget, -⟩ :=
        get?_of_planTraining (nodup_sortedSet clientIds) hp hcid
      obtain ⟨server', s₀', chosen', hprep', hserver', hchoice', hget', -⟩ :=
        get?_of_planTraining (nodup_sortedSet clientIds') hp' hcid'
      cases hprep.symm.trans hprep'
      cases hserver.symm.trans hserver'
      cases hchoice.symm.trans hchoice'
      rw [hget, hget']

/-- The round is planned once: a second call for the same clients answers from the stored assignment
and leaves the policy as it is, whatever the telemetry says by then. -/
theorem planRound_again (h : (planRound C E round clientIds true).run s = .ok assignment s')
    (E' : Environment) : (planRound C E' round clientIds true).run s' = .ok assignment s' := by
  cases planned_of_planRound h with
  | empty hnil ha hs =>
    rw [planRound, if_pos hnil, ha]
    rfl
  | cached hne hc hk hs =>
    rw [hs]
    exact planRound_of_cached hne hc hk
  | decided hne _ hp =>
    have hkeys := keys_of_planTraining (nodup_sortedSet clientIds) hp
    obtain ⟨server, plans, s₀, s₁, -, -, -, -, rfl, rfl⟩ := planTraining_eq_ok hp
    refine planRound_of_cached hne (get?_recordRound server plans s₁) ?_
    rw [hkeys, sortedSet_sortedSet]

/-- The decision of a training round, in any state in which the call returns. -/
theorem planRound_training (h : (planRound C E round clientIds true).run s = .ok assignment s') :
    (∀ cid, cid ∈ assignment.keys ↔ cid ∈ clientIds) ∧
    (s.roundAssignments.get? (round, true) = none → ∀ cid ∈ clientIds, ∃ server c,
      E.server = .ok server ∧ assignment.get? cid = some c.boundary ∧ BestCut E server round s' cid c) ∧
    (∀ clientIds', (∀ cid, cid ∈ clientIds' ↔ cid ∈ clientIds) →
      (planRound C E round clientIds' true).run s = .ok assignment s') ∧
    (∀ clientIds' assignment' t, (planRound C E round clientIds' true).run s = .ok assignment' t →
      ∀ cid ∈ clientIds, cid ∈ clientIds' → assignment'.get? cid = assignment.get? cid) ∧
    ∀ E' clientIds', (∀ cid, cid ∈ clientIds' ↔ cid ∈ clientIds) →
      (planRound C E' round clientIds' true).run s' = .ok assignment s' := by
  refine ⟨mem_keys_of_planRound h, fun hc cid hcid ↦ bestCut_of_planRound h hc hcid, ?_, ?_, ?_⟩
  · intro clientIds' hset
    rwa [planRound_congr hset]
  · intro clientIds' assignment' t h' cid hcid hcid'
    exact cut_independent_of_cohort h h' hcid hcid'
  · intro E' clientIds' hset
    rw [planRound_congr hset]
    exact planRound_again h E'

end Round

section Sample

theorem planRound_training_sample : ∃ assignment s',
    (planRound sampleConfig sampleEnvironment 1 ["a"] true).run samplePolicy = .ok assignment s' ∧
    (∀ cid, cid ∈ assignment.keys ↔ cid ∈ ["a"]) ∧
    ∀ cid ∈ ["a"], ∃ server c, sampleEnvironment.server = .ok server ∧
      assignment.get? cid = some c.boundary ∧ BestCut sampleEnvironment server 1 s' cid c := by
  have h : (planRound sampleConfig sampleEnvironment 1 ["a"] true).run samplePolicy = .ok _ _ := rfl
  exact ⟨_, _, h, (planRound_training h).1, (planRound_training h).2.1 rfl⟩

/-- The round is planned, and then the client's cut fails. -/
def failedPolicy : Policy :=
  (observeFailure id 1 "a" (some "late") "runtime" none).after
    ((planRound sampleConfig sampleEnvironment 1 ["a"] true).after samplePolicy)

/-- The stored assignment of the round still names the cut, which cools down by then. -/
theorem cached_cut_not_admitted : ¬ ∀ (C : GreedyConfig) (E : Environment) (s s' : Policy) (round : ℤ)
    (clientIds : List Cid) (assignment : Dict Cid String),
    (planRound C E round clientIds true).run s = .ok assignment s' → ∀ cid ∈ clientIds,
      ∃ props server c, E.client cid = .ok props ∧ E.server = .ok server ∧
        assignment.get? cid = some c.boundary ∧
        c ∈ feasibleIn s' cid round (capabilities props server) := by
  intro hall
  have h : (planRound sampleConfig sampleEnvironment 1 ["a"] true).run failedPolicy = .ok _ _ := rfl
  obtain ⟨props, server, c, hprops, hserver, -, hc⟩ := hall _ _ _ _ _ _ _ h "a" List.mem_cons_self
  cases hprops
  cases hserver
  have hnone : feasibleIn failedPolicy "a" 1 (capabilities ⟨some "a", some 2, some 3, ⟨none, none, none⟩⟩
      ⟨⟨none, none, none⟩, none⟩) = [] := rfl
  rw [hnone] at hc
  cases hc

end Sample

end SplitFleet.GreedyPolicy
