import SplitFleet.GreedyChoice

set_option autoImplicit false

namespace SplitFleet.GreedyPolicy

open Lib Feasibility Feedback

variable {C : GreedyConfig} {E : Environment}

/-- Nothing that a round is recorded in is different. -/
structure SameLog (s t : Policy) : Prop where
  receipts : t.decisionReceipts = s.decisionReceipts
  diagnostics : t.roundDiagnostics = s.roundDiagnostics
  assignments : t.roundAssignments = s.roundAssignments

instance : IsPreorder Policy SameLog where
  refl _ := ⟨rfl, rfl, rfl⟩
  trans _ _ _ h h' := ⟨h'.receipts.trans h.receipts, h'.diagnostics.trans h.diagnostics,
    h'.assignments.trans h.assignments⟩

section Log

variable {cid : Cid} {c : SplitCandidateDescriptor} {batch count : ℤ} {context : Option NetworkContext}

theorem sameLog_keepTable (s : Policy) (cid : Cid) (t : CostTable) : SameLog s (s.keepTable cid t) := by
  obtain ⟨_, he⟩ := keepTable_eq s cid t
  rw [he]
  exact ⟨rfl, rfl, rfl⟩

theorem sameLog_table (cid : Cid) : Method.Respects SameLog (table E cid) := by
  intro s
  rw [Method.after, table_run]
  cases effectiveTable E s cid with
  | error e => exact refl s
  | ok t => exact sameLog_keepTable s cid t

theorem sameLog_score : Method.Respects SameLog (score E cid c batch count context) :=
  .bind (sameLog_table cid) fun _ ↦ .bind .get fun _ ↦ .lift _

theorem sameLog_front : Method.Respects SameLog (front E cid c) :=
  .bind (sameLog_table cid) fun _ ↦ .bind .get fun _ ↦ .lift _

theorem sameLog_adopt (state : SavedState) : Method.Respects SameLog (adopt C state) :=
  .bind .get fun _ ↦ .bind (.lift _) fun _ ↦ .modify fun _ ↦ ⟨rfl, rfl, rfl⟩

theorem sameLog_readCatalog : Method.Respects SameLog (readCatalog C E) := by
  refine .bind (.lift _) fun _ ↦ .bind (.lift _) fun _ ↦ .bind (.lift _) fun _ ↦
    .bind (.modify fun _ ↦ ⟨rfl, rfl, rfl⟩) fun _ ↦ .bind .get fun s ↦ ?_
  cases s.pendingState with
  | none => exact .pure _
  | some pending => exact .bind (.modify fun _ ↦ ⟨rfl, rfl, rfl⟩) fun _ ↦ sameLog_adopt pending

theorem sameLog_catalog : Method.Respects SameLog (catalog C E) := by
  refine .bind .get fun s ↦ ?_
  by_cases hs : s.catalogByBoundary.entries = []
  · rw [if_pos hs]
    exact .bind sameLog_readCatalog fun _ ↦ .bind .get fun _ ↦ .pure _
  · rw [if_neg hs]
    exact .bind .get fun _ ↦ .pure _

theorem sameLog_initializeReference : Method.Respects SameLog (initializeReference E) := by
  refine .bind .get fun s ↦ ?_
  by_cases hs : s.profiles.isNone
  · rw [if_pos hs]
    exact .bind (.lift _) fun _ ↦ .modify fun _ ↦ ⟨rfl, rfl, rfl⟩
  · rw [if_neg hs]
    exact .pure _

theorem sameLog_prepare : Method.Respects SameLog (prepare C E) :=
  .bind (sameLog_catalog.map _) fun _ ↦ sameLog_initializeReference

end Log

section Client

variable {s t : Policy} {server : ServerContext} {round : ℤ} {cid : Cid}

/-- A client that raises leaves no receipt. -/
theorem planClient_leaves : Method.Leaves SameLog (planClient C E server round cid) := by
  refine .bind (.lift _) fun props ↦ .bind (.lift _) fun _ ↦ .bind (sameLog_catalog.map _) fun _ ↦
    .bind .get fun s ↦ .bind (.lift _) fun _ ↦ .bind (.lift _) fun context ↦
    .bind (.mapM fun c _ ↦ sameLog_score) fun scores ↦ ?_
  cases argmin (feasibleIn s cid round (capabilities props server)) scores with
  | none => exact .of_respects (.throw _)
  | some chosen =>
    refine .bind sameLog_front fun frontend ↦ .bind .get fun _ ↦ .bind (.lift _) fun profile ↦ ?_
    exact .of_returns fun s ↦ ⟨_, _, rfl⟩

/-- The client can be given a cut: its batches are there, a cut is best for it and has a profile. -/
def Plannable (E : Environment) (server : ServerContext) (round : ℤ) (s : Policy) (cid : Cid) : Prop :=
  ∃ props c profile, E.client cid = .ok props ∧ 1 ≤ props.batchSize.getD 0 ∧ 1 ≤ props.numBatches.getD 0 ∧
    BestCut E server round s cid c ∧ profileOf s.profiles c.boundary = .ok profile

variable {c : SplitCandidateDescriptor} {props : ClientContext} {context : Option NetworkContext} {x : ℚ}

theorem scores_iff : Scores E s cid props context c x ↔ ∃ t, effectiveTable E s cid = .ok t ∧
    scoreWith E s.profiles t c (props.batchSize.getD 0) (props.numBatches.getD 0) context = .ok x := by
  constructor
  · rintro ⟨u, hu⟩
    obtain ⟨t, ht, hx, -⟩ := score_eq_ok hu
    exact ⟨t, ht, hx⟩
  · rintro ⟨t, ht, hx⟩
    exact .of_table ht hx

theorem Scores.unique {y : ℚ} (h : Scores E s cid props context c x) (h' : Scores E s cid props context c y) :
    x = y := by
  obtain ⟨t, ht⟩ := h
  obtain ⟨u, hu⟩ := h'
  cases ht.symm.trans hu
  rfl

theorem scores_congr (h : SameView E s t) : Scores E t cid props context c x ↔ Scores E s cid props context c x := by
  rw [scores_iff, h.tables, h.profiles, scores_iff]

theorem plannable_congr (h : SameView E s t) : Plannable E server round t cid ↔ Plannable E server round s cid := by
  simp only [Plannable, BestCut, h.feasibleIn, scores_congr h, h.profiles]

variable (props) in
/-- The candidates of a client are scored one after the other, where each of them has a score. -/
theorem scores_run {feasible : List SplitCandidateDescriptor}
    (h : ∀ c ∈ feasible, ∃ x, Scores E s cid props context c x) :
    Method.Yields (fun _ ↦ False)
      (feasible.mapM fun c ↦ score E cid c (props.batchSize.getD 0) (props.numBatches.getD 0) context) s
      fun scores t ↦ SameView E s t ∧ List.Forall₂ (Scores E s cid props context) feasible scores := by
  induction feasible generalizing s with
  | nil => exact .of_run (Method.run_mapM_nil _ s) ⟨.refl s, .nil⟩
  | cons c feasible ih =>
    obtain ⟨x, u, hu⟩ := h c List.mem_cons_self
    obtain ⟨t, ht, -, rfl⟩ := score_eq_ok hu
    have hview := sameView_keepTable ht
    rw [List.mapM_cons]
    refine .bind (.of_run hu (P := fun y v ↦ y = x ∧ v = s.keepTable cid t) ⟨rfl, rfl⟩) ?_
    rintro _ _ ⟨rfl, rfl⟩
    refine (ih fun d hd ↦ ?_).bind fun scores v hv ↦ .pure ⟨hview.trans hv.1, .cons ⟨_, hu⟩ ?_⟩
    · obtain ⟨y, hy⟩ := h d (List.mem_cons_of_mem c hd)
      exact ⟨y, (scores_congr hview).mpr hy⟩
    · exact hv.2.imp fun d y hy ↦ (scores_congr hview).mp hy

/-- A client with a score for a cut has the front costs of it. -/
theorem front_run (h : Scores E s cid props context c x) :
    ∃ frontend t, (front E cid c).run s = .ok frontend t ∧ SameView E s t := by
  obtain ⟨t, ht, hx⟩ := scores_iff.mp h
  obtain ⟨_, -, hx⟩ := bind_eq_ok hx
  obtain ⟨_, -, hx⟩ := bind_eq_ok hx
  obtain ⟨frontend, hf, -⟩ := bind_eq_ok hx
  refine ⟨frontend, s.keepTable cid t, ?_, sameView_keepTable ht⟩
  rw [front, Method.run_bind_of_ok (a := t) (t := s.keepTable cid t) (by rw [table_run, ht]), Method.get_bind_run,
    keepTable_profiles, hf]
  rfl

theorem argmin_isSome {feasible : List SplitCandidateDescriptor} {scores : List ℚ} (hne : feasible ≠ [])
    (hl : scores.length = feasible.length) : ∃ chosen, argmin feasible scores = some chosen := by
  apply firstMin_isSome
  rw [← List.length_pos_iff] at hne ⊢
  rw [List.length_zip]
  omega

/-- The minimum that the loop takes is a best cut, and best cuts share a boundary. -/
theorem argmin_bestCut {feasible : List SplitCandidateDescriptor} {scores : List ℚ}
    {chosen : SplitCandidateDescriptor × ℚ}
    (hsorted : feasible.Pairwise fun c d ↦ position c ≤ position d)
    (hall : List.Forall₂ (Scores E s cid props context) feasible scores) (hc : c ∈ feasible)
    (hx : Scores E s cid props context c x)
    (hleast : ∀ d ∈ feasible, ∃ y, Scores E s cid props context d y ∧ x ≤ y ∧ (y = x → position c ≤ position d))
    (h : argmin feasible scores = some chosen) :
    Scores E s cid props context chosen.1 chosen.2 ∧ chosen.1.boundary = c.boundary := by
  have hl := hall.length_eq
  have hscore {d : SplitCandidateDescriptor} {y : ℚ} (hd : (d, y) ∈ feasible.zip scores) :
      Scores E s cid props context d y := (List.forall₂_iff_zip.mp hall).2 hd
  obtain ⟨hmem, hmin⟩ := argmin_least hl.symm hsorted h
  refine ⟨hscore hmem, ?_⟩
  obtain ⟨y, hy, hxy, hpos⟩ := hleast chosen.1 (List.of_mem_zip hmem).1
  obtain rfl : y = chosen.2 := hy.unique (hscore hmem)
  have hfst : (feasible.zip scores).map Prod.fst = feasible := List.map_fst_zip hl.le
  obtain ⟨p, hp, rfl⟩ := List.mem_map.mp (hfst.symm ▸ hc)
  obtain rfl : x = p.2 := hx.unique (hscore hp)
  obtain ⟨hle, hpos'⟩ := hmin p hp
  have heq : position chosen.1 = position p.1 := le_antisymm (hpos' (le_antisymm hxy hle)) (hpos (le_antisymm hle hxy))
  exact (Prod.ext_iff.mp (toLex.injective heq)).2

theorem planClient_of_plannable (hs : s.Loaded) (h : Plannable E server round s cid) :
    ∃ p t, (planClient C E server round cid).run s = .ok p t := by
  obtain ⟨props, c, profile, hprops, hb, hn, ⟨props', context, x, hprops', hcontext, hc, hx, hleast⟩, hprofile⟩ := h
  cases hprops.symm.trans hprops'
  suffices hy : Method.Yields (fun _ ↦ False) (planClient C E server round cid) s fun _ _ ↦ True by
    obtain ⟨p, t, hp, -⟩ := hy.exists_of_returns
    exact ⟨p, t, hp⟩
  refine .ok_bind hprops (.require_bind ⟨hb, hn⟩ (.bind (.of_run (Method.run_discard_of_ok (catalog_run_of_loaded hs))
    (P := fun _ t ↦ t = s) rfl) fun _ u hu ↦ ?_))
  rw [hu]
  refine .get_bind (.require_bind (List.ne_nil_of_mem hc) (.ok_bind hcontext (.bind (scores_run props fun d hd ↦ ?_)
    fun scores u hu ↦ ?_)))
  · obtain ⟨y, hy, -⟩ := hleast d hd
    exact ⟨y, hy⟩
  · have hsorted : (feasibleIn s cid round (capabilities props server)).Pairwise fun c d ↦ position c ≤ position d :=
      (pairwise_sortedCatalog s).filter _
    cases ha : argmin (feasibleIn s cid round (capabilities props server)) scores with
    | none =>
      obtain ⟨m, hm⟩ := argmin_isSome (List.ne_nil_of_mem hc) hu.2.length_eq.symm
      cases ha.symm.trans hm
    | some chosen =>
      obtain ⟨hscore, hb⟩ := argmin_bestCut hsorted hu.2 hc hx hleast ha
      obtain ⟨frontend, v, hv, hview⟩ := front_run ((scores_congr hu.1).mpr hscore)
      refine .bind (.of_run hv (P := fun _ w ↦ w = v) rfl) fun _ w hw ↦ .get_bind ?_
      subst hw
      rw [(hu.1.trans hview).profiles, hb]
      exact .ok_bind hprofile (.modify_bind (.pure trivial))

/-- The receipt of one decision. -/
structure ReceiptFor (E : Environment) (round : ℤ) (cid : Cid) (boundary : String) (r : DecisionReceipt) : Prop where
  round_eq : r.roundId = round
  logical : ∃ props, E.client cid = .ok props ∧ r.logicalClientId = props.logicalId cid
  boundary_eq : r.boundary = boundary

/-- A client that is planned gets one receipt. -/
theorem planClient_receipt {p : ClientPlan} (hs : s.Loaded)
    (h : (planClient C E server round cid).run s = .ok p t) :
    Plannable E server round s cid ∧ ∃ r, ReceiptFor E round cid p.boundary r ∧
      t.decisionReceipts = s.decisionReceipts ++ [r] ∧ t.roundDiagnostics = s.roundDiagnostics ∧
      t.roundAssignments = s.roundAssignments := by
  obtain ⟨-, best, hbest, hboundary⟩ := planClient_eq_ok hs h
  obtain ⟨props, hprops, h⟩ := Method.lift_bind_eq_ok h
  obtain ⟨⟨hb, hn⟩, h⟩ := Method.require_bind_eq_ok h
  obtain ⟨_, u, hu, h⟩ := Method.bind_eq_ok h
  obtain ⟨_, hu⟩ := Method.discard_eq_ok hu
  rw [catalog_run_of_loaded hs] at hu
  cases hu
  rw [Method.get_bind_run] at h
  obtain ⟨hne, h⟩ := Method.require_bind_eq_ok h
  obtain ⟨context, hcontext, h⟩ := Method.lift_bind_eq_ok h
  obtain ⟨scores, u, hu, h⟩ := Method.bind_eq_ok h
  have hlog : SameLog s u := (Method.Respects.mapM fun c _ ↦ sameLog_score).of_ok hu
  have hview : Plans E s u := (Method.Respects.mapM fun c _ ↦ score_respects).of_ok hu
  cases hc : argmin (feasibleIn s cid round (capabilities props server)) scores with
  | none =>
    rw [hc] at h
    cases h
  | some chosen =>
    rw [hc] at h
    obtain ⟨frontend, v, hv, h⟩ := Method.bind_eq_ok h
    have hlog' : SameLog s v := Trans.trans hlog (sameLog_front.of_ok hv)
    have hview' : SameView E s v := (hview hs).trans (front_respects.of_ok hv ((hview hs).loaded hs))
    rw [Method.get_bind_run] at h
    obtain ⟨profile, hprofile, h⟩ := Method.lift_bind_eq_ok h
    cases h
    dsimp only at hboundary
    rw [hview'.profiles, hboundary] at hprofile
    refine ⟨⟨props, best.1, profile, hprops, hb, hn, bestCut_of_choice hbest, hprofile⟩, _,
      ⟨rfl, ⟨props, hprops, rfl⟩, rfl⟩, congrArg (· ++ _) hlog'.receipts, hlog'.diagnostics, hlog'.assignments⟩

/-- A turn of the loop: a client that can be planned gets one receipt, and any other raises and leaves
nothing behind. -/
inductive Turn (E : Environment) (server : ServerContext) (round : ℤ) (s : Policy) (cid : Cid) :
    EStateM.Result PyError Policy ClientPlan → Prop
  | planned {p : ClientPlan} {r : DecisionReceipt} {t : Policy} (hp : Plannable E server round s cid)
      (hc : p.cid = cid) (hr : ReceiptFor E round cid p.boundary r)
      (ht : t.decisionReceipts = s.decisionReceipts ++ [r]) (hd : t.roundDiagnostics = s.roundDiagnostics)
      (ha : t.roundAssignments = s.roundAssignments) : Turn E server round s cid (.ok p t)
  | raised {e : PyError} {t : Policy} (hp : ¬ Plannable E server round s cid) (hl : SameLog s t) :
      Turn E server round s cid (.error e t)

theorem planClient_turn (hs : s.Loaded) : Turn E server round s cid ((planClient C E server round cid).run s) := by
  cases h : (planClient C E server round cid).run s with
  | ok p t =>
    obtain ⟨hp, r, hr, ht, hd, ha⟩ := planClient_receipt hs h
    exact .planned hp (planClient_eq_ok hs h).1 hr ht hd ha
  | error e t =>
    refine .raised (fun hp ↦ ?_) (planClient_leaves s e t h)
    obtain ⟨p, u, hu⟩ := planClient_of_plannable (C := C) hs hp
    cases h.symm.trans hu

end Client

section Cohort

variable {s t : Policy} {server : ServerContext} {round : ℤ} {cids : List Cid}

/-- The loop over a cohort: every client can be planned and has its receipt, or some client raised,
and those before it have theirs. -/
inductive Loop (E : Environment) (server : ServerContext) (round : ℤ) (s : Policy) (cids : List Cid) :
    EStateM.Result PyError Policy (List ClientPlan) → Prop
  | planned {plans : List ClientPlan} {receipts : List DecisionReceipt} {t : Policy}
      (hp : ∀ cid ∈ cids, Plannable E server round s cid) (hc : plans.map (·.cid) = cids)
      (hr : List.Forall₂ (fun p ↦ ReceiptFor E round p.cid p.boundary) plans receipts)
      (ht : t.decisionReceipts = s.decisionReceipts ++ receipts) : Loop E server round s cids (.ok plans t)
  | raised {e : PyError} {before : List Cid} {cid : Cid} {later : List Cid} {receipts : List DecisionReceipt}
      {t : Policy} (hcids : cids = before ++ cid :: later) (hb : ∀ c ∈ before, Plannable E server round s c)
      (hn : ¬ Plannable E server round s cid) (hl : receipts.length = before.length)
      (ht : t.decisionReceipts = s.decisionReceipts ++ receipts) (hd : t.roundDiagnostics = s.roundDiagnostics)
      (ha : t.roundAssignments = s.roundAssignments) : Loop E server round s cids (.error e t)

theorem planClients_loop (hs : s.Loaded) :
    Loop E server round s cids ((cids.mapM (planClient C E server round)).run s) := by
  induction cids generalizing s with
  | nil => exact .planned (by simp) rfl .nil (List.append_nil _).symm
  | cons cid cids ih =>
    have hturn : Turn E server round s cid _ := planClient_turn (C := C) hs
    rw [List.mapM_cons]
    cases hrun : (planClient C E server round cid).run s with
    | error e t =>
      rw [hrun] at hturn
      rw [Method.run_bind_of_error hrun]
      cases hturn with
      | raised hp hl =>
        have hcids : cid :: cids = [] ++ cid :: cids := rfl
        have hlen : ([] : List DecisionReceipt).length = ([] : List Cid).length := rfl
        exact .raised hcids (by simp) hp hlen (hl.receipts.trans (List.append_nil _).symm) hl.diagnostics hl.assignments
    | ok p u =>
      rw [hrun] at hturn
      rw [Method.run_bind_of_ok hrun]
      have hview : SameView E s u := planClient_respects.of_ok hrun hs
      have hloop := ih (hview.loaded hs)
      cases hturn with
      | @planned _ r _ hp hc hr hu hd ha =>
        cases hrest : (cids.mapM (planClient C E server round)).run u with
        | error e t =>
          rw [hrest] at hloop
          rw [Method.run_bind_of_error hrest]
          cases hloop with
          | @raised _ before _ _ receipts _ hcids hb hn hl ht hd' ha' =>
            have hlen : (r :: receipts).length = (cid :: before).length := congrArg (· + 1) hl
            refine .raised (congrArg (cid :: ·) hcids) ?_ (mt (plannable_congr hview).mpr hn) hlen ?_
              (hd'.trans hd) (ha'.trans ha)
            · intro c hc'
              rcases List.mem_cons.mp hc' with rfl | hc'
              · exact hp
              · exact (plannable_congr hview).mp (hb c hc')
            · rw [ht, hu, List.append_assoc, List.singleton_append]
        | ok plans t =>
          rw [hrest] at hloop
          rw [Method.run_bind_of_ok hrest]
          cases hloop with
          | planned hp' hc' hr' ht =>
            refine .planned ?_ ?_ (.cons (hc.symm ▸ hr) hr') ?_
            · intro c hm
              rcases List.mem_cons.mp hm with rfl | hm
              · exact hp
              · exact (plannable_congr hview).mp (hp' c hm)
            · rw [List.map_cons, hc, hc']
            · rw [ht, hu, List.append_assoc, List.singleton_append]

end Cohort

section Round

variable {s t : Policy} {server : ServerContext} {round : ℤ} {cids clientIds : List Cid}

/-- The first client of the cohort can be planned, and a later one cannot. -/
def Stalls (C : GreedyConfig) (E : Environment) (s : Policy) (round : ℤ) (cids : List Cid) : Prop :=
  ∃ s₀ server first rest, (prepare C E).run s = .ok () s₀ ∧ E.server = .ok server ∧ cids = first :: rest ∧
    Plannable E server round s₀ first ∧ ∃ cid ∈ rest, ¬ Plannable E server round s₀ cid

/-- A cohort is planned where the loop over it returns. -/
theorem planTraining_run {s₀ : Policy} (hprep : (prepare C E).run s = .ok () s₀) (hserver : E.server = .ok server) :
    (planTraining C E round cids).run s = match (cids.mapM (planClient C E server round)).run s₀ with
      | .ok plans t => .ok (assignmentOf plans) (recordRound C E server round plans t)
      | .error e t => .error e t := by
  obtain ⟨_, u, hu, hs₀⟩ := Method.bind_eq_ok hprep
  rw [planTraining, Method.run_bind_of_ok hu, Method.run_bind_of_ok hs₀, hserver, Method.ok_bind_run, EStateM.run_bind]
  cases (cids.mapM (planClient C E server round)).run s₀ <;> rfl

theorem planTraining_of_prepare_error {e : PyError} (h : (prepare C E).run s = .error e t) :
    (planTraining C E round cids).run s = .error e t := by
  rw [planTraining]
  cases hu : (discard (catalog C E)).run s with
  | error e' u =>
    rw [prepare, Method.run_bind_of_error hu] at h
    cases h
    exact Method.run_bind_of_error hu
  | ok _ u =>
    rw [prepare, Method.run_bind_of_ok hu] at h
    rw [Method.run_bind_of_ok hu, Method.run_bind_of_error h]

theorem planTraining_of_server_error {s₀ : Policy} {e : PyError} (hprep : (prepare C E).run s = .ok () s₀)
    (hserver : E.server = .error e) : (planTraining C E round cids).run s = .error e s₀ := by
  obtain ⟨_, u, hu, hs₀⟩ := Method.bind_eq_ok hprep
  rw [planTraining, Method.run_bind_of_ok hu, Method.run_bind_of_ok hs₀, hserver]
  rfl

/-- What a cohort leaves that cannot be planned. -/
theorem planTraining_error {e : PyError} (h : (planTraining C E round cids).run s = .error e t) :
    t.roundDiagnostics = s.roundDiagnostics ∧ t.roundAssignments = s.roundAssignments ∧
    (t.decisionReceipts = s.decisionReceipts ↔ ¬ Stalls C E s round cids) := by
  have hlog : Method.Respects SameLog (prepare C E) := sameLog_prepare
  cases hprep : (prepare C E).run s with
  | error e' u =>
    rw [planTraining_of_prepare_error hprep] at h
    cases h
    have hlog := Method.Leaves.of_respects hlog s e t hprep
    refine ⟨hlog.diagnostics, hlog.assignments, iff_of_true hlog.receipts ?_⟩
    rintro ⟨s₀, _, _, _, hs₀, -⟩
    cases hprep.symm.trans hs₀
  | ok _ s₀ =>
    have hlog := hlog.of_ok hprep
    cases hserver : E.server with
    | error e' =>
      rw [planTraining_of_server_error hprep hserver] at h
      cases h
      refine ⟨hlog.diagnostics, hlog.assignments, iff_of_true hlog.receipts ?_⟩
      rintro ⟨_, _, _, _, -, hserver', -⟩
      cases hserver.symm.trans hserver'
    | ok server =>
      have hloop : Loop E server round s₀ cids _ := planClients_loop (C := C) (loaded_of_prepare hprep)
      rw [planTraining_run hprep hserver] at h
      cases hrun : (cids.mapM (planClient C E server round)).run s₀ with
      | ok plans u =>
        rw [hrun] at h
        cases h
      | error e' u =>
        rw [hrun] at h hloop
        cases h
        cases hloop with
        | @raised _ before cid later receipts _ hcids hb hn hl ht hd ha =>
          refine ⟨hd.trans hlog.diagnostics, ha.trans hlog.assignments, ?_⟩
          rw [ht, hlog.receipts, List.append_right_eq_self, ← List.length_eq_zero_iff, hl,
            List.length_eq_zero_iff]
          constructor
          · rintro rfl ⟨s₁, server', first, rest, hprep', hserver', hcids', hfirst, -⟩
            cases hprep.symm.trans hprep'
            cases hserver.symm.trans hserver'
            cases hcids.symm.trans hcids'
            exact hn hfirst
          · intro hno
            cases before with
            | nil => rfl
            | cons first before =>
              refine absurd ⟨s₀, server, first, before ++ cid :: later, hprep, hserver, hcids, ?_, cid, ?_, hn⟩ hno
              · exact hb first List.mem_cons_self
              · exact List.mem_append_right before List.mem_cons_self

theorem planTraining_of_stalls (h : Stalls C E s round cids) :
    ∃ e t, (planTraining C E round cids).run s = .error e t := by
  obtain ⟨s₀, server, first, rest, hprep, hserver, hcids, -, cid, hcid, hn⟩ := h
  have hloop : Loop E server round s₀ cids _ := planClients_loop (C := C) (loaded_of_prepare hprep)
  rw [planTraining_run hprep hserver]
  cases hrun : (cids.mapM (planClient C E server round)).run s₀ with
  | error e t => exact ⟨e, t, rfl⟩
  | ok plans t =>
    rw [hrun] at hloop
    cases hloop with
    | planned hp =>
      rw [hcids] at hp
      exact absurd (hp cid (List.mem_cons_of_mem first hcid)) hn

/-- A round that is planned adds one receipt for each client of the cohort. -/
theorem planTraining_receipts {assignment : Dict Cid String} (hnd : cids.Nodup)
    (h : (planTraining C E round cids).run s = .ok assignment t) :
    ∃ receipts, t.decisionReceipts = s.decisionReceipts ++ receipts ∧
      List.Forall₂ (fun cid r ↦ ∃ boundary, assignment.get? cid = some boundary ∧ ReceiptFor E round cid boundary r)
        cids receipts := by
  obtain ⟨_, u, hu, h⟩ := Method.bind_eq_ok h
  obtain ⟨_, s₀, hs₀, h⟩ := Method.bind_eq_ok h
  have hprep : (prepare C E).run s = .ok () s₀ := by
    rw [prepare, Method.run_bind_of_ok hu]
    exact hs₀
  have hlog : SameLog s s₀ := sameLog_prepare.of_ok hprep
  obtain ⟨server, -, h⟩ := Method.lift_bind_eq_ok h
  obtain ⟨plans, v, hplans, h⟩ := Method.bind_eq_ok h
  cases h
  have hloop : Loop E server round s₀ cids _ := planClients_loop (C := C) (loaded_of_prepare hprep)
  rw [hplans] at hloop
  cases hloop with
  | @planned _ receipts _ _ hc hr ht =>
    refine ⟨receipts, by rw [← hlog.receipts, ← ht]; rfl, ?_⟩
    rw [← hc, List.forall₂_map_left_iff]
    have hget : ∀ p ∈ plans, (assignmentOf plans).get? p.cid = some p.boundary :=
      fun p hp ↦ get?_assignmentOf (hc.symm ▸ hnd) hp
    exact ((List.forall₂_and_left plans receipts).mpr ⟨hget, hr⟩).imp fun p r hp ↦ ⟨p.boundary, hp⟩

theorem planEvaluation_leaves : Method.Leaves SameLog (planEvaluation E cids) := by
  refine .bind (.lift _) fun candidates ↦ ?_
  dsimp only
  cases firstMin (fun c d ↦ decide (fromMiddle c < fromMiddle d)) (candidates.filter (·.valid)) with
  | none => exact .of_respects (.throw _)
  | some middle => exact .of_respects (.bind .get fun _ ↦ .pure _)

theorem planRound_of_uncached (training : Bool) (hne : sortedSet clientIds ≠ [])
    (hc : s.roundAssignments.get? (round, training) = none) :
    (planRound C E round clientIds training).run s =
      (if training then planTraining C E round (sortedSet clientIds)
        else planEvaluation E (sortedSet clientIds)).run s := by
  rw [planRound, if_neg hne, Method.get_bind_run, hc]

theorem planRound_of_found {training : Bool} {cached : Dict Cid String} (hne : sortedSet clientIds ≠ [])
    (hc : s.roundAssignments.get? (round, training) = some cached) :
    (planRound C E round clientIds training).run s =
      if sortedSet cached.keys = sortedSet clientIds then .ok cached s
      else .error (.valueError "A round's selected client set must remain stable") s := by
  rw [planRound, if_neg hne, Method.get_bind_run, hc]
  dsimp only
  rw [require]
  split_ifs <;> rfl

/-- A call that raises leaves no trace, and a retry that returns gives each client of the cohort one
receipt, whatever the telemetry says by then. -/
def Traceless (C : GreedyConfig) (E : Environment) (s : Policy) (round : ℤ) (clientIds : List Cid)
    (training : Bool) : Prop :=
  ∀ e t, (planRound C E round clientIds training).run s = .error e t →
    t.decisionReceipts = s.decisionReceipts ∧ t.roundDiagnostics = s.roundDiagnostics ∧
    t.roundAssignments = s.roundAssignments ∧
    (training = true → ∀ E' assignment u, (planRound C E' round clientIds true).run t = .ok assignment u →
      ∃ receipts, u.decisionReceipts = s.decisionReceipts ++ receipts ∧
        List.Forall₂ (fun cid r ↦ ∃ boundary, assignment.get? cid = some boundary ∧ ReceiptFor E' round cid boundary r)
          (sortedSet clientIds) receipts)

theorem planRound_traceless_iff (C : GreedyConfig) (E : Environment) (s : Policy) (round : ℤ) (clientIds : List Cid)
    (training : Bool) : Traceless C E s round clientIds training ↔
      ¬ (training = true ∧ s.roundAssignments.get? (round, true) = none ∧
        Stalls C E s round (sortedSet clientIds)) := by
  by_cases hne : sortedSet clientIds = []
  · refine iff_of_true (fun e t h ↦ ?_) ?_
    · rw [planRound, if_pos hne] at h
      cases h
    · rintro ⟨-, -, _, _, _, _, -, -, hcids, -⟩
      cases hne.symm.trans hcids
  cases hc : s.roundAssignments.get? (round, training) with
  | some cached =>
    by_cases hk : sortedSet cached.keys = sortedSet clientIds
    · refine iff_of_true (fun e t h ↦ ?_) ?_
      · rw [planRound_of_found hne hc, if_pos hk] at h
        cases h
      · rintro ⟨rfl, hc', -⟩
        cases hc.symm.trans hc'
    · refine iff_of_true (fun e t h ↦ ?_) ?_
      · rw [planRound_of_found hne hc, if_neg hk] at h
        cases h
        refine ⟨rfl, rfl, rfl, ?_⟩
        rintro rfl E' assignment u hu
        rw [planRound_of_found hne hc, if_neg hk] at hu
        cases hu
      · rintro ⟨rfl, hc', -⟩
        cases hc.symm.trans hc'
  | none =>
    rw [Traceless, planRound_of_uncached training hne hc]
    cases training with
    | false =>
      refine iff_of_true (fun e t h ↦ ?_) fun h ↦ Bool.false_ne_true h.1
      have hlog := planEvaluation_leaves s e t h
      exact ⟨hlog.receipts, hlog.diagnostics, hlog.assignments, fun h ↦ absurd h Bool.false_ne_true⟩
    | true =>
      rw [if_pos rfl]
      constructor
      · rintro htrace ⟨-, -, hstalls⟩
        obtain ⟨e, t, h⟩ := planTraining_of_stalls hstalls
        exact (planTraining_error h).2.2.mp (htrace e t h).1 hstalls
      · intro hno e t h
        have hno' : ¬ Stalls C E s round (sortedSet clientIds) := fun hs ↦ hno ⟨rfl, hc, hs⟩
        obtain ⟨hd, ha, hr⟩ := planTraining_error h
        refine ⟨hr.mpr hno', hd, ha, fun _ E' assignment u hu ↦ ?_⟩
        cases planned_of_planRound hu with
        | empty hnil => exact absurd hnil hne
        | cached _ hc' =>
          rw [ha, hc] at hc'
          cases hc'
        | decided _ _ hp =>
          rw [← hr.mpr hno']
          exact planTraining_receipts (nodup_sortedSet clientIds) hp

end Round

section Sample

/-- A second client, which does not say what its batches are. -/
def twoClients : Environment :=
  { sampleEnvironment with
    client := fun cid ↦ if cid = "b" then .ok ⟨some "b", none, none, ⟨none, none, none⟩⟩ else
      sampleEnvironment.client cid }

/-- The second client raises, and the receipt of the first one stays. -/
theorem receipt_of_failed_round : ¬ ∀ (C : GreedyConfig) (E : Environment) (s : Policy) (round : ℤ)
    (clientIds : List Cid) (training : Bool), Traceless C E s round clientIds training := by
  intro hall
  have hrun : (planRound sampleConfig twoClients 1 ["a", "b"] true).run samplePolicy = .error _ _ := rfl
  have hlen := congrArg List.length (hall sampleConfig twoClients samplePolicy 1 ["a", "b"] true _ _ hrun).1
  cases hlen

end Sample

end SplitFleet.GreedyPolicy
