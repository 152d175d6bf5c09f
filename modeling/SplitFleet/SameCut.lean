import SplitFleet.PlacementPlans
import SplitFleet.RoundBookkeeping

set_option autoImplicit false

namespace SplitFleet.SameCut

open Lib Strategy PlacementPlans

variable {E : Environment} {S : Settings} {s s' s'' : State} {round : ℕ}

/-- A call of a round. The third is a call of `_plan_round_placements` by itself. -/
inductive RoundCall
  | configureFit (parameters : List Tensor) (selection : Except PyError (List Cid))
  | configureServerFit (parameters : List Tensor) (cids : List Cid)
  | plan (cids : List Cid) (training : Bool)

/-- The configurations that a call gives: of the clients by id, or of the suffixes by sid. -/
def RoundCall.run (E : Environment) (S : Settings) (s : State) (round : ℕ) :
    RoundCall → State × Except PyError (List (Cid × StageConfig))
  | .configureFit parameters selection => PlacementPlans.configureFit E S s round parameters selection
  | .configureServerFit parameters cids => PlacementPlans.configureServerFit E S s round parameters cids
  | .plan cids training => andThen (planRound E S s round cids training) fun s _ ↦ (s, .ok [])

/-- The states of a run of the strategy: the calls above in any round, the evaluation calls, direct
calls of `get_or_create_placement_plan`, whatever other calls leave in the stores, and releases. -/
inductive Reached (E : Environment) (S : Settings) : State → Prop
  | start (stores : Stores) :
      Reached E S ⟨stores, 0, 0, S.boundary, none, fun _ _ ↦ none, fun _ _ ↦ none⟩
  | call {s : State} (h : Reached E S s) (round : ℕ) (c : RoundCall) : Reached E S (c.run E S s round).1
  | client {s : State} (h : Reached E S s) (round : ℕ) (cid : Cid) (training : Bool) :
      Reached E S (configFor E S s round cid training).1
  | plan {s : State} (h : Reached E S s) (boundary : Option String) (training : Bool) :
      Reached E S (getOrCreatePlacementPlan E S s boundary training).1
  | stores {s : State} (h : Reached E S s) (stores : Stores) : Reached E S { s with stores := stores }
  | release {s : State} (h : Reached E S s) : Reached E S (releasePlacementRuntimes s)

/-- The states after further calls of a round. -/
inductive Later (E : Environment) (S : Settings) (round : ℕ) (s : State) : State → Prop
  | refl : Later E S round s s
  | call {s' : State} (h : Later E S round s s') (c : RoundCall) : Later E S round s (c.run E S s' round).1

/-! ### Calls in sequence -/

theorem andThen_ok {α β : Type} {x : State × Except PyError α}
    {f : State → α → State × Except PyError β} {b : β} (h : (andThen x f).2 = .ok b) :
    ∃ a, x.2 = .ok a ∧ andThen x f = f x.1 a := by
  obtain ⟨s, e | a⟩ := x
  · cases h
  · exact ⟨a, rfl, rfl⟩

/-! ### The caches grow -/

/-- The plans of a phase are marked with it. -/
def Flagged (s : State) : Prop :=
  ∀ training b p, s.placementPlans training b = some p → p.training = training

/-- What is in a cache stays, and a new plan is marked with its phase. -/
structure Extends (s s' : State) : Prop where
  plans : ∀ training b p, s.placementPlans training b = some p → s'.placementPlans training b = some p
  templates : ∀ id training t, s.autosplitConfigCache id training = some t →
    s'.autosplitConfigCache id training = some t
  flagged : Flagged s → Flagged s'

theorem Extends.refl : Extends s s := ⟨fun _ _ _ h ↦ h, fun _ _ _ h ↦ h, fun h ↦ h⟩

theorem Extends.trans (h : Extends s s') (h' : Extends s' s'') : Extends s s'' :=
  ⟨fun training b p hp ↦ h'.plans training b p (h.plans training b p hp),
    fun id training t ht ↦ h'.templates id training t (h.templates id training t ht),
    fun hf ↦ h'.flagged (h.flagged hf)⟩

theorem extends_andThen {α β : Type} {x : State × Except PyError α}
    {f : State → α → State × Except PyError β} (hx : Extends s x.1)
    (hf : ∀ a, x.2 = .ok a → Extends x.1 (f x.1 a).1) : Extends s (andThen x f).1 := by
  obtain ⟨t, e | a⟩ := x
  · exact hx
  · exact hx.trans (hf a rfl)

/-- An update of other fields. -/
theorem extends_of_eq (hp : s'.placementPlans = s.placementPlans)
    (ht : s'.autosplitConfigCache = s.autosplitConfigCache) : Extends s s' := by
  refine ⟨?_, ?_, ?_⟩
  · rw [hp]
    exact fun _ _ _ h ↦ h
  · rw [ht]
    exact fun _ _ _ h ↦ h
  · rw [Flagged, Flagged, hp]
    exact fun h ↦ h

theorem extends_resolveBoundary (boundary : Option String) :
    Extends s (resolveBoundary E S s boundary).1 := by
  unfold resolveBoundary
  repeat' split
  all_goals exact extends_of_eq rfl rfl

theorem extends_storePlan {training : Bool} {b : String} {p : Placement}
    (hb : s.placementPlans training b = none) (hp : p.training = training) :
    Extends s (storePlan s training b p) := by
  refine ⟨?_, fun _ _ _ h ↦ h, ?_⟩
  · intro phase b' q hq
    simp only [storePlan]
    split_ifs with he
    · obtain ⟨rfl, rfl⟩ := he
      cases hb.symm.trans hq
    · exact hq
  · intro hf phase b' q hq
    simp only [storePlan] at hq
    split_ifs at hq with he
    · cases hq
      exact hp.trans he.1.symm
    · exact hf phase b' q hq

theorem extends_findPlan (requested : String) (training : Bool) :
    Extends s (findPlan E s requested training).1 := by
  unfold findPlan
  cases hc : s.placementPlans training requested with
  | some p => exact .refl
  | none =>
    dsimp only
    split
    · exact extends_of_eq rfl rfl
    · exact extends_of_eq rfl rfl
    · next p _ =>
      have hcount : Extends s { s with prepareCalls := s.prepareCalls + 1 } := extends_of_eq rfl rfl
      exact hcount.trans (extends_storePlan hc rfl)

theorem extends_getOrCreate (boundary : Option String) (training : Bool) :
    Extends s (getOrCreatePlacementPlan E S s boundary training).1 := by
  apply extends_andThen (extends_resolveBoundary boundary)
  intro requested _
  apply extends_andThen (extends_findPlan requested training)
  intro p _
  dsimp only
  split_ifs
  · exact extends_of_eq rfl rfl
  · exact .refl

theorem extends_planRound (round : ℕ) (cids : List Cid) (training : Bool) :
    Extends s (planRound E S s round cids training).1 :=
  extends_of_eq rfl rfl

theorem extends_assignmentsFor (round : ℕ) (cid : Cid) (training : Bool) :
    Extends s (assignmentsFor E S s round cid training).1 := by
  unfold assignmentsFor
  split
  · exact .refl
  · exact extends_planRound round [cid] training

theorem extends_placementForClient (round : ℕ) (cid : Cid) (training : Bool) :
    Extends s (placementForClient E S s round cid training).1 := by
  unfold placementForClient
  split_ifs
  · apply extends_andThen (extends_assignmentsFor round cid training)
    intro assignments _
    cases assignments.get? cid with
    | none => exact .refl
    | some boundary => exact extends_getOrCreate (some boundary) training
  · exact extends_getOrCreate none training

theorem extends_planOfPhase (p : Placement) (training : Bool) :
    Extends s (planOfPhase E S s p training).1 := by
  unfold planOfPhase
  split_ifs
  · exact extends_getOrCreate (some p.boundary) training
  · exact .refl

theorem extends_templateOf (p : Placement) (training : Bool) :
    Extends s (templateOf E S s p training).1 := by
  unfold templateOf
  cases hc : s.autosplitConfigCache p.planId training with
  | some t => exact .refl
  | none =>
    dsimp only
    split
    · exact .refl
    · refine ⟨fun _ _ _ h ↦ h, ?_, fun h ↦ h⟩
      intro id phase t ht
      simp only [storeTemplate]
      split_ifs with he
      · obtain ⟨rfl, rfl⟩ := he
        cases hc.symm.trans ht
      · exact ht

theorem autosplitConfig_some (v : ℤ) (training : Bool) (p : Placement) :
    autosplitConfig E S s v training (some p) = andThen (planOfPhase E S s p training) fun s q ↦
      andThen (templateOf E S s q training) fun s t ↦ (s, .ok (stageConfig v t)) :=
  rfl

theorem extends_autosplitConfig (v : ℤ) (training : Bool) (p : Placement) :
    Extends s (autosplitConfig E S s v training (some p)).1 := by
  rw [autosplitConfig_some]
  apply extends_andThen (extends_planOfPhase p training)
  intro q _
  exact extends_andThen (extends_templateOf q training) fun t _ ↦ .refl

theorem extends_configFor (round : ℕ) (cid : Cid) (training : Bool) :
    Extends s (configFor E S s round cid training).1 :=
  extends_andThen (extends_placementForClient round cid training)
    fun p _ ↦ extends_autosplitConfig round training p

theorem extends_recordManifest (cid : Cid) (c : StageConfig) : Extends s (recordManifest s round cid c) := by
  unfold recordManifest
  split <;> exact extends_of_eq rfl rfl

theorem extends_configureClients (cids : List Cid) : Extends s (PlacementPlans.configureClients E S round s cids).1 := by
  induction cids generalizing s with
  | nil => exact .refl
  | cons cid rest ih =>
    apply extends_andThen (extends_configFor round cid true)
    intro c _
    apply extends_andThen
    · apply Extends.trans _ ih
      split_ifs
      · exact extends_recordManifest cid c
      · exact .refl
    · intro tail _
      exact .refl

theorem extends_configureReplicas (cids sids : List Cid) :
    Extends s (PlacementPlans.configureReplicas E S round cids s sids).1 := by
  induction sids generalizing s with
  | nil => exact .refl
  | cons sid rest ih =>
    unfold PlacementPlans.configureReplicas
    split
    · exact .refl
    · next cid _ =>
      apply extends_andThen (extends_configFor round cid true)
      intro c _
      exact extends_andThen ih fun tail _ ↦ .refl

theorem extends_call (c : RoundCall) : Extends s (c.run E S s round).1 := by
  cases c with
  | configureFit parameters selection =>
    simp only [RoundCall.run, PlacementPlans.configureFit]
    split
    · exact extends_of_eq rfl rfl
    · next selected =>
      apply extends_andThen
      · exact extends_of_eq rfl rfl
      · intro assignments _
        exact extends_configureClients selected
  | configureServerFit parameters cids =>
    simp only [RoundCall.run, PlacementPlans.configureServerFit]
    split
    · exact .refl
    · apply extends_andThen
      · exact extends_of_eq rfl rfl
      · intro assignments _
        exact extends_configureReplicas cids _
  | plan cids training => exact extends_andThen (extends_planRound round cids training) fun _ _ ↦ .refl

theorem Reached.flagged (h : Reached E S s) : Flagged s := by
  induction h with
  | start stores =>
    intro training b p hp
    cases hp
  | call _ round c ih => exact (extends_call c).flagged ih
  | client _ round cid training ih => exact (extends_configFor round cid training).flagged ih
  | plan _ boundary training ih => exact (extends_getOrCreate boundary training).flagged ih
  | stores _ _ ih => exact ih
  | release _ ih =>
    intro training b p hp
    cases hp

/-! ### What one client gets -/

/-- The assignments of the training phase of a round are fixed. -/
def Fixed (round : ℕ) (a : Dict Cid String) (s : State) : Prop :=
  s.stores.roundPlacementAssignments round true = some a

/-- The default boundary and the training assignments of a round stay. -/
structure Stays (round : ℕ) (s s' : State) : Prop where
  boundary : s'.boundary = s.boundary
  assignments : s'.stores.roundPlacementAssignments round true = s.stores.roundPlacementAssignments round true

theorem Stays.refl : Stays round s s := ⟨rfl, rfl⟩

theorem Stays.trans (h : Stays round s s') (h' : Stays round s' s'') : Stays round s s'' :=
  ⟨h'.boundary.trans h.boundary, h'.assignments.trans h.assignments⟩

theorem stays_andThen {α β : Type} {x : State × Except PyError α}
    {f : State → α → State × Except PyError β} (hx : Stays round s x.1)
    (hf : ∀ a, x.2 = .ok a → Stays round x.1 (f x.1 a).1) : Stays round s (andThen x f).1 := by
  obtain ⟨t, e | a⟩ := x
  · exact hx
  · exact hx.trans (hf a rfl)

theorem Fixed.stays {a : Dict Cid String} (h : Fixed round a s) (hs : Stays round s s') : Fixed round a s' :=
  hs.assignments.trans h

theorem stays_findPlan (requested : String) (training : Bool) :
    Stays round s (findPlan E s requested training).1 := by
  unfold findPlan
  split
  · exact .refl
  · split <;> exact ⟨rfl, rfl⟩

/-- The boundary under which a plan is kept. -/
def requested (s : State) (boundary : Option String) : String :=
  if boundary.getD "" = "" then s.boundary else boundary.getD ""

/-- Only a default boundary is ever replaced, and only where there is a placement policy. -/
theorem resolveBoundary_eq {boundary : Option String} (h : S.hasPlacementPolicy = true → boundary ≠ none) :
    resolveBoundary E S s boundary = (s, .ok (requested s boundary)) := by
  unfold resolveBoundary
  cases boundary with
  | some b => rfl
  | none =>
    have hp : S.hasPlacementPolicy = false := by
      by_contra hp
      exact h (by simpa using hp) rfl
    simp [hp, requested]

theorem stays_getOrCreate {boundary : Option String} (h : S.hasPlacementPolicy = true → boundary ≠ none)
    (training : Bool) : Stays round s (getOrCreatePlacementPlan E S s boundary training).1 := by
  unfold getOrCreatePlacementPlan
  rw [resolveBoundary_eq h]
  apply stays_andThen (stays_findPlan (requested s boundary) training)
  intro p _
  dsimp only
  split_ifs <;> exact ⟨rfl, rfl⟩

theorem findPlan_ok {b : String} {training : Bool} {p : Placement}
    (h : (findPlan E s b training).2 = .ok p) :
    (findPlan E s b training).1.placementPlans training b = some p := by
  unfold findPlan at h ⊢
  cases hc : s.placementPlans training b with
  | some q =>
    simp only [hc] at h ⊢
    cases h
    rfl
  | none =>
    simp only [hc] at h ⊢
    cases hq : E.prepare s.prepareCalls b training with
    | error e => simp [hq] at h
    | ok q =>
      cases q with
      | none => simp [hq] at h
      | some q =>
        simp only [hq] at h ⊢
        cases h
        simp [storePlan]

theorem getOrCreate_ok {boundary : Option String} (hb : S.hasPlacementPolicy = true → boundary ≠ none)
    {training : Bool} {p : Placement} (h : (getOrCreatePlacementPlan E S s boundary training).2 = .ok p) :
    (getOrCreatePlacementPlan E S s boundary training).1.placementPlans training (requested s boundary) = some p := by
  unfold getOrCreatePlacementPlan at h ⊢
  rw [resolveBoundary_eq hb] at h ⊢
  obtain ⟨q, hq, he⟩ := andThen_ok (x := findPlan E s (requested s boundary) training) h
  have hstored := findPlan_ok hq
  change (andThen (findPlan E s (requested s boundary) training) _).1.placementPlans training _ = some p
  change (andThen (findPlan E s (requested s boundary) training) _).2 = .ok p at h
  rw [he] at h ⊢
  cases h
  dsimp only
  split_ifs <;> exact hstored

theorem templateOf_ok {p : Placement} {training : Bool} {t : Template}
    (h : (templateOf E S s p training).2 = .ok t) :
    (templateOf E S s p training).1.autosplitConfigCache p.planId training = some t := by
  unfold templateOf at h ⊢
  cases hc : s.autosplitConfigCache p.planId training with
  | some t' =>
    simp only [hc] at h ⊢
    cases h
    rfl
  | none =>
    simp only [hc] at h ⊢
    cases hb : buildTemplate E S p training with
    | error e => simp [hb] at h
    | ok t' =>
      simp only [hb] at h ⊢
      cases h
      simp [storeTemplate]

theorem stays_templateOf (p : Placement) (training : Bool) : Stays round s (templateOf E S s p training).1 := by
  unfold templateOf
  split
  · exact .refl
  · split <;> exact ⟨rfl, rfl⟩

/-- The boundary that the strategy keeps the plan of a client under. -/
def cutOf (S : Settings) (s : State) (a : Dict Cid String) (cid : Cid) : Option String :=
  if S.hasPlacementPolicy then (a.get? cid).map fun b ↦ requested s (some b) else some (requested s none)

/-- The caches determine the configuration of a cut. -/
def Settled (round : ℕ) (s : State) (b : String) (c : StageConfig) : Prop :=
  ∃ p t, s.placementPlans true b = some p ∧ s.autosplitConfigCache p.planId true = some t ∧
    c = stageConfig round t

theorem Settled.extends {b : String} {c : StageConfig} (h : Settled round s b c) (he : Extends s s') :
    Settled round s' b c := by
  obtain ⟨p, t, hp, ht, hc⟩ := h
  exact ⟨p, t, he.plans true b p hp, he.templates p.planId true t ht, hc⟩

theorem Settled.unique {b : String} {c c' : StageConfig} (h : Settled round s b c)
    (h' : Settled round s b c') : c = c' := by
  obtain ⟨p, t, hp, ht, rfl⟩ := h
  obtain ⟨q, u, hq, hu, rfl⟩ := h'
  cases hp.symm.trans hq
  cases ht.symm.trans hu
  rfl

theorem stays_placementForClient {a : Dict Cid String} (hf : Fixed round a s) (cid : Cid) :
    Stays round s (placementForClient E S s round cid true).1 := by
  unfold placementForClient
  split_ifs with hp
  · have ha : assignmentsFor E S s round cid true = (s, .ok a) := by
      unfold assignmentsFor
      rw [hf]
    rw [ha]
    cases hg : a.get? cid with
    | none => simpa [andThen, hg] using Stays.refl
    | some b =>
      have hs : Stays round s (getOrCreatePlacementPlan E S s (some b) true).1 := stays_getOrCreate (by simp) true
      simpa [andThen, hg] using hs
  · exact stays_getOrCreate (fun h ↦ absurd h hp) true

theorem placementForClient_ok {a : Dict Cid String} (hf : Fixed round a s) {cid : Cid} {p : Placement}
    (h : (placementForClient E S s round cid true).2 = .ok p) :
    ∃ b, cutOf S s a cid = some b ∧
      (placementForClient E S s round cid true).1.placementPlans true b = some p := by
  unfold placementForClient at h ⊢
  unfold cutOf
  split_ifs at h ⊢ with hp
  · have ha : assignmentsFor E S s round cid true = (s, .ok a) := by
      unfold assignmentsFor
      rw [hf]
    rw [ha] at h ⊢
    cases hg : a.get? cid with
    | none => simp [andThen, hg] at h
    | some b =>
      simp only [andThen, hg] at h ⊢
      exact ⟨_, rfl, getOrCreate_ok (by simp) h⟩
  · exact ⟨_, rfl, getOrCreate_ok (fun h ↦ absurd h hp) h⟩

theorem planOfPhase_eq {p : Placement} {training : Bool} (h : p.training = training) :
    planOfPhase E S s p training = (s, .ok p) := by
  unfold planOfPhase
  rw [if_neg (by simp [h])]

theorem stays_configFor {a : Dict Cid String} (hs : Flagged s) (hf : Fixed round a s) (cid : Cid) :
    Stays round s (configFor E S s round cid true).1 := by
  apply stays_andThen (stays_placementForClient hf cid)
  intro p hp
  obtain ⟨b, -, hstored⟩ := placementForClient_ok hf hp
  have htraining : p.training = true :=
    (extends_placementForClient round cid true).flagged hs true b p hstored
  rw [autosplitConfig_some, planOfPhase_eq htraining]
  change Stays round _ (andThen (templateOf E S _ p true) _).1
  exact stays_andThen (stays_templateOf p true) fun t _ ↦ .refl

theorem configFor_ok {a : Dict Cid String} (hs : Flagged s) (hf : Fixed round a s) {cid : Cid}
    {c : StageConfig} (h : (configFor E S s round cid true).2 = .ok c) :
    ∃ b, cutOf S s a cid = some b ∧ Settled round (configFor E S s round cid true).1 b c := by
  unfold configFor at h ⊢
  obtain ⟨p, hp, he⟩ := andThen_ok h
  rw [he] at h ⊢
  obtain ⟨b, hb, hstored⟩ := placementForClient_ok hf hp
  have htraining : p.training = true :=
    (extends_placementForClient round cid true).flagged hs true b p hstored
  rw [autosplitConfig_some, planOfPhase_eq htraining] at h ⊢
  obtain ⟨t, ht, he'⟩ := andThen_ok (x := templateOf E S _ p true) h
  change (andThen (templateOf E S _ p true) _).2 = .ok c at h
  change ∃ b, cutOf S s a cid = some b ∧ Settled round (andThen (templateOf E S _ p true) _).1 b c
  rw [he'] at h ⊢
  cases h
  exact ⟨b, hb, p, t, (extends_templateOf p true).plans true b p hstored, templateOf_ok ht, rfl⟩

/-- The cut of a client depends on what stays in a round. -/
theorem cutOf_stays (h : Stays round s s') (a : Dict Cid String) (cid : Cid) : cutOf S s' a cid = cutOf S s a cid := by
  simp only [cutOf, requested, h.boundary]

/-- Every configuration is the settled one of its client's cut. -/
def AllSettled (S : Settings) (round : ℕ) (a : Dict Cid String) (s : State) (l : List (Cid × StageConfig)) : Prop :=
  ∀ cid c, (cid, c) ∈ l → cid ≠ "" → ∃ b, cutOf S s a cid = some b ∧ Settled round s b c

theorem AllSettled.later {a : Dict Cid String} {l : List (Cid × StageConfig)} (h : AllSettled S round a s l)
    (hs : Stays round s s') (he : Extends s s') : AllSettled S round a s' l := by
  intro cid c hm hcid
  obtain ⟨b, hb, hc⟩ := h cid c hm hcid
  exact ⟨b, (cutOf_stays hs a cid).trans hb, hc.extends he⟩

/-- The result of a loop over clients in a round with fixed assignments. -/
structure Configured (S : Settings) (round : ℕ) (a : Dict Cid String) (s : State)
    (x : State × Except PyError (List (Cid × StageConfig))) : Prop where
  stays : Stays round s x.1
  extends_ : Extends s x.1
  settled : ∀ l, x.2 = .ok l → AllSettled S round a x.1 l

theorem configured_nil {a : Dict Cid String} : Configured S round a s (s, .ok []) := by
  refine ⟨.refl, .refl, ?_⟩
  intro l hl cid c hm
  cases hl
  cases hm

/-- One turn of either loop: `id` is the key of the configuration, `cid` the client it is made for. -/
theorem configured_cons {a : Dict Cid String} (hs : Flagged s) (hf : Fixed round a s) {id cid : Cid}
    (hid : id ≠ "" → cid = id) {mid : State → StageConfig → State}
    (hmid : ∀ t c, Stays round t (mid t c) ∧ Extends t (mid t c))
    {rest : State → State × Except PyError (List (Cid × StageConfig))}
    (hrest : ∀ t, Flagged t → Fixed round a t → Configured S round a t (rest t)) :
    Configured S round a s (andThen (configFor E S s round cid true) fun t c ↦
      andThen (rest (mid t c)) fun u tail ↦ (u, .ok ((id, c) :: tail))) := by
  have hstays := stays_configFor (E := E) (S := S) hs hf cid
  have hext := extends_configFor (E := E) (S := S) (s := s) round cid true
  rcases hx : configFor E S s round cid true with ⟨t, e | c⟩
  · rw [hx] at hstays hext
    exact ⟨hstays, hext, fun l hl ↦ nomatch hl⟩
  · obtain ⟨b, hb, hsettled⟩ := configFor_ok hs hf (show (configFor E S s round cid true).2 = .ok c by rw [hx])
    rw [hx] at hstays hext hsettled
    obtain ⟨hsm, hem⟩ := hmid t c
    have hr := hrest (mid t c) (hem.flagged (hext.flagged hs)) ((hf.stays hstays).stays hsm)
    have hs' := (hstays.trans hsm).trans hr.stays
    have he' := (hext.trans hem).trans hr.extends_
    simp only [andThen]
    rcases hy : rest (mid t c) with ⟨u, e | tail⟩
    · rw [hy] at hs' he'
      exact ⟨hs', he', fun l hl ↦ nomatch hl⟩
    · rw [hy] at hs' he' hr
      refine ⟨hs', he', ?_⟩
      intro l hl k c' hm hk
      cases hl
      rcases List.mem_cons.mp hm with heq | hm
      · cases heq
        cases hid hk
        refine ⟨b, ?_, (hsettled.extends hem).extends hr.extends_⟩
        exact (cutOf_stays hs' a _).trans hb
      · exact hr.settled tail rfl k c' hm hk

theorem recordManifest_keeps (cid : Cid) (t : State) (c : StageConfig) :
    Stays round t (if S.ownedStateExchange then recordManifest t round cid c else t) ∧
      Extends t (if S.ownedStateExchange then recordManifest t round cid c else t) := by
  split_ifs
  · refine ⟨?_, extends_recordManifest cid c⟩
    unfold recordManifest
    split <;> exact ⟨rfl, rfl⟩
  · exact ⟨.refl, .refl⟩

theorem configured_clients {a : Dict Cid String} (hs : Flagged s) (hf : Fixed round a s) (cids : List Cid) :
    Configured S round a s (PlacementPlans.configureClients E S round s cids) := by
  induction cids generalizing s with
  | nil => exact configured_nil
  | cons cid rest ih => exact configured_cons hs hf (fun _ ↦ rfl) (recordManifest_keeps cid) fun t ↦ ih

theorem configured_replicas {a : Dict Cid String} (hs : Flagged s) (hf : Fixed round a s) (cids sids : List Cid) :
    Configured S round a s (PlacementPlans.configureReplicas E S round cids s sids) := by
  induction sids generalizing s with
  | nil => exact configured_nil
  | cons sid rest ih =>
    unfold PlacementPlans.configureReplicas
    by_cases hsid : sid = ""
    · rw [if_pos hsid]
      cases cids with
      | nil => exact ⟨.refl, .refl, fun l hl ↦ nomatch hl⟩
      | cons first _ =>
        exact configured_cons hs hf (fun h ↦ absurd hsid h) (fun _ _ ↦ ⟨.refl, .refl⟩) fun t ↦ ih
    · rw [if_neg hsid]
      exact configured_cons hs hf (fun _ ↦ rfl) (fun _ _ ↦ ⟨.refl, .refl⟩) fun t ↦ ih

/-! ### The calls of one round -/

def outsiders (a : Dict Cid String) (cids : List Cid) : List Cid := (cids.filter (fun cid ↦ cid ∉ a.keys)).dedup

def refusal (round : ℕ) (missing : List Cid) : PyError :=
  .valueError ("round " ++ toString round ++ " placement was already fixed without clients " ++
    pyReprList (missing.mergeSort (· ≤ ·)))

theorem planRound_ok {cids : List Cid} {training : Bool} {a : Dict Cid String}
    (h : (planRound E S s round cids training).2 = .ok a) :
    (planRound E S s round cids training).1.stores.roundPlacementAssignments round training = some a := by
  simp only [planRound] at h ⊢
  unfold planRoundPlacements at h ⊢
  cases hc : s.stores.roundPlacementAssignments round training with
  | some cached =>
    simp only [hc] at h ⊢
    split_ifs at h ⊢
    cases h
    exact hc
  | none =>
    simp only [hc] at h ⊢
    split at h
    · cases h
    · split_ifs at h ⊢
      cases h
      simp [Stores.placeRound, Stores.prunePlacementCache]

/-- Where the training assignments are fixed, planning the round again changes nothing. -/
theorem planRound_fixed {a : Dict Cid String} (hf : Fixed round a s) (cids : List Cid) :
    planRound E S s round cids true =
      (s, if outsiders a cids ≠ [] then .error (refusal round (outsiders a cids)) else .ok a) := by
  unfold Fixed at hf
  simp only [planRound, planRoundPlacements, hf, Option.isNone_some, Bool.and_false, Bool.false_eq_true, if_false]
  by_cases ho : outsiders a cids ≠ []
  · rw [if_pos ho]
    unfold outsiders at ho
    rw [if_pos ho]
    rfl
  · rw [if_neg ho]
    unfold outsiders at ho
    rw [if_neg ho]

theorem stays_planRound {a : Dict Cid String} (hf : Fixed round a s) (cids : List Cid) (training : Bool) :
    Stays round s (planRound E S s round cids training).1 := by
  refine ⟨rfl, ?_⟩
  rcases RoundBookkeeping.planRoundPlacements_cases { S with boundary := s.boundary } s.stores round cids training
    (E.policy s.policyCalls round cids training) with hs | ⟨hnone, assignments, hs⟩
  · exact congrArg (fun t ↦ t.roundPlacementAssignments round true) hs
  · have htraining : training = false := by
      by_contra ht
      rw [Bool.not_eq_false] at ht
      cases (ht ▸ hnone).symm.trans hf
    refine (congrArg (fun t ↦ t.roundPlacementAssignments round true) hs).trans ?_
    simp [Stores.placeRound, Stores.prunePlacementCache, htraining]

/-- What a call gives: fixed assignments stay, and where it returns configurations the assignments
are fixed and the configurations are the settled ones. -/
structure CallSpec (S : Settings) (round : ℕ) (s : State) (x : State × Except PyError (List (Cid × StageConfig))) :
    Prop where
  stays : ∀ a, Fixed round a s → Stays round s x.1
  settled : ∀ l, x.2 = .ok l → l = [] ∨ ∃ a, Fixed round a x.1 ∧ AllSettled S round a x.1 l

/-- Planning the round and then a loop over its clients. -/
theorem callSpec_planned (round : ℕ) (loop : State → State × Except PyError (List (Cid × StageConfig))) (hs : Flagged s)
    (hloop : ∀ t a, Flagged t → Fixed round a t → Configured S round a t (loop t)) (cids : List Cid) :
    CallSpec S round s (andThen (planRound E S s round cids true) fun t _ ↦ loop t) := by
  have hflagged := (extends_planRound (E := E) (S := S) (s := s) round cids true).flagged hs
  refine ⟨?_, ?_⟩
  · intro a hf
    have hstays := stays_planRound (E := E) (S := S) hf cids true
    exact stays_andThen hstays fun _ _ ↦ (hloop _ a hflagged (hf.stays hstays)).stays
  · intro l hl
    obtain ⟨a, ha, he⟩ := andThen_ok hl
    rw [he] at hl ⊢
    have hf : Fixed round a (planRound E S s round cids true).1 := planRound_ok ha
    have hc := hloop _ a hflagged hf
    exact .inr ⟨a, hf.stays hc.stays, hc.settled l hl⟩

/-- The stores of initial states are written before the planning. -/
theorem CallSpec.of_stores (stores : Stores) (ha : stores.roundPlacementAssignments = s.stores.roundPlacementAssignments)
    {x : State × Except PyError (List (Cid × StageConfig))} (h : CallSpec S round { s with stores := stores } x) :
    CallSpec S round s x := by
  have hstays : Stays round s { s with stores := stores } := ⟨rfl, by rw [ha]⟩
  exact ⟨fun a hf ↦ hstays.trans (h.stays a (hf.stays hstays)), h.settled⟩

theorem callSpec_call (hs : Flagged s) (c : RoundCall) : CallSpec S round s (c.run E S s round) := by
  cases c with
  | configureFit parameters selection =>
    simp only [RoundCall.run, PlacementPlans.configureFit]
    cases selection with
    | error e => exact ⟨fun a hf ↦ ⟨rfl, rfl⟩, fun l hl ↦ nomatch hl⟩
    | ok selected =>
      have hplanned := callSpec_planned (E := E) (s := { s with
          stores := (s.stores.discardRoundState ((round : ℤ) - 1)).setInitialClient round parameters })
        round (fun t ↦ PlacementPlans.configureClients E S round t selected) hs
        (fun t a ht hf ↦ configured_clients ht hf selected) selected
      exact .of_stores ((s.stores.discardRoundState ((round : ℤ) - 1)).setInitialClient round parameters) rfl
        hplanned
  | configureServerFit parameters cids =>
    simp only [RoundCall.run, PlacementPlans.configureServerFit]
    split
    · exact ⟨fun a hf ↦ .refl, fun l hl ↦ nomatch hl⟩
    · next initial _ =>
      have hplanned := callSpec_planned (E := E) (s := { s with
          stores := s.stores.setInitialServer round initial })
        round (fun t ↦ PlacementPlans.configureReplicas E S round cids t (if S.perClient then cids else [""])) hs
        (fun t a ht hf ↦ configured_replicas ht hf cids (if S.perClient then cids else [""])) cids
      exact .of_stores (s.stores.setInitialServer round initial) rfl hplanned
  | plan cids training =>
    refine ⟨?_, ?_⟩
    · intro a hf
      exact stays_andThen (stays_planRound hf cids training) fun _ _ ↦ .refl
    · intro l hl
      obtain ⟨a, -, he⟩ := andThen_ok hl
      simp only [RoundCall.run] at hl
      rw [he] at hl
      cases hl
      exact .inl rfl

theorem Later.flagged (h : Later E S round s s') (hs : Flagged s) : Flagged s' := by
  induction h with
  | refl => exact hs
  | call _ c ih => exact (extends_call c).flagged ih

theorem Later.extends_ (h : Later E S round s s') : Extends s s' := by
  induction h with
  | refl => exact .refl
  | call _ c ih => exact ih.trans (extends_call c)

theorem Later.stays {a : Dict Cid String} (h : Later E S round s s') (hs : Flagged s) (hf : Fixed round a s) :
    Stays round s s' := by
  induction h with
  | refl => exact .refl
  | @call s' h c ih => exact ih.trans ((callSpec_call (h.flagged hs) c).stays a (hf.stays ih))

/-- Two calls of one round give a client the same configuration, whatever calls are between them. -/
theorem same_config (hs : Flagged s) (c₁ c₂ : RoundCall) (hl : Later E S round (c₁.run E S s round).1 s')
    {l₁ l₂ : List (Cid × StageConfig)} (h₁ : (c₁.run E S s round).2 = .ok l₁)
    (h₂ : (c₂.run E S s' round).2 = .ok l₂) {cid : Cid} {x y : StageConfig} (hx : (cid, x) ∈ l₁)
    (hy : (cid, y) ∈ l₂) (hcid : cid ≠ "") : x = y := by
  have hs₁ : Flagged (c₁.run E S s round).1 := (extends_call c₁).flagged hs
  have hs' := hl.flagged hs₁
  rcases (callSpec_call hs c₁).settled l₁ h₁ with rfl | ⟨a, hf, hset₁⟩
  · cases hx
  rcases (callSpec_call hs' c₂).settled l₂ h₂ with rfl | ⟨a', hf', hset₂⟩
  · cases hy
  have hlater : Later E S round (c₁.run E S s round).1 (c₂.run E S s' round).1 := hl.call c₂
  have hstays := hlater.stays hs₁ hf
  cases (hf.stays hstays).symm.trans hf'
  obtain ⟨b, hb, hxs⟩ := hset₁.later hstays hlater.extends_ cid x hx hcid
  obtain ⟨b', hb', hys⟩ := hset₂ cid y hy hcid
  cases hb.symm.trans hb'
  exact hxs.unique hys

/-- The clients that a call names for the training phase. -/
def RoundCall.names : RoundCall → List Cid
  | .configureFit _ (.ok selected) => selected
  | .configureFit _ (.error _) => []
  | .configureServerFit _ cids => cids
  | .plan cids training => if training then cids else []

/-- A call that names a client outside of the fixed assignments raises. It has written no more than
the initial state that `configure_fit` and `configure_server_fit` begin with. -/
theorem refused {a : Dict Cid String} (hf : Fixed round a s) (c : RoundCall) (ho : outsiders a c.names ≠ []) :
    ∃ stores e, c.run E S s round = ({ s with stores := stores }, .error e) ∧
      stores.roundPlacementAssignments = s.stores.roundPlacementAssignments := by
  have hraise : ∀ (stores : Stores) (cids : List Cid) {α : Type}
      (f : State → Dict Cid String → State × Except PyError α), outsiders a cids ≠ [] →
      stores.roundPlacementAssignments = s.stores.roundPlacementAssignments →
      andThen (planRound E S { s with stores := stores } round cids true) f =
        ({ s with stores := stores }, .error (refusal round (outsiders a cids))) := by
    intro stores cids α f hout hstores
    have hf' : Fixed round a { s with stores := stores } := by
      unfold Fixed
      rw [hstores]
      exact hf
    rw [planRound_fixed hf', if_pos hout]
    rfl
  cases c with
  | configureFit parameters selection =>
    cases selection with
    | error e => exact absurd rfl ho
    | ok selected =>
      exact ⟨_, _, hraise ((s.stores.discardRoundState ((round : ℤ) - 1)).setInitialClient round parameters)
        selected _ ho rfl, rfl⟩
  | configureServerFit parameters cids =>
    simp only [RoundCall.run, PlacementPlans.configureServerFit]
    split
    · exact ⟨s.stores, _, rfl, rfl⟩
    · next initial _ => exact ⟨_, _, hraise (s.stores.setInitialServer round initial) cids _ ho rfl, rfl⟩
  | plan cids training =>
    cases training with
    | false => exact absurd rfl ho
    | true => exact ⟨s.stores, _, hraise s.stores cids _ ho rfl, rfl⟩

/-- Once a call of a round has fixed the training assignments, they stay in the round; planning it for
other clients raises and changes nothing, the configuring calls for other clients raise and change no
assignment and no cache; and the configurations that two calls give for one id are the same. -/
theorem round_same_cut (h : Reached E S s) (c₁ : RoundCall) (hl : Later E S round (c₁.run E S s round).1 s') :
    (∀ a, Fixed round a (c₁.run E S s round).1 → Fixed round a s' ∧
      (∀ cids, outsiders a cids ≠ [] →
        planRound E S s' round cids true = (s', .error (refusal round (outsiders a cids)))) ∧
      ∀ c₂ : RoundCall, outsiders a c₂.names ≠ [] → ∃ stores e,
        c₂.run E S s' round = ({ s' with stores := stores }, .error e) ∧
          stores.roundPlacementAssignments = s'.stores.roundPlacementAssignments) ∧
      ∀ (c₂ : RoundCall) (l₁ l₂ : List (Cid × StageConfig)), (c₁.run E S s round).2 = .ok l₁ →
        (c₂.run E S s' round).2 = .ok l₂ → ∀ cid x y, (cid, x) ∈ l₁ → (cid, y) ∈ l₂ → cid ≠ "" → x = y := by
  have hs := h.flagged
  refine ⟨?_, ?_⟩
  · intro a hf
    have hf' : Fixed round a s' := hf.stays (hl.stays ((extends_call c₁).flagged hs) hf)
    refine ⟨hf', ?_, ?_⟩
    · intro cids hout
      rw [planRound_fixed hf', if_pos hout]
    · intro c₂ hout
      exact refused hf' c₂ hout
  · intro c₂ l₁ l₂ h₁ h₂ cid x y hx hy hcid
    exact same_config hs c₁ c₂ hl h₁ h₂ hx hy hcid

/-! ### A round with the empty client id -/

/-- Every requested boundary has a plan of its own. -/
def planPerBoundary : Environment where
  policy _ _ _ _ := .ok (Dict.ofList [("a", "early"), ("", "late")])
  prepare _ b _ := .ok (some ⟨b, b, "", b, "generated_eager", "", "", "", [], "", none, true, some ⟨b, b, b, "", "", true⟩⟩)
  percent _ := none
  catalog := .ok []
  frameworkBackend := "torch"
  runtimeContractDigest _ := ""
  graphContract plan := .ok ⟨plan.planId, plan.planId⟩
  stateSchemaHash := ""
  stateOwnership _ _ := .ok ⟨[], [], ""⟩

def policySettings : Settings :=
  ⟨true, false, fun _ ↦ rfl, .weightedRound, .reject, [], [], true, "50%", fun _ ↦ .error (.keyError ""), default⟩

def newState : State := ⟨.fresh, 0, 0, "50%", none, fun _ _ ↦ none, fun _ _ ↦ none⟩

/-- The plan ids of the configurations. -/
def planIds (r : Except PyError (List (Cid × StageConfig))) : List (Cid × String) :=
  (r.toOption.getD []).map fun p ↦ (p.1, p.2.template.planId)

/-- The two calls that configure the round of the clients `a` and `""`. -/
def fitCall : RoundCall := .configureFit [] (.ok ["a", ""])

def serverCall : RoundCall := .configureServerFit [] ["a", ""]

theorem policy_round_same_cut : ∃ l₁ l₂ x y, (fitCall.run planPerBoundary policySettings newState 1).2 = .ok l₁ ∧
    (serverCall.run planPerBoundary policySettings
      (fitCall.run planPerBoundary policySettings newState 1).1 1).2 = .ok l₂ ∧
    ("a", x) ∈ l₁ ∧ ("a", y) ∈ l₂ ∧ x = y := by
  have hs : Reached planPerBoundary policySettings newState := .start .fresh
  have hl : Later planPerBoundary policySettings 1 (fitCall.run planPerBoundary policySettings newState 1).1
      (fitCall.run planPerBoundary policySettings newState 1).1 := .refl
  obtain ⟨l₁, h₁⟩ : ∃ l, (fitCall.run planPerBoundary policySettings newState 1).2 = .ok l := ⟨_, rfl⟩
  obtain ⟨l₂, h₂⟩ : ∃ l, (serverCall.run planPerBoundary policySettings
      (fitCall.run planPerBoundary policySettings newState 1).1 1).2 = .ok l := ⟨_, rfl⟩
  obtain ⟨x, hx⟩ : ∃ x, ("a", x) ∈ l₁ := by
    cases h₁
    exact ⟨_, List.mem_cons_self⟩
  obtain ⟨y, hy⟩ : ∃ y, ("a", y) ∈ l₂ := by
    cases h₂
    exact ⟨_, List.mem_cons_self⟩
  exact ⟨l₁, l₂, x, y, h₁, h₂, hx, hy,
    (round_same_cut hs fitCall hl).2 serverCall l₁ l₂ h₁ h₂ "a" x y hx hy (by decide)⟩

/-- The suffix of the client with the empty id, which is the sid of the shared replica, gets the cut of
the first client. And a refused `configure_server_fit` has replaced the initial server state. -/
theorem empty_id_other_cut :
    let fit := configureFit planPerBoundary policySettings newState 1 [] (.ok ["a", ""])
    let server := configureServerFit planPerBoundary policySettings fit.1 1 [] ["a", ""]
    let late := configureServerFit planPerBoundary policySettings server.1 1 [⟨.float64, [], [1]⟩] ["a", "b"]
    planIds fit.2 = [("a", "early"), ("", "late")] ∧ planIds server.2 = [("a", "early"), ("", "early")] ∧
      late.2.isOk = false ∧ late.1.stores.roundInitialServerStates 1 ≠ server.1.stores.roundInitialServerStates 1 := by
  decide

end SplitFleet.SameCut
