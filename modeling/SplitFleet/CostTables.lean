import SplitFleet.GreedyPolicy

set_option autoImplicit false

namespace SplitFleet.GreedyPolicy

open Lib Feasibility Feedback

variable (C : GreedyConfig) (E : Environment)

/-- The table from which the next question about a client is answered. -/
def effectiveTable (s : Policy) (cid : Cid) : Except PyError CostTable :=
  match s.costTables.get? cid with
  | some t => .ok t
  | none => do
    let props ← E.client cid
    match s.savedTables.get? (props.logicalId cid) with
    | some t => .ok t
    | none => calibratedTable E s.profiles (props.logicalId cid)

/-- A table that was looked up stays where it is. -/
def Policy.keepTable (s : Policy) (cid : Cid) (t : CostTable) : Policy :=
  match s.costTables.get? cid with
  | some _ => s
  | none => s.storeTable cid t

/-- A candidate catalog has been read. -/
def Policy.Loaded (s : Policy) : Prop := s.catalogByBoundary.entries ≠ []

/-- Nothing that a choice depends on is different. -/
structure SameView (s t : Policy) : Prop where
  profiles : t.profiles = s.profiles
  catalog : t.catalogByBoundary = s.catalogByBoundary
  filter : t.feasibilityFilter = s.feasibilityFilter
  tables : ∀ cid, effectiveTable E t cid = effectiveTable E s cid

/-- The step of a call that plans, once the catalog is there. -/
def Plans (s t : Policy) : Prop := s.Loaded → SameView E s t

section View

variable {E} {s t u : Policy}

theorem SameView.refl (s : Policy) : SameView E s s := ⟨rfl, rfl, rfl, fun _ ↦ rfl⟩

theorem SameView.trans (h : SameView E s t) (h' : SameView E t u) : SameView E s u where
  profiles := h'.profiles.trans h.profiles
  catalog := h'.catalog.trans h.catalog
  filter := h'.filter.trans h.filter
  tables := fun cid ↦ (h'.tables cid).trans (h.tables cid)

theorem SameView.loaded (h : SameView E s t) (hs : s.Loaded) : t.Loaded := by
  rw [Policy.Loaded, h.catalog]
  exact hs

theorem SameView.sortedCatalog (h : SameView E s t) : t.sortedCatalog = s.sortedCatalog := by
  rw [Policy.sortedCatalog, h.catalog, Policy.sortedCatalog]

theorem SameView.feasibleIn (h : SameView E s t) (cid : Cid) (round : ℤ) (values : Capabilities) :
    feasibleIn t cid round values = feasibleIn s cid round values := by
  rw [GreedyPolicy.feasibleIn, h.sortedCatalog, h.filter, GreedyPolicy.feasibleIn]

instance : IsPreorder Policy (Plans E) where
  refl s := fun _ ↦ .refl s
  trans _ _ _ h h' := fun hs ↦ (h hs).trans (h' ((h hs).loaded hs))

/-- The tables of a state are read from three of its fields. -/
theorem effectiveTable_congr (hc : t.costTables = s.costTables) (hs : t.savedTables = s.savedTables)
    (hp : t.profiles = s.profiles) (cid : Cid) : effectiveTable E t cid = effectiveTable E s cid := by
  rw [effectiveTable, hc, hs, hp, effectiveTable]

theorem SameView.of_fields (hc : t.costTables = s.costTables) (hs : t.savedTables = s.savedTables)
    (hp : t.profiles = s.profiles) (hk : t.catalogByBoundary = s.catalogByBoundary)
    (hf : t.feasibilityFilter = s.feasibilityFilter) : SameView E s t :=
  ⟨hp, hk, hf, effectiveTable_congr hc hs hp⟩

end View

section KeepTable

variable (s : Policy) (cid : Cid) (t : CostTable)

/-- Keeping a table leaves everything else as it is. -/
theorem keepTable_eq : ∃ tables, s.keepTable cid t = { s with costTables := tables } := by
  rw [Policy.keepTable]
  cases s.costTables.get? cid with
  | some _ => exact ⟨s.costTables, rfl⟩
  | none => exact ⟨_, rfl⟩

@[simp] theorem keepTable_profiles : (s.keepTable cid t).profiles = s.profiles := by
  obtain ⟨_, h⟩ := keepTable_eq s cid t
  rw [h]

variable {s cid t}

theorem get?_keepTable {cid' : Cid} : (s.keepTable cid t).costTables.get? cid' =
    if cid' = cid then some ((s.costTables.get? cid).getD t) else s.costTables.get? cid' := by
  rw [Policy.keepTable]
  by_cases hc : cid' = cid
  · subst hc
    rw [if_pos rfl]
    cases h : s.costTables.get? cid' with
    | some t' => exact h
    | none => simp [Policy.storeTable]
  · rw [if_neg hc]
    cases h : s.costTables.get? cid with
    | some t' => rfl
    | none => simp [Policy.storeTable, Ne.symm hc]

variable {E}

/-- Keeping the table that a client has anyway changes no table. -/
theorem sameView_keepTable (h : effectiveTable E s cid = .ok t) : SameView E s (s.keepTable cid t) := by
  obtain ⟨tables, he⟩ := keepTable_eq s cid t
  refine ⟨by rw [he], by rw [he], by rw [he], fun cid' ↦ ?_⟩
  have hsaved : (s.keepTable cid t).savedTables = s.savedTables := by rw [he]
  rw [effectiveTable, get?_keepTable, hsaved, keepTable_profiles]
  by_cases hc : cid' = cid
  · subst hc
    rw [if_pos rfl, h]
    rw [effectiveTable] at h
    cases hg : s.costTables.get? cid' with
    | some t' => rwa [hg] at h
    | none => rfl
  · rw [if_neg hc, effectiveTable]

end KeepTable

section Reads

variable {E} {s s' : Policy} {cid : Cid} {t : CostTable}

theorem table_run (s : Policy) (cid : Cid) :
    (table E cid).run s = match effectiveTable E s cid with
      | .ok t => .ok t (s.keepTable cid t)
      | .error e => .error e s := by
  simp only [table, effectiveTable, Policy.keepTable, EStateM.run_bind, EStateM.run_get]
  cases s.costTables.get? cid with
  | some t => rfl
  | none =>
    cases E.client cid with
    | error e => rfl
    | ok props =>
      simp only [EStateM.run_bind, Method.run_liftM_ok, ok_bind]
      cases s.savedTables.get? (props.logicalId cid) with
      | some t => rfl
      | none => cases calibratedTable E s.profiles (props.logicalId cid) <;> rfl

theorem table_eq_ok (h : (table E cid).run s = .ok t s') :
    effectiveTable E s cid = .ok t ∧ s' = s.keepTable cid t := by
  rw [table_run] at h
  cases he : effectiveTable E s cid with
  | error e =>
    rw [he] at h
    cases h
  | ok t' =>
    rw [he] at h
    cases h
    exact ⟨rfl, rfl⟩

theorem table_respects (cid : Cid) : Method.Respects (Plans E) (table E cid) := by
  intro s _
  rw [Method.after, table_run]
  cases h : effectiveTable E s cid with
  | error e => exact .refl s
  | ok t => exact sameView_keepTable h

variable {c : SplitCandidateDescriptor} {batch count : ℤ} {context : Option NetworkContext}

theorem score_eq_ok {x : ℚ} (h : (score E cid c batch count context).run s = .ok x s') :
    ∃ t, effectiveTable E s cid = .ok t ∧ scoreWith E s.profiles t c batch count context = .ok x ∧
      s' = s.keepTable cid t := by
  obtain ⟨t, u, ht, h⟩ := Method.bind_eq_ok h
  obtain ⟨heff, hu⟩ := table_eq_ok ht
  obtain ⟨hx, hs'⟩ := Method.lift_eq_ok h
  rw [hu, keepTable_profiles] at hx
  exact ⟨t, heff, hx, hs'.trans hu⟩

/-- What `_score` computes, given the table. -/
theorem score_run (h : effectiveTable E s cid = .ok t) :
    (score E cid c batch count context).run s =
      match scoreWith E s.profiles t c batch count context with
      | .ok x => .ok x (s.keepTable cid t)
      | .error e => .error e (s.keepTable cid t) := by
  rw [score, Method.run_bind_of_ok (a := t) (t := s.keepTable cid t) (by rw [table_run, h])]
  simp only [EStateM.run_bind, EStateM.run_get, keepTable_profiles]
  cases scoreWith E s.profiles t c batch count context <;> rfl

theorem score_run_error {e : PyError} (h : effectiveTable E s cid = .error e) :
    (score E cid c batch count context).run s = .error e s := by
  rw [score, Method.run_bind_of_error]
  rw [table_run, h]

theorem score_respects : Method.Respects (Plans E) (score E cid c batch count context) :=
  .bind (table_respects cid) fun _ ↦ .bind .get fun _ ↦ .lift _

theorem front_respects : Method.Respects (Plans E) (front E cid c) :=
  .bind (table_respects cid) fun _ ↦ .bind .get fun _ ↦ .lift _

end Reads

section Catalog

variable {C E} {s s' : Policy}

/-- A catalog that is there is only read. -/
theorem catalog_run_of_loaded (h : s.Loaded) : (catalog C E).run s = .ok s.sortedCatalog s := by
  rw [catalog, Method.get_bind_run, if_neg h]
  rfl

theorem adopt_eq_ok {state : SavedState} (h : (adopt C state).run s = .ok () s') :
    checkState C s state = .ok () ∧ s' = { s with
      savedTables := state.costTables
      feasibilityFilter := s.feasibilityFilter.loadStateDict state.feasibility
      stateRestored := true } := by
  rw [adopt, Method.get_bind_run] at h
  obtain ⟨_, hc, h⟩ := Method.lift_bind_eq_ok h
  cases h
  exact ⟨hc, rfl⟩

/-- What `_catalog` has read when it returns for the first time. -/
theorem readCatalog_eq_ok (h : (readCatalog C E).run s = .ok () s') :
    ∃ candidates, E.candidates true = .ok candidates ∧ candidates ≠ [] ∧
      (candidates.map (·.boundary)).Nodup ∧
      s'.catalogByBoundary = .ofList (candidates.map fun c ↦ (c.boundary, c)) := by
  obtain ⟨candidates, hcandidates, h⟩ := Method.lift_bind_eq_ok h
  obtain ⟨⟨hne, hnd⟩, h⟩ := Method.require_bind_eq_ok h
  obtain ⟨-, h⟩ := Method.require_bind_eq_ok h
  rw [Method.modify_bind_run, Method.get_bind_run] at h
  refine ⟨candidates, hcandidates, hne, hnd, ?_⟩
  cases hp : s.pendingState with
  | none =>
    rw [hp] at h
    cases h
    rfl
  | some pending =>
    rw [hp] at h
    obtain ⟨-, rfl⟩ := adopt_eq_ok h
    rfl

theorem loaded_of_catalog_eq_ok {l : List SplitCandidateDescriptor} (h : (catalog C E).run s = .ok l s') :
    s'.Loaded ∧ l = s'.sortedCatalog := by
  by_cases hs : s.Loaded
  · rw [catalog_run_of_loaded hs] at h
    cases h
    exact ⟨hs, rfl⟩
  · rw [catalog, Method.get_bind_run, if_pos (not_not.mp hs)] at h
    obtain ⟨_, u, hu, h⟩ := Method.bind_eq_ok h
    cases h
    obtain ⟨candidates, -, hne, hnd, he⟩ := readCatalog_eq_ok hu
    refine ⟨?_, rfl⟩
    rw [Policy.Loaded, he, Dict.entries_ofList (by rwa [List.map_map])]
    exact fun hnil ↦ hne (List.map_eq_nil_iff.mp hnil)

/-- The document, the tables by logical id first, and the filter as it is once the catalog is there. -/
theorem stateDict_eq_ok {state : SavedState} (h : (stateDict C E).run s = .ok state s') :
    ∃ tables first rest, tablesByLogicalId E s = .ok tables ∧
      (catalog C E).run s = .ok (first :: rest) s' ∧
      state = ⟨identityOf C first, tables, s'.feasibilityFilter.stateDict⟩ := by
  rw [stateDict, Method.get_bind_run] at h
  obtain ⟨tables, ht, h⟩ := Method.lift_bind_eq_ok h
  obtain ⟨l, u, hl, h⟩ := Method.bind_eq_ok h
  cases l with
  | nil => cases h
  | cons first rest =>
    rw [Method.get_bind_run] at h
    cases h
    exact ⟨tables, first, rest, ht, hl, rfl⟩

end Catalog

section Reference

variable {E} {s s' : Policy}

theorem initializeReference_eq_ok (h : (initializeReference E).run s = .ok () s') :
    s' = s ∧ s.profiles.isSome ∨
      ∃ profiles, E.workloadFeatures = .ok profiles ∧ s' = { s with profiles := some profiles } := by
  rw [initializeReference, Method.get_bind_run] at h
  cases hp : s.profiles with
  | some profiles =>
    rw [hp] at h
    cases h
    exact .inl ⟨rfl, rfl⟩
  | none =>
    rw [hp] at h
    obtain ⟨profiles, hw, h⟩ := Method.lift_bind_eq_ok h
    cases h
    exact .inr ⟨profiles, hw, rfl⟩

end Reference

section Sample

def sampleCut : SplitCandidateDescriptor where
  boundary := "late"
  graphPositionRatio := 3 / 4
  boundaryForwardBytes := some 1000
  prefixParameterBytes := some 300
  clientMemoryBytes := none
  serverMemoryBytes := none
  trainable := true
  featureAbiId := "abi"
  graphSignature := "graph"
  frameworkBackend := "torch"
  valid := true
  validationError := none
  forwardBytesByBatchSize := .empty
  gradientBytesByBatchSize := .empty
  optimizerPrefixParameterBytes := none

def sampleReceipt : CalibrationReceipt where
  serverRecords := [⟨"late", 100⟩]
  clientSamples := [⟨"a", "late", 100, 100⟩]
  transportSamples := [⟨"a", 65536, .finite 10⟩, ⟨"a", 2097152, .finite 20⟩]
  stateExchangeSamples := [⟨"a", 65536, 65536, .finite 10⟩, ⟨"a", 2097152, 65536, .finite 20⟩]

/-- One client and one cut. -/
def sampleEnvironment : Environment where
  candidates := fun _ ↦ .ok [sampleCut]
  workloadFeatures := .ok (.ofList [("late", ⟨3 / 4, 1000⟩)])
  client := fun _ ↦ .ok ⟨some "a", some 2, some 3, ⟨none, none, none⟩⟩
  server := .ok ⟨⟨none, none, none⟩, none⟩
  network := fun _ _ ↦ .ok none
  roundProbes := fun _ ↦ []
  receipt := some sampleReceipt
  stateDownloadBytes := 400

def sampleConfig : GreedyConfig := ⟨1, false⟩

def samplePolicy : Policy := .fresh (.fresh 3 (by decide)) none

end Sample

end SplitFleet.GreedyPolicy
