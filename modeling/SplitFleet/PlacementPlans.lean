import SplitFleet.Lib.FirstMin
import SplitFleet.Strategy

set_option autoImplicit false

namespace SplitFleet.PlacementPlans

open Lib StateOwnership Strategy

/-- `reference_handle.plan`. -/
structure RuntimePlan where
  planId : String
  boundary : String
  splitId : String
  graphSignature : String
  featureAbiId : String
  trainable : Bool

structure Placement where
  planId : String
  splitId : String
  graphSignature : String
  boundary : String
  mode : String
  torchlensVersion : String
  featureAbiId : String
  traceBatchMode : String
  boundaryTensorLabels : List String
  runtimeContract : String
  dynamicBatch : Option (ℤ × ℤ)
  /-- `metadata["_training"]` and `metadata["_runtime_handle"]`. -/
  training : Bool
  handle : Option RuntimePlan

structure GraphContract where
  json : String
  digest : String

/-- What `_autosplit_config` keeps for a plan and a phase. -/
structure Template where
  frameworkBackend : String
  torchlensVersion : String
  planId : String
  splitId : String
  graphSignature : String
  boundary : String
  boundaryTensorLabels : List String
  mode : String
  featureAbiId : String
  runtimeContract : String
  runtimeContractDigest : String
  traceBatchMode : String
  trainable : Bool
  dynamicBatch : Option (ℤ × ℤ)
  graphContract : GraphContract
  ownership : Option Manifest
  stateSchemaHash : String

structure ModelVersionContract where
  roundModelVersion : ℤ
  prefixStateVersion : ℤ
  suffixStateVersion : ℤ
  stateSchemaHash : String
  deriving DecidableEq

/-- The configuration of one stage. -/
structure StageConfig where
  template : Template
  modelVersion : ℤ
  versionContract : ModelVersionContract

/-- What the strategy calls. The first argument of `policy` and of `prepare` counts the questions
asked before, so an answer may differ from the last one to the same question. -/
structure Environment where
  policy : ℕ → ℕ → List Cid → Bool → Except PyError (Dict Cid String)
  /-- The provider's or the session's plan for a requested boundary and a phase. -/
  prepare : ℕ → String → Bool → Except PyError (Option Placement)
  /-- The fraction that a text ending in a per cent sign spells. -/
  percent : String → Option ℚ
  /-- `graph_position_ratio` and `boundary` of the training candidates. -/
  catalog : Except PyError (List (ℚ × String))
  frameworkBackend : String
  runtimeContractDigest : String → String
  graphContract : RuntimePlan → Except PyError GraphContract
  stateSchemaHash : String
  stateOwnership : RuntimePlan → String → Except PyError Manifest

structure State where
  stores : Stores
  policyCalls : ℕ
  prepareCalls : ℕ
  boundary : String
  placementPlan : Option Placement
  /-- `_placement_plans` and `_evaluation_placement_plans`. -/
  placementPlans : Bool → String → Option Placement
  autosplitConfigCache : String → Bool → Option Template

/-- A call of a method, and then the rest of the caller unless it raised. -/
def andThen {α β : Type} (x : State × Except PyError α) (f : State → α → State × Except PyError β) :
    State × Except PyError β :=
  match x with
  | (s, .error e) => (s, .error e)
  | (s, .ok a) => f s a

variable (E : Environment) (S : Settings)

/-- The candidate nearest to a fraction, and of these the first by name. -/
def nearer (fraction : ℚ) (a b : ℚ × String) : Bool :=
  |a.1 - fraction| < |b.1 - fraction| || (|a.1 - fraction| = |b.1 - fraction| && a.2 < b.2)

/-- A default boundary such as `50%` is replaced by a candidate when there is a placement policy. -/
def resolveBoundary (s : State) (boundary : Option String) : State × Except PyError String :=
  match boundary with
  | some b => (s, .ok (if b = "" then s.boundary else b))
  | none =>
    match if S.hasPlacementPolicy then E.percent s.boundary else none with
    | none => (s, .ok s.boundary)
    | some fraction =>
      match E.catalog with
      | .error e => (s, .error e)
      | .ok candidates =>
        match firstMin (nearer fraction) candidates with
        | none => (s, .error (.valueError "min() iterable argument is empty"))
        | some nearest => ({ s with boundary := nearest.2 }, .ok nearest.2)

def storePlan (s : State) (training : Bool) (requested : String) (p : Placement) : State :=
  { s with placementPlans := fun phase b ↦
      if phase = training ∧ b = requested then some p else s.placementPlans phase b }

/-- `placements.get(requested_boundary)`, or a new plan. -/
def findPlan (s : State) (requested : String) (training : Bool) : State × Except PyError Placement :=
  match s.placementPlans training requested with
  | some p => (s, .ok p)
  | none =>
    match E.prepare s.prepareCalls requested training with
    | .error e => ({ s with prepareCalls := s.prepareCalls + 1 }, .error e)
    | .ok none =>
      ({ s with prepareCalls := s.prepareCalls + 1 }, .error (.runtimeError
        ("Candidate provider returned no prepared placement for " ++ pyRepr requested ++ ".")))
    | .ok (some p) =>
      (storePlan { s with prepareCalls := s.prepareCalls + 1 } training requested
        { p with training := training }, .ok { p with training := training })

def getOrCreatePlacementPlan (s : State) (boundary : Option String) (training : Bool) :
    State × Except PyError Placement :=
  andThen (resolveBoundary E S s boundary) fun s requested ↦
    andThen (findPlan E s requested training) fun s p ↦
      (if training = true ∧ boundary = none ∧ s.placementPlan = none then { s with placementPlan := some p }
        else s, .ok p)

def planRound (s : State) (round : ℕ) (cids : List Cid) (training : Bool) :
    State × Except PyError (Dict Cid String) :=
  let asked := S.hasPlacementPolicy && (s.stores.roundPlacementAssignments round training).isNone
  let (stores, r) := planRoundPlacements { S with boundary := s.boundary } s.stores round cids training
    (E.policy s.policyCalls round cids training)
  ({ s with stores := stores, policyCalls := if asked then s.policyCalls + 1 else s.policyCalls }, r)

/-- The round's assignments, planned for this client alone where there are none. -/
def assignmentsFor (s : State) (round : ℕ) (cid : Cid) (training : Bool) :
    State × Except PyError (Dict Cid String) :=
  match s.stores.roundPlacementAssignments round training with
  | some assignments => (s, .ok assignments)
  | none => planRound E S s round [cid] training

def placementForClient (s : State) (round : ℕ) (cid : Cid) (training : Bool) :
    State × Except PyError Placement :=
  if S.hasPlacementPolicy then
    andThen (assignmentsFor E S s round cid training) fun s assignments ↦
      match assignments.get? cid with
      | none => (s, .error (.valueError ("no round placement exists for client " ++ pyRepr cid)))
      | some boundary => getOrCreatePlacementPlan E S s (some boundary) training
  else getOrCreatePlacementPlan E S s none training

def buildTemplate (p : Placement) (training : Bool) : Except PyError Template :=
  match p.handle with
  | none => .error (.runtimeError
      ("Placement " ++ pyRepr p.planId ++ " has no prepared TorchLens runtime handle."))
  | some plan =>
    if plan.planId ≠ p.planId ∨ plan.boundary ≠ p.boundary ∨ plan.splitId ≠ p.splitId ∨
        plan.graphSignature ≠ p.graphSignature ∨ plan.featureAbiId ≠ p.featureAbiId then
      .error (.runtimeError
        ("Placement " ++ pyRepr p.planId ++ " does not match its prepared TorchLens runtime."))
    else do
      let contract ← E.graphContract plan
      let ownership ← if S.ownedStateExchange && training then
          (E.stateOwnership plan E.stateSchemaHash).map some else .ok none
      return ⟨E.frameworkBackend, p.torchlensVersion, p.planId, plan.splitId, plan.graphSignature,
        p.boundary, p.boundaryTensorLabels, p.mode, p.featureAbiId, p.runtimeContract,
        E.runtimeContractDigest p.runtimeContract, p.traceBatchMode, plan.trainable, p.dynamicBatch,
        contract, ownership, E.stateSchemaHash⟩

def storeTemplate (s : State) (planId : String) (training : Bool) (t : Template) : State :=
  { s with autosplitConfigCache := fun id phase ↦
      if id = planId ∧ phase = training then some t else s.autosplitConfigCache id phase }

/-- The template of a plan and a phase, from the cache or built and stored. -/
def templateOf (s : State) (p : Placement) (training : Bool) : State × Except PyError Template :=
  match s.autosplitConfigCache p.planId training with
  | some t => (s, .ok t)
  | none =>
    match buildTemplate E S p training with
    | .error e => (s, .error e)
    | .ok t => (storeTemplate s p.planId training t, .ok t)

def stageConfig (modelVersion : ℤ) (t : Template) : StageConfig :=
  ⟨t, modelVersion, ⟨modelVersion, modelVersion, modelVersion, t.stateSchemaHash⟩⟩

/-- A plan that is marked with the other phase is replaced by one of this phase. -/
def planOfPhase (s : State) (p : Placement) (training : Bool) : State × Except PyError Placement :=
  if p.training ≠ training then getOrCreatePlacementPlan E S s (some p.boundary) training else (s, .ok p)

def autosplitConfig (s : State) (modelVersion : ℤ) (training : Bool) (placement : Option Placement) :
    State × Except PyError StageConfig :=
  andThen (match placement with
    | some p => (s, .ok p)
    | none => getOrCreatePlacementPlan E S s none training) fun s p ↦
  andThen (planOfPhase E S s p training) fun s p ↦
  andThen (templateOf E S s p training) fun s t ↦ (s, .ok (stageConfig modelVersion t))

/-- The placement of one client and its configuration. -/
def configFor (s : State) (round : ℕ) (cid : Cid) (training : Bool) : State × Except PyError StageConfig :=
  andThen (placementForClient E S s round cid training) fun s p ↦
    autosplitConfig E S s round training (some p)

def recordManifest (s : State) (round : ℕ) (cid : Cid) (c : StageConfig) : State :=
  match c.template.ownership with
  | some m => { s with stores := s.stores.recordOwnership round cid m }
  | none => s

/-- The loop over the selected clients. -/
def configureClients (round : ℕ) : State → List Cid → State × Except PyError (List (Cid × StageConfig))
  | s, [] => (s, .ok [])
  | s, cid :: rest =>
    andThen (configFor E S s round cid true) fun s c ↦
      andThen (configureClients round (if S.ownedStateExchange then recordManifest s round cid c else s) rest)
        fun s tail ↦ (s, .ok ((cid, c) :: tail))

/-- `selection` is what precedes the planning: it may raise, or gives the clients. -/
def configureFit (s : State) (round : ℕ) (parameters : List Tensor) (selection : Except PyError (List Cid)) :
    State × Except PyError (List (Cid × StageConfig)) :=
  let s := { s with stores :=
    (s.stores.discardRoundState ((round : ℤ) - 1)).setInitialClient round parameters }
  match selection with
  | .error e => (s, .error e)
  | .ok selected => andThen (planRound E S s round selected true) fun s _ ↦ configureClients E S round s selected

/-- The loop over the suffix configurations, by their sids. `config.sid or cids[0]` names the client. -/
def configureReplicas (round : ℕ) (cids : List Cid) :
    State → List Cid → State × Except PyError (List (Cid × StageConfig))
  | s, [] => (s, .ok [])
  | s, sid :: rest =>
    match if sid = "" then cids.head? else some sid with
    | none => (s, .error (.raised "IndexError" "list index out of range"))
    | some cid =>
      andThen (configFor E S s round cid true) fun s c ↦
        andThen (configureReplicas round cids s rest) fun s tail ↦ (s, .ok ((sid, c) :: tail))

def configureServerFit (s : State) (round : ℕ) (parameters : List Tensor) (cids : List Cid) :
    State × Except PyError (List (Cid × StageConfig)) :=
  match if S.ownedStateExchange then s.stores.roundInitialClientStates round else some parameters with
  | none => (s, .error (.keyError (toString round)))
  | some initial =>
    andThen (planRound E S { s with stores := s.stores.setInitialServer round initial } round cids true)
      fun s _ ↦ configureReplicas E S round cids s (if S.perClient then cids else [""])

/-- `release_placement_runtimes`. -/
def releasePlacementRuntimes (s : State) : State :=
  { s with
    placementPlan := none, placementPlans := fun _ _ ↦ none, autosplitConfigCache := fun _ _ ↦ none }

end SplitFleet.PlacementPlans
