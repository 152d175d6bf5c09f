import SplitFleet.Feedback
import SplitFleet.Lib.FirstMin
import SplitFleet.Lib.Json
import SplitFleet.Lib.Method
import Mathlib.Algebra.Order.Group.Unbundled.Abs

set_option autoImplicit false

namespace SplitFleet.GreedyPolicy

open Lib Feasibility Feedback

/-- What `graph_workload_features` says of one boundary. -/
structure Profile where
  prefixMacFraction : ℚ
  gradientVolumeProxyBytesPerSample : ℚ

abbrev Profiles := Dict String Profile

structure Anchor where
  prefixMacFraction : ℚ
  front : ℚ
  tail : ℚ
  boundary : String

/-- What the policy knows about the costs of one client. -/
structure CostTable where
  anchors : List Anchor
  observedFront : Dict String ℚ
  observedTail : Dict String ℚ
  networkSecondsPerByte : ℚ
  networkInterceptSeconds : ℚ
  stateSecondsPerByte : ℚ
  stateInterceptSeconds : ℚ

structure ServerRecord where
  boundary : String
  localTailServiceMs : ℚ

structure ClientSample where
  logicalClientId : String
  boundary : String
  clientForwardMs : ℚ
  clientBackwardMs : ℚ

structure LinkSample where
  logicalClientId : String
  payloadBytes : ℤ
  roundtripMs : Reading

structure ExchangeSample where
  logicalClientId : String
  requestBytes : ℤ
  replyBytes : ℤ
  roundtripMs : Reading

/-- The receipt of the calibration. -/
structure CalibrationReceipt where
  serverRecords : List ServerRecord
  clientSamples : List ClientSample
  transportSamples : List LinkSample
  stateExchangeSamples : List ExchangeSample

/-- The entries of a context that `check` reads. The second `none` of each is a `None` that is there. -/
structure CapabilityFields where
  featureAbiIds : Option (Option (List String))
  clientMemoryBytes : Option (Option ℤ)
  serverMemoryBytes : Option (Option ℤ)

structure ClientContext where
  logicalClientId : Option String
  batchSize : Option ℤ
  numBatches : Option ℤ
  capabilities : CapabilityFields

structure ServerContext where
  capabilities : CapabilityFields
  queueWaitMeanMs : Option (Option ℚ)

/-- `estimate_network`. -/
structure NetworkContext where
  uploadMbps : ℚ
  downloadMbps : ℚ
  rttMs : ℚ

/-- What one call sees of the objects the policy asks: the candidate provider, the telemetry and
context providers, and `state_download_bytes`, which the strategy sets. -/
structure Environment where
  candidates : Bool → Except PyError (List SplitCandidateDescriptor)
  workloadFeatures : Except PyError Profiles
  client : Cid → Except PyError ClientContext
  server : Except PyError ServerContext
  network : Cid → ℤ → Except PyError (Option NetworkContext)
  roundProbes : ℤ → List (Cid × Json)
  receipt : Option CalibrationReceipt
  stateDownloadBytes : ℤ

structure GreedyConfig where
  serverConcurrency : ℤ
  /-- Whether there is a `state_path`. -/
  savesState : Bool

structure DecisionReceipt where
  roundId : ℤ
  logicalClientId : String
  algorithm : String
  boundary : String
  candidateCount : ℕ
  scoreSeconds : ℚ
  predictedFrontendSeconds : ℚ
  prefixMacFraction : ℚ
  fullyLocalEscapeAvailable : Bool
  decisionGranularity : String

structure RoundDiagnostics where
  algorithm : String
  placementObjective : String
  assignment : Dict Cid String
  estimates : Dict Cid (Dict String ℚ)
  serverLoad : ServerContext
  networkContexts : Dict Cid NetworkContext
  networkProbes : List (Cid × Json)
  latencyModelUsesLiveNetworkContext : Bool
  latencyModelUsesLiveLoadFeatures : Bool
  queueWaitObserved : Bool
  feedbackClients : List Cid
  serverConcurrency : ℤ

/-- The entries of a persisted state that have to match. -/
structure StateIdentity where
  schema : String
  algorithm : String
  graphSignature : String
  frameworkBackend : String
  serverConcurrency : ℤ
  deriving DecidableEq

/-- What `state_dict` returns. Writing it as JSON and reading it keeps all of it. -/
structure SavedState where
  identity : StateIdentity
  costTables : Dict String CostTable
  feasibility : FeasibilityState

structure Policy where
  profiles : Option Profiles
  costTables : Dict Cid CostTable
  roundDiagnostics : Dict ℤ RoundDiagnostics
  decisionReceipts : List DecisionReceipt
  catalogByBoundary : Dict String SplitCandidateDescriptor
  roundAssignments : Dict (ℤ × Bool) (Dict Cid String)
  observedActions : Finset ActionKey
  lastBoundary : Dict Cid String
  stateRestored : Bool
  savedTables : Dict String CostTable
  pendingState : Option SavedState
  feasibilityFilter : FeasibilityFilter
  /-- The file at `state_path`. -/
  stateFile : Option SavedState

/-- A policy as it is built, with the state that a warm start has read. -/
def Policy.fresh (filter : FeasibilityFilter) (pending : Option SavedState) : Policy :=
  ⟨none, .empty, .empty, [], .empty, .empty, ∅, .empty, false, .empty, pending, filter, pending⟩

section Costs

variable (E : Environment) (profiles : Option Profiles)

/-- `self.profiles[boundary]`. -/
def profileOf (boundary : String) : Except PyError Profile :=
  match profiles with
  | none => .error (.typeError "'NoneType' object is not subscriptable")
  | some p =>
    match p.get? boundary with
    | none => .error (.keyError boundary)
    | some profile => .ok profile

/-- The segment that a point lies on, right of its first anchor. -/
def interpFrom (x : ℚ) : ℚ × ℚ → List (ℚ × ℚ) → ℚ
  | p, [] => p.2
  | p, q :: rest =>
    if q.1 ≤ x then interpFrom x q rest
    else if x ≤ p.1 then p.2
    else (q.2 - p.2) / (q.1 - p.1) * (x - p.1) + p.2

/-- `np.interp` over points that are sorted: constant before the first one and after the last. -/
def npInterp (x : ℚ) : List (ℚ × ℚ) → Except PyError ℚ
  | [] => .error (.valueError "array of sample points is empty")
  | p :: rest => .ok (interpFrom x p rest)

def interpolate (c : SplitCandidateDescriptor) (t : CostTable) (column : Anchor → ℚ) : Except PyError ℚ := do
  let profile ← profileOf profiles c.boundary
  npInterp profile.prefixMacFraction (t.anchors.map fun a ↦ (a.prefixMacFraction, column a))

/-- `sizes.get(batch, sizes.get(str(batch)))`. -/
def byBatchSize (sizes : ByBatchSize) (batch : ℤ) : Option ℚ :=
  match sizes.get? (.inl batch) with
  | some value => value
  | none => (sizes.get? (.inr (toString batch))).join

structure PayloadVolumes where
  activation : ℚ
  gradient : ℚ
  stateDownload : ℚ
  stateUpload : ℚ

def gradientVolume (c : SplitCandidateDescriptor) (batch : ℤ) : Except PyError ℚ :=
  match byBatchSize c.gradientBytesByBatchSize batch with
  | some gradient => .ok gradient
  | none => (profileOf profiles c.boundary).map fun p ↦ p.gradientVolumeProxyBytesPerSample * batch

def payloadVolumes (c : SplitCandidateDescriptor) (batch : ℤ) : Except PyError PayloadVolumes :=
  let activation := (byBatchSize c.forwardBytesByBatchSize batch).or
    (c.boundaryForwardBytes.map fun bytes ↦ (bytes * batch : ℚ))
  match activation, c.optimizerPrefixParameterBytes.getD c.prefixParameterBytes with
  | some activation, some upload => do
    let gradient ← gradientVolume profiles c batch
    return ⟨activation, gradient, E.stateDownloadBytes, upload⟩
  | _, _ => .error (.valueError "Greedy needs boundary and owned-parameter byte estimates")

def volumes (c : SplitCandidateDescriptor) (batch : ℤ) : Except PyError (ℚ × ℚ) := do
  let v ← payloadVolumes E profiles c batch
  return (v.activation + v.gradient, v.stateDownload + v.stateUpload)

def liveNetworkCost (c : SplitCandidateDescriptor) (batch : ℤ) (context : NetworkContext) :
    Except PyError (ℚ × ℚ) := do
  let v ← payloadVolumes E profiles c batch
  let uploadBps := context.uploadMbps * 1000000
  let downloadBps := context.downloadMbps * 1000000
  require (uploadBps ≠ 0 ∧ downloadBps ≠ 0) (.raised "ZeroDivisionError" "float division by zero")
  return (v.activation * 8 / uploadBps + v.gradient * 8 / downloadBps + context.rttMs / 1000,
    v.stateUpload * 8 / uploadBps + v.stateDownload * 8 / downloadBps + context.rttMs / 1000)

def frontCost (c : SplitCandidateDescriptor) (t : CostTable) : Except PyError ℚ :=
  match t.observedFront.get? c.boundary with
  | some seconds => .ok seconds
  | none => interpolate profiles c t Anchor.front

def tailCost (c : SplitCandidateDescriptor) (t : CostTable) : Except PyError ℚ :=
  match t.observedTail.get? c.boundary with
  | some seconds => .ok seconds
  | none => interpolate profiles c t Anchor.tail

/-- The seconds of one exchange of tensors and of one exchange of state. -/
def transportCost (c : SplitCandidateDescriptor) (t : CostTable) (batch : ℤ) (context : Option NetworkContext) :
    Except PyError (ℚ × ℚ) :=
  match context with
  | some context => liveNetworkCost E profiles c batch context
  | none => do
    let (volume, exchange) ← volumes E profiles c batch
    return (t.networkInterceptSeconds + volume * t.networkSecondsPerByte,
      t.stateInterceptSeconds + exchange * t.stateSecondsPerByte)

/-- The rest of `_score`, given the table. -/
def scoreWith (t : CostTable) (c : SplitCandidateDescriptor) (batch count : ℤ)
    (context : Option NetworkContext) : Except PyError ℚ := do
  let tail ← tailCost profiles c t
  let (network, state) ← transportCost E profiles c t batch context
  let front ← frontCost profiles c t
  return count * (front + tail + network) + state

end Costs

section Calibration

def Reading.acceptable : Reading → Bool
  | .finite q => decide (0 ≤ q)
  | .notFinite => false

/-- `float(np.mean(...))` of the round trips in seconds. -/
def meanSeconds (readings : List Reading) : ℚ :=
  ((readings.filterMap Reading.finite?).map (· / 1000)).sum / readings.length

/-- The slope and the intercept of the line through the means of the small and the large samples. -/
def affineSamples (small large : List Reading) (delta : ℚ) : Except PyError (ℚ × ℚ) :=
  if small = [] ∨ large = [] ∨ ¬ (small ++ large).all Reading.acceptable then
    .error (.valueError "Greedy requires measured small and large bootstrap RPC samples")
  else
    let slope := max ((meanSeconds large - meanSeconds small) / delta) 0
    .ok (slope, max (meanSeconds small - 2 * 65536 * slope) 0)

def affineLink (samples : List LinkSample) : Except PyError (ℚ × ℚ) :=
  let sized (bytes : ℤ) := (samples.filter fun r ↦ r.payloadBytes = bytes).map (·.roundtripMs)
  affineSamples (sized 65536) (sized 2097152) (2 * (2097152 - 65536))

/-- `_affine_samples(exchange, state=True)`. -/
def affineExchange (samples : List ExchangeSample) : Except PyError (ℚ × ℚ) :=
  let sized (bytes : ℤ) := (samples.filter fun r ↦ r.requestBytes + r.replyBytes = bytes).map (·.roundtripMs)
  affineSamples (sized (2 * 65536)) (sized (2097152 + 65536)) (2097152 - 65536)

def anchorOf (profiles : Option Profiles) (server : Dict String ℚ) (r : ClientSample) : Except PyError Anchor := do
  let profile ← profileOf profiles r.boundary
  match server.get? r.boundary with
  | none => .error (.keyError r.boundary)
  | some tail =>
    return ⟨profile.prefixMacFraction, (r.clientForwardMs + r.clientBackwardMs) / 1000, tail, r.boundary⟩

/-- The order of the tuples. -/
def anchorOrder (a : Anchor) : ℚ ×ₗ ℚ ×ₗ ℚ ×ₗ String :=
  toLex (a.prefixMacFraction, toLex (a.front, toLex (a.tail, a.boundary)))

/-- The table of a client that has none yet and no saved one. -/
def calibratedTable (E : Environment) (profiles : Option Profiles) (logical : String) : Except PyError CostTable :=
  match E.receipt with
  | none => .error (.valueError "Greedy needs measured calibration before training placement")
  | some receipt => do
    let server := Dict.ofList (receipt.serverRecords.map fun r ↦ (r.boundary, r.localTailServiceMs / 1000))
    let samples := receipt.clientSamples.filter fun r ↦ r.logicalClientId = logical
    require (samples ≠ []) (.valueError ("No calibration anchors for " ++ pyRepr logical))
    let anchors ← samples.mapM (anchorOf profiles server)
    let (networkSlope, networkIntercept) ←
      affineLink (receipt.transportSamples.filter fun r ↦ r.logicalClientId = logical)
    let (stateSlope, stateIntercept) ←
      affineExchange (receipt.stateExchangeSamples.filter fun r ↦ r.logicalClientId = logical)
    return ⟨sortedBy anchorOrder anchors, .empty, .empty, networkSlope, networkIntercept, stateSlope, stateIntercept⟩

end Calibration

/-- `str(props.get("logical_client_id", cid))`. -/
def ClientContext.logicalId (props : ClientContext) (cid : Cid) : String := props.logicalClientId.getD cid

/-- `{**props, **server}`. -/
def capabilities (props : ClientContext) (server : ServerContext) : Capabilities where
  featureAbiIds := (server.capabilities.featureAbiIds.or props.capabilities.featureAbiIds).join
  clientMemoryBytes := (server.capabilities.clientMemoryBytes.or props.capabilities.clientMemoryBytes).join
  serverMemoryBytes := (server.capabilities.serverMemoryBytes.or props.capabilities.serverMemoryBytes).join

/-- The order of the catalog. -/
def position (c : SplitCandidateDescriptor) : ℚ ×ₗ String := toLex (c.graphPositionRatio, c.boundary)

def Policy.sortedCatalog (s : Policy) : List SplitCandidateDescriptor :=
  sortedBy position s.catalogByBoundary.values

def Policy.storeTable (s : Policy) (cid : Cid) (t : CostTable) : Policy :=
  { s with costTables := s.costTables.insert cid t }

variable (C : GreedyConfig) (normalize : String → String) (E : Environment)

section Persistence

def identityOf (first : SplitCandidateDescriptor) : StateIdentity :=
  ⟨"splitfleet.greedy-state.v1", "greedy", first.graphSignature, first.frameworkBackend, C.serverConcurrency⟩

def checkTable (t : CostTable) : Except PyError Unit := do
  require (0 ≤ t.networkSecondsPerByte ∧ 0 ≤ t.networkInterceptSeconds ∧ 0 ≤ t.stateSecondsPerByte ∧
    0 ≤ t.stateInterceptSeconds) (.valueError "Invalid persisted Greedy communication cost")
  require (t.anchors ≠ []) (.valueError "Persisted Greedy state requires calibration anchors")

/-- The checks of `load_state_dict`. -/
def checkState (s : Policy) (state : SavedState) : Except PyError Unit :=
  match s.sortedCatalog with
  | [] => .error (.raised "IndexError" "tuple index out of range")
  | first :: _ => do
    require (state.identity = identityOf C first) (.valueError "Incompatible Greedy state identity")
    state.costTables.values.forM checkTable

/-- `load_state_dict` where the catalog is there. -/
def adopt (state : SavedState) : Method Policy Unit := do
  checkState C (← get) state
  modify fun s ↦ { s with
    savedTables := state.costTables
    feasibilityFilter := s.feasibilityFilter.loadStateDict state.feasibility
    stateRestored := true }

/-- The first part of `_catalog`, which also loads the state of a warm start. `load_state_dict` asks
for the catalog again, which is there by then. -/
def readCatalog : Method Policy Unit := do
  let candidates ← E.candidates true
  require (candidates ≠ [] ∧ (candidates.map (·.boundary)).Nodup)
    (.valueError "Greedy requires distinct admitted training candidates")
  require ((candidates.map fun c ↦ (c.graphSignature, c.frameworkBackend)).dedup.length = 1)
    (.valueError "Candidate catalog must describe one graph and backend")
  modify fun s ↦ { s with catalogByBoundary := .ofList (candidates.map fun c ↦ (c.boundary, c)) }
  match (← get).pendingState with
  | none => pure ()
  | some pending =>
    modify fun s ↦ { s with pendingState := none }
    adopt C pending

def catalog : Method Policy (List SplitCandidateDescriptor) := do
  if (← get).catalogByBoundary.entries = [] then
    readCatalog C E
  return (← get).sortedCatalog

def loadStateDict (state : SavedState) : Method Policy Unit := do
  discard (catalog C E)
  adopt C state

/-- The tables by logical id. -/
def tablesByLogicalId (s : Policy) : Except PyError (Dict String CostTable) :=
  s.costTables.entries.foldlM (fun tables p ↦ do
    let props ← E.client p.1
    return tables.insert (props.logicalId p.1) p.2) s.savedTables

def stateDict : Method Policy SavedState := do
  let tables ← tablesByLogicalId E (← get)
  match ← catalog C E with
  | [] => throw (.raised "IndexError" "tuple index out of range")
  | first :: _ =>
    return ⟨identityOf C first, tables, (← get).feasibilityFilter.stateDict⟩

/-- `_save_state`. -/
def saveState : Method Policy Unit := do
  if C.savesState then
    let state ← stateDict C E
    modify fun s ↦ { s with stateFile := some state }

end Persistence

section Planning

/-- `_table`. -/
def table (cid : Cid) : Method Policy CostTable := do
  let s ← get
  match s.costTables.get? cid with
  | some t => return t
  | none =>
    let props ← E.client cid
    let t ← match s.savedTables.get? (props.logicalId cid) with
      | some t => pure t
      | none => Method.lift (calibratedTable E s.profiles (props.logicalId cid))
    modify (·.storeTable cid t)
    return t

def initializeReference : Method Policy Unit := do
  if (← get).profiles.isNone then
    let profiles ← E.workloadFeatures
    modify fun s ↦ { s with profiles := some profiles }

/-- `_score`. -/
def score (cid : Cid) (c : SplitCandidateDescriptor) (batch count : ℤ) (context : Option NetworkContext) :
    Method Policy ℚ := do
  let t ← table E cid
  scoreWith E (← get).profiles t c batch count context

/-- `_front`. -/
def front (cid : Cid) (c : SplitCandidateDescriptor) : Method Policy ℚ := do
  let t ← table E cid
  frontCost (← get).profiles c t

/-- What one turn of the loop of `plan_round` adds to the results. -/
structure ClientPlan where
  cid : Cid
  boundary : String
  estimates : Dict String ℚ
  context : Option NetworkContext

/-- The candidates of the catalog that the filter admits for a client and a round. -/
def feasibleIn (s : Policy) (cid : Cid) (round : ℤ) (values : Capabilities) : List SplitCandidateDescriptor :=
  s.sortedCatalog.filter fun c ↦ (s.feasibilityFilter.check c cid round values).feasible

/-- `feasible[int(np.argmin(scores))]`, with its score. -/
def argmin (feasible : List SplitCandidateDescriptor) (scores : List ℚ) : Option (SplitCandidateDescriptor × ℚ) :=
  firstMin (fun p q ↦ decide (p.2 < q.2)) (feasible.zip scores)

def receiptOf (cid : Cid) (round : ℤ) (props : ClientContext) (feasible : List SplitCandidateDescriptor)
    (chosen : SplitCandidateDescriptor × ℚ) (frontend : ℚ) (profile : Profile) : DecisionReceipt where
  roundId := round
  logicalClientId := props.logicalId cid
  algorithm := "Greedy"
  boundary := chosen.1.boundary
  candidateCount := feasible.length
  scoreSeconds := chosen.2
  predictedFrontendSeconds := frontend
  prefixMacFraction := profile.prefixMacFraction
  fullyLocalEscapeAvailable := false
  decisionGranularity := "federated_round"

/-- One client of the cohort. -/
def planClient (server : ServerContext) (round : ℤ) (cid : Cid) : Method Policy ClientPlan := do
  let props ← E.client cid
  let batch := props.batchSize.getD 0
  let count := props.numBatches.getD 0
  require (1 ≤ batch ∧ 1 ≤ count) (.valueError "Greedy needs positive batch_size and num_batches")
  discard (catalog C E)
  let feasible := feasibleIn (← get) cid round (capabilities props server)
  require (feasible ≠ []) (.valueError ("Client " ++ pyRepr cid ++ " has no feasible Greedy candidates"))
  let context ← E.network cid round
  let scores ← feasible.mapM fun c ↦ score E cid c batch count context
  match argmin feasible scores with
  | none => throw (.valueError "attempt to get argmin of an empty sequence")
  | some chosen =>
    let frontend ← front E cid chosen.1
    let profile ← profileOf (← get).profiles chosen.1.boundary
    modify fun s ↦ { s with decisionReceipts := s.decisionReceipts ++
      [receiptOf cid round props feasible chosen (frontend * count) profile] }
    return ⟨cid, chosen.1.boundary, .ofList ((feasible.zip scores).map fun p ↦ (p.1.boundary, p.2)), context⟩

def assignmentOf (plans : List ClientPlan) : Dict Cid String := .ofList (plans.map fun p ↦ (p.cid, p.boundary))

def networkContextsOf (plans : List ClientPlan) : Dict Cid NetworkContext :=
  .ofList (plans.filterMap fun p ↦ p.context.map (p.cid, ·))

def diagnosticsOf (server : ServerContext) (round : ℤ) (plans : List ClientPlan) : RoundDiagnostics where
  algorithm := "greedy"
  placementObjective := "predicted_solo_round_cost"
  assignment := assignmentOf plans
  estimates := .ofList (plans.map fun p ↦ (p.cid, p.estimates))
  serverLoad := server
  networkContexts := networkContextsOf plans
  networkProbes := (E.roundProbes round).filter fun p ↦ decide (p.1 ∈ (assignmentOf plans).keys)
  latencyModelUsesLiveNetworkContext := !(networkContextsOf plans).entries.isEmpty
  latencyModelUsesLiveLoadFeatures := false
  queueWaitObserved := server.queueWaitMeanMs.join.isSome
  feedbackClients := []
  serverConcurrency := C.serverConcurrency

/-- The assignment and the diagnostics of the round are stored, and the assignments of rounds that are
more than two rounds older are dropped. -/
def recordRound (server : ServerContext) (round : ℤ) (plans : List ClientPlan) (s : Policy) : Policy :=
  { s with
    roundAssignments := (s.roundAssignments.insert (round, true) (assignmentOf plans)).filterKeys
      fun k ↦ decide (round - 2 ≤ k.1)
    roundDiagnostics := s.roundDiagnostics.insert round (diagnosticsOf C E server round plans) }

/-- The evaluation cut of a client: its last executed one where that is valid, else the middle one. -/
def evaluationBoundary (s : Policy) (candidates : List SplitCandidateDescriptor)
    (middle : SplitCandidateDescriptor) (cid : Cid) : String :=
  match s.lastBoundary.get? cid with
  | some boundary => if boundary ∈ candidates.map (·.boundary) then boundary else middle.boundary
  | none => middle.boundary

/-- How far a candidate is from the middle of the graph. -/
def fromMiddle (c : SplitCandidateDescriptor) : ℚ ×ₗ String := toLex (|c.graphPositionRatio - 1 / 2|, c.boundary)

def planEvaluation (cids : List Cid) : Method Policy (Dict Cid String) := do
  let candidates := (← E.candidates false).filter (·.valid)
  match firstMin (fun c d ↦ decide (fromMiddle c < fromMiddle d)) candidates with
  | none => throw (.valueError "No valid evaluation candidates")
  | some middle =>
    let s ← get
    return .ofList (cids.map fun cid ↦ (cid, evaluationBoundary s candidates middle cid))

/-- The part of `plan_round` that decides. -/
def planTraining (round : ℤ) (cids : List Cid) : Method Policy (Dict Cid String) := do
  discard (catalog C E)
  initializeReference E
  let server ← E.server
  let plans ← cids.mapM (planClient C E server round)
  modify (recordRound C E server round plans)
  return assignmentOf plans

def planRound (round : ℤ) (clientIds : List Cid) (training : Bool) : Method Policy (Dict Cid String) := do
  let cids := sortedSet clientIds
  if cids = [] then
    return .empty
  match (← get).roundAssignments.get? (round, training) with
  | some cached =>
    require (sortedSet cached.keys = cids) (.valueError "A round's selected client set must remain stable")
    return cached
  | none => if training then planTraining C E round cids else planEvaluation E cids

end Planning

section Observing

/-- `boundary or self._last_boundary.get(client_id)`. -/
def failedBoundary (s : Policy) (cid : Cid) (boundary : Option String) : Option String :=
  match boundary with
  | some b => if b = "" then s.lastBoundary.get? cid else some b
  | none => s.lastBoundary.get? cid

def observeFailure (round : ℤ) (cid : Cid) (boundary : Option String) (kind : String) (reason : Option String) :
    Method Policy Unit :=
  modify fun s ↦ { s with feasibilityFilter :=
    s.feasibilityFilter.observeFailure round cid (failedBoundary s cid boundary) (normalize kind) reason }

/-- The measured seconds of a cut replace its interpolated ones. -/
def CostTable.observe (t : CostTable) (boundary : String) (forward backward service : ℚ) : CostTable :=
  { t with
    observedFront := t.observedFront.insert boundary ((forward + backward) / 1000)
    observedTail := t.observedTail.insert boundary (service / 1000) }

/-- `max((milliseconds / 1000 - intercept) / volume, 0)`, where both are there. -/
def slopeFrom (old : ℚ) (milliseconds : Option ℚ) (intercept volume : ℚ) : ℚ :=
  match milliseconds with
  | some ms => if 0 < volume then max ((ms / 1000 - intercept) / volume) 0 else old
  | none => old

def CostTable.observeLink (t : CostTable) (o : PlacementFeedback ℚ) (volume exchange : ℚ) : CostTable :=
  { t with
    networkSecondsPerByte :=
      slopeFrom t.networkSecondsPerByte (o.measured .networkRoundtripMs) t.networkInterceptSeconds volume
    stateSecondsPerByte :=
      slopeFrom t.stateSecondsPerByte (o.measured .stateExchangeMs) t.stateInterceptSeconds exchange }

/-- The three computation costs, which have to be there and not negative. The medians are finite. -/
def computationCosts (o : PlacementFeedback ℚ) : Except PyError (ℚ × ℚ × ℚ) :=
  match o.measured .clientForwardMs, o.measured .clientBackwardMs, o.measured .serverServiceMs with
  | some forward, some backward, some service =>
    if 0 ≤ forward ∧ 0 ≤ backward ∧ 0 ≤ service then .ok (forward, backward, service)
    else .error (.valueError "Greedy requires finite measured computation costs")
  | _, _, _ => .error (.valueError "Greedy requires finite measured computation costs")

def batchSizeOf (cid : Cid) : Except PyError ℤ := do
  let props ← E.client cid
  match props.batchSize with
  | none => .error (.keyError "batch_size")
  | some batch => return batch

/-- `self.round_diagnostics[round]["feedback_clients"].append(cid)`. -/
def noteFeedback (round : ℤ) (cid : Cid) : Method Policy Unit := do
  match (← get).roundDiagnostics.get? round with
  | none => throw (.keyError (toString round))
  | some d =>
    modify fun s ↦ { s with roundDiagnostics :=
      s.roundDiagnostics.insert round { d with feedbackClients := d.feedbackClients ++ [cid] } }

def markObserved (o : PlacementFeedback ℚ) (s : Policy) : Policy :=
  { s with
    feasibilityFilter := s.feasibilityFilter.observeMemory o.clientId o.boundary
      (o.measured .clientPeakMemoryMb) (o.measured .serverPeakMemoryMb)
    lastBoundary := s.lastBoundary.insert o.clientId o.boundary
    observedActions := insert (actionKey o) s.observedActions }

/-- The rest of a turn of the loop, for an observation of a success. -/
def observeSuccess (round : ℤ) (o : PlacementFeedback ℚ) : Method Policy Unit := do
  require (1 ≤ o.numBatches) (.valueError "Greedy feedback requires actual executed batches")
  match (← get).catalogByBoundary.get? o.boundary with
  | none => throw (.keyError o.boundary)
  | some candidate =>
    let t ← table E o.clientId
    let (forward, backward, service) ← computationCosts o
    let t := t.observe candidate.boundary forward backward service
    modify (·.storeTable o.clientId t)
    let batch ← batchSizeOf E o.clientId
    let (volume, exchange) ← volumes E (← get).profiles candidate batch
    modify (·.storeTable o.clientId (t.observeLink o volume exchange))
    modify (markObserved o)
    noteFeedback round o.clientId

/-- One turn of the loop of `observe_round`. -/
def observeOne (round : ℤ) (o : PlacementFeedback ℚ) : Method Policy Unit := do
  require (o.roundId = round) (.valueError "Feedback round does not match observe_round")
  let s ← get
  if actionKey o ∈ s.observedActions then
    return ()
  require ((s.roundAssignments.get? (round, true)).bind (·.get? o.clientId) = some o.boundary)
    (.valueError "Feedback must match the client's executed round plan")
  if o.success then observeSuccess E round o
  else observeFailure normalize round o.clientId (some o.boundary) "runtime" none

def observeRound (round : ℤ) (feedback : List (PlacementFeedback Reading)) : Method Policy Unit := do
  let observations ← aggregateFeedback normalize feedback
  observations.forM (observeOne normalize E round)
  saveState C E

end Observing

end SplitFleet.GreedyPolicy
