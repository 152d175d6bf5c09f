import SplitFleet.Lib.Digits
import SplitFleet.Lib.Hoare
import SplitFleet.Lib.Json

set_option autoImplicit false

namespace SplitFleet.SplitClient

open Lib

/-- A value of a configuration. -/
inductive Scalar
  | bool (b : Bool)
  | int (z : ℤ)
  | float (bits : BitVec 64)
  | str (s : String)
  | bytes (b : List UInt8)
  deriving DecidableEq

structure GraphContract where
  protocolVersion : String
  torchlensVersion : String
  backend : String
  modelProfileId : String
  modelRevision : String
  modelStateSchemaHash : String
  inputSchemaHash : String
  splitRequestHash : String
  canonicalGraphHash : String
  splitId : String
  boundarySchemaHash : String
  capabilityHash : String
  deriving DecidableEq

/-- `_IDENTITY_FIELDS` with their values. -/
def GraphContract.identity (c : GraphContract) : List (String × String) :=
  [("protocol_version", c.protocolVersion), ("torchlens_version", c.torchlensVersion), ("backend", c.backend),
    ("model_profile_id", c.modelProfileId), ("model_revision", c.modelRevision),
    ("model_state_schema_hash", c.modelStateSchemaHash), ("input_schema_hash", c.inputSchemaHash),
    ("split_request_hash", c.splitRequestHash), ("canonical_graph_hash", c.canonicalGraphHash),
    ("split_id", c.splitId), ("boundary_schema_hash", c.boundarySchemaHash), ("capability_hash", c.capabilityHash)]

/-- `compare_contracts`: the first field that differs, with both values. -/
def compareContracts (expected actual : GraphContract) : Option (String × String × String) :=
  ((expected.identity.zip actual.identity).find? fun p ↦ p.1.2 ≠ p.2.2).map fun p ↦ (p.1.1, p.1.2, p.2.2)

def validateContract (expected actual : GraphContract) : Except PyError Unit :=
  match compareContracts expected actual with
  | none => .ok ()
  | some (field, e, a) => .error (.raised "ContractValidationError"
      s!"Graph contract mismatch at {field}: expected {pyRepr e}, got {pyRepr a}")

theorem eq_of_validateContract {expected actual : GraphContract} {u : Unit}
    (h : validateContract expected actual = .ok u) : expected = actual := by
  unfold validateContract compareContracts at h
  split at h
  · next hnone =>
    rw [Option.map_eq_none_iff, List.find?_eq_none] at hnone
    cases expected
    cases actual
    simpa [GraphContract.identity] using hnone
  · cases h

abbrev BatchWindow := Option (ℤ × ℤ)

structure Plan where
  planId : String
  boundary : String
  splitId : String
  graphSignature : String
  featureAbiId : String
  trainable : Bool
  dynamicBatch : BatchWindow
  traceBatchMode : Option String
  deriving DecidableEq

/-- A prepared runtime: its plan, the cut that was asked for, and the contract that is read off it. -/
structure Handle where
  plan : Plan
  requestBoundary : String
  /-- `graph_contract_for_runtime_handle` -/
  contract : Except PyError GraphContract

structure RoundRuntime where
  handle : Handle
  contract : GraphContract
  batchWindow : BatchWindow
  traceBatchMode : String

/-- What the language does with the values that are no plain text or number. -/
structure Builtins where
  floatStr : BitVec 64 → String
  bytesStr : List UInt8 → String
  floatInt : BitVec 64 → Except PyError ℤ
  bytesInt : List UInt8 → Except PyError ℤ
  floatTrue : BitVec 64 → Bool
  loads : String → Except PyError Json
  jsonInt : Json → Except PyError ℤ
  /-- `GraphContract.from_json` -/
  graphContract : Scalar → Except PyError GraphContract
  /-- `contract.digest` -/
  digest : GraphContract → String

variable (B : Builtins)

/-- `str(value)` -/
def str : Scalar → String
  | .bool b => if b then "True" else "False"
  | .int z => toString z
  | .float bits => B.floatStr bits
  | .str s => s
  | .bytes b => B.bytesStr b

/-- `int(value)` -/
def int : Scalar → Except PyError ℤ
  | .bool b => .ok (if b then 1 else 0)
  | .int z => .ok z
  | .float bits => B.floatInt bits
  | .str s => intOfText s
  | .bytes b => B.bytesInt b

/-- `bool(value)` -/
def truthy : Scalar → Bool
  | .bool b => b
  | .int z => z ≠ 0
  | .float bits => B.floatTrue bits
  | .str s => s ≠ ""
  | .bytes b => b ≠ []

def batchWindowError (message : String) : PyError := .raised "BatchWindowError" message

/-- The bounds of a window. -/
def checkWindow (low high : ℤ) : Except PyError BatchWindow := do
  require (1 ≤ low) (batchWindowError s!"Dynamic batch window lower bound must be >= 1, got {low}.")
  require (low ≤ high)
    (batchWindowError s!"Dynamic batch window upper bound {high} is smaller than lower bound {low}.")
  return some (low, high)

def unsupportedWindow : PyError := batchWindowError "Unsupported dynamic batch window"

/-- `normalize_batch_window` of what a text holds. -/
def windowOfJson : Json → Except PyError BatchWindow
  | .null => .ok none
  | .arr [a, b] => do
    let low ← B.jsonInt a
    let high ← B.jsonInt b
    checkWindow low high
  | .arr _ => .error (batchWindowError "A dynamic batch window needs exactly two bounds")
  | _ => .error unsupportedWindow

/-- `normalize_batch_window` of a configured value. -/
def windowOfConfig : Option Scalar → Except PyError BatchWindow
  | none => .ok none
  | some (.str s) =>
    let text := String.ofList (strip s.toList)
    if text = "" ∨ text = "null" then .ok none
    else match B.loads text with
      | .error _ => .error (batchWindowError s!"Invalid dynamic batch window {pyRepr text}.")
      | .ok value => windowOfJson B value
  | some _ => .error unsupportedWindow

/-- `normalize_batch_window` of the window of a plan. -/
def windowOfPlan : BatchWindow → Except PyError BatchWindow
  | none => .ok none
  | some (low, high) => checkWindow low high

def describeBatchWindow : BatchWindow → String
  | none => "unbounded"
  | some (low, high) => s!"[{low}, {high}]"

abbrev Config := Dict String Scalar

/-- `str(config.get(key, default))` -/
def textOf (config : Config) (key : String) (default : String := "") : String :=
  ((config.get? key).map (str B)).getD default

/-- What a round asks of the client's runtime. -/
structure Request where
  planId : String
  splitId : String
  graphSignature : String
  featureAbiId : String
  dynamicBatch : BatchWindow
  traceBatchMode : Option String
  trainable : Bool
  deriving DecidableEq

/-- `str(config["autosplit_plan_id"])` -/
def planIdOf (config : Config) : Except PyError String :=
  match config.get? "autosplit_plan_id" with
  | some value => .ok (str B value)
  | none => .error (.keyError "autosplit_plan_id")

def requestOf (config : Config) : Except PyError Request := do
  let planId ← planIdOf B config
  let dynamicBatch ← windowOfConfig B (config.get? "autosplit_dynamic_batch")
  let mode := textOf B config "autosplit_trace_batch_mode"
  return {
    planId := planId
    splitId := textOf B config "autosplit_split_id"
    graphSignature := textOf B config "autosplit_graph_signature"
    featureAbiId := textOf B config "autosplit_feature_abi_id"
    dynamicBatch := dynamicBatch
    traceBatchMode := if mode = "" then none else some mode
    trainable := ((config.get? "autosplit_trainable").map (truthy B)).getD true }

structure PrefixContextKey where
  roundId : ℤ
  clientId : String
  stepId : String
  deriving DecidableEq

/-- A measured calibration: each record has a cut and the signature of its graph. -/
structure Receipt where
  schema : String
  modelHashAfter : String
  records : List (String × String)

/-- What is the same in every call. -/
structure Env where
  builtins : Builtins
  backendName : String
  torchlensVersion : String
  qualname : String
  device : String
  /-- `ModelVersionContract.from_json`: the round's model version and the hash of the state schema. -/
  versionContract : Scalar → Except PyError (ℤ × String)
  /-- The reason that `classify_contract_compatibility` gives. -/
  compatibilityReason : Option Scalar → Handle → Except PyError String
  /-- `json.loads` of a list of cuts. -/
  boundaries : Scalar → Except PyError (List String)

/-- What the session, the model and the server answer within one call. -/
structure Answers where
  stateSchema : Except PyError String
  loaded : Except PyError Unit
  prepared : Except PyError Handle
  repartitioned : Except PyError Handle
  modelHash : String
  loadedHash : String
  currentHash : String
  probed : Except PyError Unit
  calibrated : Except PyError Receipt
  described : Except PyError Unit

/-- The client, with a context by the identity of its object. -/
structure Client where
  maxCachedRuntimes : Option ℕ
  roundConfig : Config
  contexts : Dict PrefixContextKey ℕ
  runtimeCache : Dict String RoundRuntime
  prewarmed : Option Handle
  receipt : Option Receipt
  hasCalibrationTargets : Bool

namespace Client

def discardRound (round : ℤ) (c : Client) : Client := { c with contexts := c.contexts.filterKeys (·.roundId ≠ round) }

/-- The runtime that a new cut may be made from. -/
def reusable (c : Client) : Option Handle :=
  match c.prewarmed with
  | some handle => some handle
  | none => if c.maxCachedRuntimes = some 1 then c.runtimeCache.values.head?.map (·.handle) else none

def full (c : Client) : Prop := ∃ n ∈ c.maxCachedRuntimes, n ≤ c.runtimeCache.size

instance (c : Client) : Decidable c.full := inferInstanceAs (Decidable (∃ n ∈ c.maxCachedRuntimes, n ≤ c.runtimeCache.size))

def dropPrewarmed (c : Client) : Client := { c with prewarmed := none }

def clearRuntimes (c : Client) : Client := { c with runtimeCache := .empty }

end Client

variable (env : Env)

/-- The parts of the key under which a runtime is kept. -/
def cacheFields (stateSchema : String) (training : Bool) (r : Request) : List String :=
  [env.backendName, env.torchlensVersion, env.qualname, stateSchema, r.planId, r.splitId, r.graphSignature,
    r.featureAbiId, env.device, if training then "train" else "eval", describeBatchWindow r.dynamicBatch,
    r.traceBatchMode.getD "", if r.trainable then "True" else "False"]

def cacheKey (stateSchema : String) (training : Bool) (r : Request) : String :=
  String.ofList (List.intercalate ['|'] ((cacheFields env stateSchema training r).map String.toList))

/-- The graph contract of the configuration, if it has one, is that of the runtime. -/
def checkContract (config : Config) (handle : Handle) : Except PyError Unit := do
  match config.get? "autosplit_graph_contract" with
  | none => return ()
  | some raw =>
    if truthy env.builtins raw then do
      let expected ← env.builtins.graphContract raw
      require (config.get? "autosplit_graph_contract_digest" = some (.str (env.builtins.digest expected)))
        (.runtimeError "Configured graph contract digest is invalid")
      let actual ← handle.contract
      validateContract expected actual
    else return ()

def validateFeatureAbi (config : Config) (handle : Handle) : Except PyError Unit := do
  let expected := textOf env.builtins config "autosplit_feature_abi_id"
  if expected = "" ∨ expected = handle.plan.featureAbiId then return ()
  else do
    let reason ← env.compatibilityReason (config.get? "autosplit_runtime_contract") handle
    throw (.runtimeError ("Prefix feature ABI does not match the ABI announced by the server: " ++
      s!"prepared {pyRepr handle.plan.featureAbiId}, expected {pyRepr expected} (reason={pyRepr reason})."))

def canRepartition (r : Request) (handle : Handle) : Except PyError Bool :=
  if handle.plan.graphSignature = r.graphSignature ∧ handle.plan.trainable = r.trainable then do
    let dynamicBatch ← windowOfPlan handle.plan.dynamicBatch
    return dynamicBatch = r.dynamicBatch ∧ handle.plan.traceBatchMode.getD "" = r.traceBatchMode.getD ""
  else return false

/-- A runtime from a new trace. -/
def prepareAnew (w : Answers) : Method Client Handle := do
  modify Client.dropPrewarmed
  modify fun c ↦ if c.full then c.clearRuntimes else c
  liftM w.prepared

/-- A runtime for the round: the reusable one, a new cut of it, or one from a new trace. -/
def obtain (w : Answers) (r : Request) (boundary : String) : Method Client Handle := do
  let c ← get
  match c.reusable with
  | none => prepareAnew w
  | some previous =>
    if ← canRepartition r previous then
      if previous.plan.boundary = boundary then do
        modify Client.dropPrewarmed
        modify fun c ↦ if c.maxCachedRuntimes = some 1 then c.clearRuntimes else c
        return previous
      else do
        let handle ← w.repartitioned
        modify fun c ↦ c.dropPrewarmed.clearRuntimes
        return handle
    else prepareAnew w

/-- The checks of a runtime that was not in the cache. -/
def accept (config : Config) (r : Request) (handle : Handle) : Except PyError RoundRuntime := do
  require (r.splitId = "" ∨ handle.plan.splitId = r.splitId)
    (.runtimeError s!"TorchLens split id mismatch: prepared {handle.plan.splitId}, expected {r.splitId}.")
  require (r.graphSignature = "" ∨ handle.plan.graphSignature = r.graphSignature) (.runtimeError
    s!"TorchLens graph signature mismatch: prepared {handle.plan.graphSignature}, expected {r.graphSignature}.")
  let contract ← handle.contract
  checkContract env config handle
  validateFeatureAbi env config handle
  let batchWindow ← windowOfPlan handle.plan.dynamicBatch
  return ⟨handle, contract, batchWindow, handle.plan.traceBatchMode.getD ""⟩

/-- `_ensure_round_runtime` -/
def ensureRoundRuntime (w : Answers) (config : Config) (stateSchema : String) (training : Bool) :
    Method Client RoundRuntime := do
  let r ← requestOf env.builtins config
  let key := cacheKey env stateSchema training r
  let c ← get
  match c.runtimeCache.get? key with
  | some cached => do
    checkContract env config cached.handle
    validateFeatureAbi env config cached.handle
    return cached
  | none => do
    let handle ← obtain w r (textOf env.builtins config "autosplit_boundary" "50%")
    let runtime ← accept env config r handle
    modify fun c ↦ { c with runtimeCache := c.runtimeCache.insert key runtime }
    return runtime

/-- `int(config.get("autosplit_model_version", default))` -/
def modelVersion (config : Config) (default : ℤ) : Except PyError ℤ :=
  match config.get? "autosplit_model_version" with
  | none => .ok default
  | some value => int env.builtins value

def checkVersion (config : Config) (current : ℤ) (stateSchema : String) : Except PyError Unit := do
  match config.get? "autosplit_model_version_contract" with
  | none => return ()
  | some raw =>
    if truthy env.builtins raw then do
      let (version, schema) ← env.versionContract raw
      require (version = current) (.runtimeError "Round model version contract mismatch")
      require (schema = stateSchema) (.runtimeError "Client model state schema mismatch")
    else return ()

/-- `int(config.get("autosplit_client_stage_count", 1))` -/
def clientStageCount (config : Config) : Except PyError ℤ :=
  match config.get? "autosplit_client_stage_count" with
  | none => .ok 1
  | some value => int env.builtins value

def checkConfig (config : Config) : Except PyError Unit := do
  require (config.get? "autosplit_backend" = some (.str "torchlens"))
    (.valueError "Split config must explicitly declare backend='torchlens'.")
  let stages ← clientStageCount env config
  require (stages = 1) (.valueError "TorchLens autosplit backend supports exactly one client-local prefix stage.")

/-- `_prepare_round`, up to the runtime. It returns the hash of the state schema. -/
def openRound (w : Answers) (config : Config) : Method Client String := do
  checkConfig env config
  liftM w.loaded
  let c ← get
  let previous ← modelVersion env c.roundConfig (-1)
  let current ← modelVersion env config 0
  modify fun c ↦ if 0 ≤ previous ∧ previous ≠ current then c.discardRound previous else c
  modify fun c ↦ { c with roundConfig := config }
  let stateSchema ← w.stateSchema
  checkVersion env config current stateSchema
  return stateSchema

/-- `_prepare_round` -/
def prepareRound (w : Answers) (config : Config) (training : Bool) : Method Client RoundRuntime := do
  let stateSchema ← openRound env w config
  ensureRoundRuntime env w config stateSchema training

/-- A request that resolves to another cut is cut again there. -/
def recut (w : Answers) (handle : Handle) : Except PyError Handle :=
  if handle.requestBoundary = handle.plan.boundary then .ok handle else w.repartitioned

def prewarmRuntime (w : Answers) : Method Client Unit := do
  let prepared ← w.prepared
  let handle ← recut w prepared
  modify fun c ↦ { c with prewarmed := some handle }

def calibrateRuntime (w : Answers) : Method Client Unit := do
  let c ← get
  require (c.prewarmed.isSome = true) (.valueError "Prepare the runtime before measuring calibration anchors")
  let receipt ← w.calibrated
  modify fun c ↦ { c with receipt := some receipt }

/-- The receipt is of the model as it is, of these cuts and of the prewarmed graph. -/
def receiptFits (w : Answers) (boundaries : List String) (receipt : Receipt) (handle : Handle) : Prop :=
  receipt.modelHashAfter = w.currentHash ∧ receipt.schema = "splitfleet.training-calibration" ∧
    (∀ b, b ∈ receipt.records.map Prod.fst ↔ b ∈ boundaries) ∧
      ∀ row ∈ receipt.records, row.2 = handle.plan.graphSignature

instance (w : Answers) (boundaries : List String) (receipt : Receipt) (handle : Handle) :
    Decidable (receiptFits w boundaries receipt handle) :=
  decidable_of_iff (receipt.modelHashAfter = w.currentHash ∧ receipt.schema = "splitfleet.training-calibration" ∧
    ((∀ b ∈ receipt.records.map Prod.fst, b ∈ boundaries) ∧ ∀ b ∈ boundaries, b ∈ receipt.records.map Prod.fst) ∧
      ∀ row ∈ receipt.records, row.2 = handle.plan.graphSignature) (by
    rw [receiptFits, ← forall_and]
    simp only [iff_def])

/-- The reusable runtime has the window and, where one is named, the mode that are asked for. -/
def calibrationReusable (dynamicBatch : BatchWindow) (traceBatchMode : Option Scalar) :
    Option Handle → Except PyError Bool
  | none => .ok false
  | some handle => do
    let window ← windowOfPlan handle.plan.dynamicBatch
    return window = dynamicBatch ∧ ∀ mode ∈ traceBatchMode, truthy env.builtins mode = true →
      handle.plan.traceBatchMode.map Scalar.str = some mode

/-- The parameters that came with a calibration are loaded. -/
def loadCalibration (w : Answers) (payload expectedHash : Option Scalar) : Except PyError Unit :=
  if payload.isSome then do
    w.loaded
    require (expectedHash.isNone ∨ expectedHash = some (.str w.loadedHash))
      (.valueError "Calibration parameter payload differs from the requested global model")
  else return ()

/-- A calibration that cannot reuse the prewarmed runtime drops every runtime and prewarms another. -/
def renewRuntime (w : Answers) (reuse : Bool) : Method Client Unit :=
  if reuse then return () else do
    modify fun c ↦ c.dropPrewarmed.clearRuntimes
    prewarmRuntime w
    modify fun c ↦ { c with receipt := none }

def renewReceipt (w : Answers) (boundaries : List String) : Method Client Unit := do
  let c ← get
  if ∀ receipt ∈ c.receipt, ∀ handle ∈ c.prewarmed, ¬receiptFits w boundaries receipt handle then do
    require (c.hasCalibrationTargets = true) (.valueError "Provide a representative TaskBatch for Greedy calibration")
    calibrateRuntime w
  else return ()

/-- The calibration part of `get_properties`: false where the coordinator has to send its parameters first. -/
def calibrate (w : Answers) (config : Config) (cuts : Scalar) : Method Client Bool := do
  let payload := config.get? "splitfleet_calibration_parameters"
  let expectedHash := config.get? "splitfleet_calibration_model_hash"
  if payload.isNone ∧ expectedHash.isSome ∧ expectedHash ≠ some (.str w.modelHash) then return false
  else do
    loadCalibration w payload expectedHash
    let dynamicBatch ← windowOfConfig env.builtins (config.get? "autosplit_dynamic_batch")
    let c ← get
    let reuse ← calibrationReusable env dynamicBatch (config.get? "autosplit_trace_batch_mode") c.prewarmed
    renewRuntime w reuse
    let boundaries ← env.boundaries cuts
    renewReceipt w boundaries
    return true

/-- Calibration, where cuts are given. -/
def calibrateIfAsked (w : Answers) (config : Config) : Method Client Bool :=
  match config.get? "splitfleet_calibration_boundaries" with
  | none => return true
  | some cuts => if truthy env.builtins cuts then calibrate env w config cuts else return true

def checkProbe (config : Config) (payload : Scalar) : Except PyError Unit := do
  let size ← match payload with
    | .bytes b => pure b.length
    | _ => throw (.valueError "Invalid Greedy transport probe")
  require (1 ≤ size ∧ size ≤ 2097152) (.valueError "Invalid Greedy transport probe")
  match config.get? "splitfleet_probe_reply_bytes" with
  | none => return ()
  | some (.int reply) => require (1 ≤ reply ∧ reply ≤ 2097152) (.valueError "Invalid Greedy transport reply size")
  | some _ => throw (.valueError "Invalid Greedy transport reply size")

/-- `get_properties`, without the properties. -/
def getProperties (w : Answers) (config : Config) : Method Client Unit :=
  if (config.get? "splitfleet_active_network_probe_round").isSome then liftM w.probed
  else match config.get? "splitfleet_probe_payload" with
    | some payload => liftM (checkProbe config payload)
    | none => do
      let described ← calibrateIfAsked env w config
      if described then liftM w.described else return ()

/-! ### Histories of calls -/

inductive Call
  | prewarmRuntime (w : Answers)
  | getProperties (w : Answers) (config : Config)
  | prepareRound (w : Answers) (config : Config) (training : Bool)

/-- A call, and the runtime that a round gets. -/
def perform : Call → Method Client (Option RoundRuntime)
  | .prewarmRuntime w => do
    prewarmRuntime w
    return none
  | .getProperties w config => do
    getProperties env w config
    return none
  | .prepareRound w config training => do
    let runtime ← prepareRound env w config training
    return some runtime

/-- The client after the calls, whether they returned or raised. -/
def after (calls : List Call) (c : Client) : Client := calls.foldl (fun c call ↦ (perform env call).after c) c

def fresh (maxCachedRuntimes : Option ℕ) (hasCalibrationTargets : Bool) : Client :=
  ⟨maxCachedRuntimes, .empty, .empty, .empty, none, none, hasCalibrationTargets⟩

end SplitFleet.SplitClient
