import SplitFleet.PrefixContexts
import SplitFleet.Lib.Json

set_option autoImplicit false

namespace SplitFleet.SplitSteps

open Lib
open SplitClient (PrefixContextKey)

/-- The parts of an exported contract that the messages carry. -/
structure Contract where
  canonicalGraphHash : String
  boundarySchemaHash : String
  digest : String

/-- `SplitRuntimeHandle`: the runtime of a cut, and what its metadata has of a step. -/
structure Handle where
  backend : String
  splitId : String
  contract : Except PyError Contract
  roundId : Option ℤ
  clientId : Option String
  stepId : Option String
  planId : Option String
  modelVersion : Option ℤ

section Messages

variable (τ ω : Type)

/-- The tensors of a cut in the process that computed them, with their graph. -/
structure Native where
  tensors : Dict String τ
  metadata : Dict String Json

structure BoundaryEnvelope where
  tensors : List (String × ω)
  backend : String
  key : PrefixContextKey
  planId : String
  splitId : String
  canonicalGraphHash : String
  boundarySchemaHash : String
  modelVersion : ℤ
  batchSize : ℤ
  metadata : Dict String Json
  contractDigest : String

structure GradientEnvelope where
  tensors : List (String × ω)
  backend : String
  key : PrefixContextKey
  planId : String
  splitId : String
  modelVersion : ℤ

/-- The boundary that a suffix is run on. -/
structure ReplayBoundary where
  backend : String
  tensors : Dict String τ
  metadata : Dict String Json
  splitId : String
  graphShapeHash : String
  batchSize : ℤ

/-- What a call is given to learn from. -/
inductive Targets
  | absent (outputs : ReplayBoundary τ → Except PyError Unit)
  | withoutLoss
  | given (train : ReplayBoundary τ → Except PyError (Dict String τ)) (loss : Except PyError Unit)

end Messages

variable {τ ω : Type}

/-- What has happened to the contexts and the messages. -/
inductive Entry (τ ω : Type)
  | stored (h : Handle) (key : PrefixContextKey) (native : Native τ)
  | sent (h : Handle) (native : Native τ) (boundary : BoundaryEnvelope ω)
  | trained (h : Handle) (boundary : BoundaryEnvelope ω) (replay : ReplayBoundary τ) (gradients : Dict String τ)
      (gradient : GradientEnvelope ω)
  | stepped (h : Handle) (key : PrefixContextKey) (native : Native τ) (gradient : GradientEnvelope ω)
      (gradients : Dict String τ)

/-- Two engines and every message between them: a message may arrive late, often, or never. -/
structure Engines (τ ω : Type) where
  contexts : Dict PrefixContextKey (Native τ)
  boundaries : List (BoundaryEnvelope ω)
  gradients : List (GradientEnvelope ω)
  /-- The number of step ids drawn so far. -/
  drawn : ℕ
  log : List (Entry τ ω)

/-- The adapters of the frameworks, with the tensors on the device of a handle. -/
structure Adapters (τ ω : Type) where
  encode : String → String → τ → Except PyError ω
  decode : Handle → ω → Except PyError τ
  int : Json → Except PyError ℤ

section Wire

variable (A : Adapters τ ω)

def encodeTensors (backend : String) (tensors : Dict String τ) : Except PyError (List (String × ω)) :=
  tensors.entries.mapM fun p ↦ (A.encode backend p.1 p.2).map fun w ↦ (p.1, w)

def decodeTensors (h : Handle) (tensors : List (String × ω)) : Except PyError (Dict String τ) := do
  let decoded ← tensors.mapM fun p ↦ (A.decode h p.2).map fun x ↦ (p.1, x)
  return Dict.ofList decoded

def isScalar : Json → Bool
  | .arr _ => false
  | .obj _ => false
  | _ => true

def replayMetadataKeys : List String :=
  ["runtime_batch_size", "shape_program_hash", "batch_symbol", "profile_hash", "device_policy"]

/-- `replay_metadata` -/
def replayMetadata (metadata : Dict String Json) : Except PyError (Dict String Json) :=
  replayMetadataKeys.foldlM (fun result key ↦
    match metadata.get? key with
    | none => .ok result
    | some v =>
      if isScalar v then .ok (result.insert key v)
      else .error (.typeError s!"Replay metadata {pyRepr key} must be a JSON scalar.")) .empty

def runtimeBatchSize (metadata : Dict String Json) : Except PyError ℤ :=
  match metadata.get? "runtime_batch_size" with
  | none => .error (.keyError "runtime_batch_size")
  | some v => A.int v

end Wire

/-! ### The store of the contexts -/

section Store

/-- `PrefixContextStore.put`, where a training prefix keeps its context. -/
def putContext (training : Bool) (h : Handle) (key : PrefixContextKey) (native : Native τ) :
    Method (Engines τ ω) Unit := do
  let s ← get
  match training with
  | false => return ()
  | true => do
    require (s.contexts.get? key = none) (.keyError s!"Prefix context already exists for {key.repr}")
    modify fun s ↦ { s with contexts := s.contexts.insert key native, log := s.log ++ [.stored h key native] }

/-- `PrefixContextStore.pop` -/
def popContext (key : PrefixContextKey) : Method (Engines τ ω) (Native τ) := do
  let s ← get
  match s.contexts.get? key with
  | none => throw (.keyError s!"No pending prefix context for {key.repr}")
  | some native => do
    modify fun s ↦ { s with contexts := s.contexts.erase key }
    return native

/-- `PrefixContextStore.discard_round` -/
def discardRound (round : ℤ) (client : Option String) : Method (Engines τ ω) Unit :=
  modify fun s ↦ { s with
    contexts := s.contexts.filterKeys fun key ↦ ¬(key.roundId = round ∧ client.getD key.clientId = key.clientId) }

/-- `PrefixContextStore.clear` -/
def clear : Method (Engines τ ω) Unit := modify fun s ↦ { s with contexts := .empty }

end Store

/-! ### The engine -/

section Engine

variable (A : Adapters τ ω) (uuid : ℕ → String)

/-- `str(handle.metadata.get("step_id") or uuid.uuid4().hex)` -/
def stepOf (h : Handle) : Method (Engines τ ω) String := do
  let s ← get
  if h.stepId.getD "" = "" then do
    modify fun s ↦ { s with drawn := s.drawn + 1 }
    return uuid s.drawn
  else return h.stepId.getD ""

/-- The message of a prefix, without the tensors. -/
def boundaryOf (h : Handle) (contract : Contract) (key : PrefixContextKey) (tensors : List (String × ω)) (batchSize : ℤ)
    (metadata : Dict String Json) : BoundaryEnvelope ω where
  tensors := tensors
  backend := h.backend
  key := key
  planId := h.planId.getD ""
  splitId := h.splitId
  canonicalGraphHash := contract.canonicalGraphHash
  boundarySchemaHash := contract.boundarySchemaHash
  modelVersion := h.modelVersion.getD 0
  batchSize := batchSize
  metadata := metadata
  contractDigest := contract.digest

/-- `run_prefix`, where `native` is what the runtime of the prefix returned. -/
def runPrefix (h : Handle) (native : Except PyError (Native τ)) (training : Bool) : Method (Engines τ ω) Unit := do
  let native ← native
  let contract ← h.contract
  let step ← stepOf uuid h
  putContext training h ⟨h.roundId.getD 0, h.clientId.getD "", step⟩ native
  let tensors ← encodeTensors A h.backend native.tensors
  let batchSize ← runtimeBatchSize A native.metadata
  let metadata ← replayMetadata native.metadata
  let boundary := boundaryOf h contract ⟨h.roundId.getD 0, h.clientId.getD "", step⟩ tensors batchSize metadata
  modify fun s ↦ { s with boundaries := s.boundaries ++ [boundary], log := s.log ++ [.sent h native boundary] }

/-- `_native_boundary` -/
def nativeBoundary (h : Handle) (boundary : BoundaryEnvelope ω) : Except PyError (ReplayBoundary τ) := do
  require (boundary.backend = h.backend)
    (.valueError s!"Boundary backend mismatch: {pyRepr boundary.backend} != {pyRepr h.backend}")
  let contract ← h.contract
  require (boundary.splitId = h.splitId) (.valueError "Boundary split id mismatch")
  require (boundary.canonicalGraphHash = contract.canonicalGraphHash)
    (.valueError "Boundary canonical graph hash mismatch")
  require (boundary.boundarySchemaHash = contract.boundarySchemaHash) (.valueError "Boundary schema hash mismatch")
  let tensors ← decodeTensors A h boundary.tensors
  let metadata ← replayMetadata boundary.metadata
  return ⟨h.backend, tensors, metadata, h.splitId, contract.canonicalGraphHash, boundary.batchSize⟩

def gradientOf (h : Handle) (boundary : BoundaryEnvelope ω) (tensors : List (String × ω)) : GradientEnvelope ω where
  tensors := tensors
  backend := h.backend
  key := boundary.key
  planId := boundary.planId
  splitId := boundary.splitId
  modelVersion := boundary.modelVersion

/-- `run_suffix` -/
def runSuffix (h : Handle) (boundary : BoundaryEnvelope ω) (targets : Targets τ) : Method (Engines τ ω) Unit := do
  let replay ← nativeBoundary A h boundary
  match targets with
  | .absent outputs => liftM (outputs replay)
  | .withoutLoss => throw (.valueError "Split training requires an explicit loss_fn.")
  | .given train loss => do
    let gradients ← train replay
    let tensors ← encodeTensors A h.backend gradients
    let _ ← loss
    modify fun s ↦ { s with
      gradients := s.gradients ++ [gradientOf h boundary tensors]
      log := s.log ++ [.trained h boundary replay gradients (gradientOf h boundary tensors)] }

/-- The checks of `backward_prefix`, before it takes the context. -/
def checkGradient (h : Handle) (token : PrefixContextKey) (gradient : GradientEnvelope ω) : Except PyError Unit := do
  require (gradient.key = token) (.valueError "Gradient context identity mismatch")
  require (gradient.backend = h.backend) (.valueError "Gradient backend mismatch")
  require (gradient.splitId = h.splitId) (.valueError "Gradient split id mismatch")
  require (h.planId.getD gradient.planId = gradient.planId) (.valueError "Gradient plan_id mismatch")
  require (h.modelVersion.getD gradient.modelVersion = gradient.modelVersion)
    (.valueError "Gradient model_version mismatch")

/-- `backward_prefix`, where `backward` is the call of the runtime. -/
def backwardPrefix (h : Handle) (token : PrefixContextKey) (gradient : GradientEnvelope ω)
    (backward : Native τ → Dict String τ → Except PyError Unit) : Method (Engines τ ω) Unit := do
  checkGradient h token gradient
  let native ← popContext token
  let gradients ← decodeTensors A h gradient.tensors
  modify fun s ↦ { s with log := s.log ++ [.stepped h token native gradient gradients] }
  liftM (backward native gradients)

/-! ### Runs -/

/-- What may happen next. A suffix and a gradient step are given any message that was ever sent. -/
inductive Event (τ : Type)
  | runPrefix (h : Handle) (native : Except PyError (Native τ)) (training : Bool)
  | runSuffix (h : Handle) (message : ℕ) (targets : Targets τ)
  | backwardPrefix (h : Handle) (token : PrefixContextKey) (message : ℕ)
      (backward : Native τ → Dict String τ → Except PyError Unit)
  | discardRound (round : ℤ) (client : Option String)
  | clear

def Event.run : Event τ → Method (Engines τ ω) Unit
  | .runPrefix h native training => SplitSteps.runPrefix A uuid h native training
  | .runSuffix h message targets => do
    let s ← get
    match s.boundaries[message]? with
    | none => return ()
    | some boundary => SplitSteps.runSuffix A h boundary targets
  | .backwardPrefix h token message backward => do
    let s ← get
    match s.gradients[message]? with
    | none => return ()
    | some gradient => SplitSteps.backwardPrefix A h token gradient backward
  | .discardRound round client => SplitSteps.discardRound round client
  | .clear => SplitSteps.clear

def start : Engines τ ω := ⟨.empty, [], [], 0, []⟩

/-- The engines after the events, whether the calls returned or raised. -/
def history (events : List (Event τ)) : Engines τ ω := events.foldl (fun s event ↦ (event.run A uuid).after s) start

end Engine

end SplitFleet.SplitSteps
