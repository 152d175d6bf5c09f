import SplitFleet.StateOwnership

set_option autoImplicit false

namespace SplitFleet.TailServer

open Lib StateOwnership

variable {ρ : Type}

structure StepKey where
  roundId : ℤ
  clientId : String
  stepId : String
  deriving DecidableEq

def StepKey.repr (k : StepKey) : String :=
  "(" ++ toString k.roundId ++ ", " ++ pyRepr k.clientId ++ ", " ++ pyRepr k.stepId ++ ")"

/-- What a decoded boundary says of the step that it belongs to. -/
structure WireBoundary where
  engine : String
  backend : String
  roundId : ℤ
  clientId : String
  stepId : String
  planId : String
  splitId : String
  canonicalGraphHash : String
  boundarySchemaHash : String
  modelVersion : ℤ
  batchSize : ℤ

def WireBoundary.stepKey (b : WireBoundary) : StepKey := ⟨b.roundId, b.clientId, b.stepId⟩

structure GraphContract where
  splitId : String
  canonicalGraphHash : String
  boundarySchemaHash : String

/-- What the native part of a configuration leaves in the suffix model. -/
structure NativeConfiguration where
  /-- `runtime_handle is not None`. -/
  prepared : Bool
  contract : GraphContract
  batchWindow : Option (ℤ × ℤ)
  traceBatchMode : String
  /-- The value of `self.state_ownership or state_ownership(…)`. -/
  ownership : Except PyError Manifest
  /-- The keys of `model.state_associations()`, where the model declares it. -/
  associations : Option (List String)
  supportsAuxiliary : Bool

structure AutoSplitTailServerModel where
  backendName : String
  sid : String
  planId : String
  modelVersion : ℤ
  native : NativeConfiguration
  numExamples : ℤ
  lossTotal : ℚ
  processedSteps : Finset StepKey
  inflightSteps : Finset StepKey
  /-- The optimizer updates applied to the suffix since the two sets were last cleared. -/
  updates : List StepKey

structure ServerModelFitIns where
  sid : String
  clientStageCount : ℤ
  modelVersion : ℤ
  planId : String
  native : NativeConfiguration
  /-- The exception of the native part, if it raises one. -/
  raises : Option PyError

/-- `train_suffix`: it raises before `optimizer.step()` or after it, or it returns. -/
inductive SuffixRun (ρ : Type)
  | raisedBeforeStep (e : PyError)
  | raisedAfterStep (e : PyError)
  | returned (auxiliary : Option (Dict String ρ)) (measurements : Dict String ℚ)

/-- One batch of a `train_tail` call, with what the code outside of the class does for it. -/
structure Delivery (ρ : Type) where
  boundary : Except PyError WireBoundary
  /-- The exceptions of `envelope_to_boundary` and `decode_bundle_wire`. -/
  payload : Option PyError
  targets : Option PyError
  numExamples : Except PyError ℤ
  run : SuffixRun ρ
  /-- The exception of `model.apply_statistics`. -/
  applyStatistics : Option PyError
  loss : Except PyError ℚ
  /-- The exceptions of the encoders of the gradients and of the prefix statistics. -/
  encodeGradients : Option PyError
  encodeStatistics : Option PyError

structure Response (ρ : Type) where
  auxiliaryState : Option (List (String × ρ))
  loss : ℚ
  numExamples : ℤ
  serverServiceMs : ℚ
  serverForwardMs : Option ℚ
  serverLossMs : Option ℚ
  serverBackwardMs : Option ℚ
  sid : String

/-- The buffers that a BatchNorm prefix must declare. -/
def buffers (name : String) : List String :=
  [name ++ ".running_mean", name ++ ".running_var", name ++ ".num_batches_tracked"]

/-- `dict(zip(manifest["names"], manifest["owners"], strict=True))`. -/
def ownerByName (m : Manifest) : Except PyError (Dict String Owner) :=
  if m.owners.length < m.names.length then
    .error (.valueError "zip() argument 2 is shorter than argument 1")
  else if m.names.length < m.owners.length then
    .error (.valueError "zip() argument 2 is longer than argument 1")
  else .ok (Dict.ofList (m.names.zip m.owners))

/-- The one stage that owns all buffers of a prefix. -/
def stageOf (associations : List String) (owners : Dict String Owner) (name : String) :
    Except PyError Owner :=
  if (buffers name).any (fun b ↦ b ∉ associations || (owners.get? b).isNone) then
    .error (.runtimeError ("Missing declared state association for " ++ name))
  else
    match ((buffers name).filterMap owners.get?).dedup with
    | [stage] =>
      if stage = .initial then
        .error (.runtimeError ("Auxiliary BN state has ambiguous or unexecuted ownership: " ++ name))
      else .ok stage
    | _ => .error (.runtimeError ("Auxiliary BN state has ambiguous or unexecuted ownership: " ++ name))

def statisticsForStage (associations : Option (List String)) (statistics : Dict String ρ)
    (m : Manifest) (stage : Owner) : Except PyError (List (String × ρ)) :=
  match associations with
  | none => .error (.typeError "Auxiliary split models must declare buffer state associations")
  | some names => do
    let owners ← ownerByName m
    let stages ← statistics.entries.mapM fun p ↦ stageOf names owners p.1
    return ((statistics.entries.zip stages).filter (·.2 = stage)).map Prod.fst

def expectedStatisticsNames (associations : Option (List String)) (m : Manifest) (stage : Owner) :
    Except PyError (List String) := do
  let owners ← ownerByName m
  return (associations.getD []).filterMap fun buffer ↦
    if owners.get? buffer = some stage then removeSuffix? buffer ".running_mean" else none

namespace AutoSplitTailServerModel

variable (s : AutoSplitTailServerModel)

/-- `configure_fit`: the two step sets are cleared before the native part runs. -/
def configureFit (ins : ServerModelFitIns) : AutoSplitTailServerModel × Except PyError Unit :=
  if ins.clientStageCount ≠ 1 then
    (s, .error (.valueError
      "TorchLens autosplit backend supports exactly one client-local prefix stage."))
  else
    ({ s with
        sid := ins.sid, numExamples := 0, lossTotal := 0, processedSteps := ∅, inflightSteps := ∅,
        modelVersion := ins.modelVersion, planId := ins.planId, native := ins.native, updates := [] },
      match ins.raises with
      | some e => .error e
      | none => .ok ())

def requireBatchInWindow (batchSize : ℤ) : Except PyError Unit :=
  match s.native.batchWindow with
  | none => .ok ()
  | some (low, high) =>
    if 0 < batchSize ∧ low ≤ batchSize ∧ batchSize ≤ high then .ok ()
    else
      .error (.raised "BatchWindowError"
        ("Split suffix (sid=" ++ (if s.sid = "" then "shared" else s.sid) ++ ") received batch size " ++
          toString batchSize ++ ", outside the negotiated dynamic batch window [" ++ toString low ++
          ", " ++ toString high ++ "]: widen \x60dynamic_batch\x60" ++
          (if s.native.traceBatchMode = "" then ""
            else " (traced in " ++ s.native.traceBatchMode ++ " mode)") ++
          " on AutoSplitStrategy so every device's batch size fits; " ++
          (if batchSize < low then "or drop short trailing batches (DataLoader(drop_last=True), " ++
              "or partial_batch_policy='skip' on the split client)"
            else "or lower the client batch size") ++ "."))

def validateWireIdentity (b : WireBoundary) : Except PyError Unit :=
  if b.engine ≠ "torchlens" ∨ b.backend ≠ s.backendName then
    .error (.valueError "Unsupported split engine/backend boundary")
  else if b.planId ≠ s.planId then .error (.valueError "Boundary placement plan mismatch")
  else if b.modelVersion ≠ s.modelVersion then .error (.valueError "Boundary model version is stale")
  else if b.splitId ≠ s.native.contract.splitId then .error (.valueError "Boundary split id mismatch")
  else if b.canonicalGraphHash ≠ s.native.contract.canonicalGraphHash then
    .error (.valueError "Boundary graph contract mismatch")
  else if b.boundarySchemaHash ≠ s.native.contract.boundarySchemaHash then
    .error (.valueError "Boundary ABI mismatch")
  else if b.batchSize < 1 then .error (.valueError "Boundary batch size must be positive.")
  else s.requireBatchInWindow b.batchSize

def beginStep (key : StepKey) : Except PyError AutoSplitTailServerModel :=
  if key ∈ s.processedSteps ∨ key ∈ s.inflightSteps then
    .error (.valueError ("Duplicate split step " ++ key.repr))
  else .ok { s with inflightSteps := insert key s.inflightSteps }

def completeStep (key : StepKey) : AutoSplitTailServerModel :=
  { s with
    inflightSteps := s.inflightSteps.erase key
    processedSteps := insert key s.processedSteps }

def abortStep (key : StepKey) : AutoSplitTailServerModel :=
  { s with inflightSteps := s.inflightSteps.erase key }

/-- `optimizer.step()` on the suffix. -/
def applyUpdate (key : StepKey) : AutoSplitTailServerModel := { s with updates := s.updates ++ [key] }

/-- The statistics of an auxiliary model after the run, up to `commit_auxiliary_state`. It gives
the statistics of the prefix. -/
def auxiliaryStatistics (applyStatistics : Option PyError) (auxiliary : Dict String ρ) :
    Except PyError (List (String × ρ)) := do
  let ownership ← s.native.ownership
  let _suffixStatistics ← statisticsForStage s.native.associations auxiliary ownership .suffixStage
  let prefixStatistics ← statisticsForStage s.native.associations auxiliary ownership .prefixStage
  let front ← expectedStatisticsNames s.native.associations ownership .prefixStage
  let back ← expectedStatisticsNames s.native.associations ownership .suffixStage
  if ¬ ((∀ n ∈ auxiliary.keys, n ∈ front ++ back) ∧ ∀ n ∈ front ++ back, n ∈ auxiliary.keys) then
    .error (.runtimeError "Native suffix output is missing executed BN statistics")
  else if s.native.supportsAuxiliary = false then
    .error (.typeError "Model does not enable the auxiliary statistics protocol")
  else
    match applyStatistics with
    | some e => .error e
    | none => .ok prefixStatistics

/-- The whole of `auxiliary is not None` and its block. -/
def afterRun (d : Delivery ρ) (auxiliary : Option (Dict String ρ)) :
    Except PyError (Option (List (String × ρ))) :=
  match auxiliary with
  | none => .ok none
  | some statistics => (s.auxiliaryStatistics d.applyStatistics statistics).map some

/-- The part of an iteration after `_complete_step`. -/
def respond (d : Delivery ρ) (examples : ℤ) (measurements : Dict String ℚ)
    (prefixStatistics : Option (List (String × ρ))) :
    AutoSplitTailServerModel × Except PyError (Response ρ) :=
  match measurements.get? "server_total_ms", d.loss with
  | none, _ => (s, .error (.runtimeError "Split suffix runtime did not report server_total_ms"))
  | some _, .error e => (s, .error e)
  | some total, .ok loss =>
    ({ s with numExamples := s.numExamples + examples, lossTotal := s.lossTotal + loss * examples },
      match d.encodeGradients, prefixStatistics.bind (fun _ ↦ d.encodeStatistics) with
      | some e, _ => .error e
      | none, some e => .error e
      | none, none => .ok ⟨prefixStatistics, loss, examples, total,
          measurements.get? "server_forward_ms", measurements.get? "server_loss_ms",
          measurements.get? "server_backward_ms", s.sid⟩)

/-- The block under `try`, the handler and the rest of the iteration. -/
def runStep (d : Delivery ρ) (key : StepKey) (examples : ℤ) :
    AutoSplitTailServerModel × Except PyError (Response ρ) :=
  match d.run with
  | .raisedBeforeStep e => (s.abortStep key, .error e)
  | .raisedAfterStep e => ((s.applyUpdate key).abortStep key, .error e)
  | .returned auxiliary measurements =>
    match (s.applyUpdate key).afterRun d auxiliary with
    | .error e => ((s.applyUpdate key).abortStep key, .error e)
    | .ok prefixStatistics =>
      ((s.applyUpdate key).completeStep key).respond d examples measurements prefixStatistics

/-- What an iteration reads of its batch before `_begin_step`. -/
def readBatch (d : Delivery ρ) : Except PyError (StepKey × ℤ) := do
  let boundary ← d.boundary
  s.validateWireIdentity boundary
  d.payload.elim (.ok ()) .error
  d.targets.elim (.ok ()) .error
  let examples ← d.numExamples
  return (boundary.stepKey, examples)

/-- One iteration of `train_tail`. -/
def trainBatch (d : Delivery ρ) : AutoSplitTailServerModel × Except PyError (Response ρ) :=
  match s.readBatch d with
  | .error e => (s, .error e)
  | .ok (key, examples) =>
    match s.beginStep key with
    | .error e => (s, .error e)
    | .ok begun => begun.runStep d key examples

/-- The loop of `train_tail`: the first exception ends it. -/
def trainBatches (s : AutoSplitTailServerModel) :
    List (Delivery ρ) → AutoSplitTailServerModel × Except PyError (List (Response ρ))
  | [] => (s, .ok [])
  | d :: batches =>
    match s.trainBatch d with
    | (s', .error e) => (s', .error e)
    | (s', .ok response) =>
      match trainBatches s' batches with
      | (s'', .error e) => (s'', .error e)
      | (s'', .ok responses) => (s'', .ok (response :: responses))

def trainTail (batches : List (Delivery ρ)) :
    AutoSplitTailServerModel × Except PyError (List (Response ρ)) :=
  if s.native.prepared = false then
    (s, .error (.runtimeError "AutoSplitTailServerModel has not been configured."))
  else s.trainBatches batches

end AutoSplitTailServerModel

end SplitFleet.TailServer
