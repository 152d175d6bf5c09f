import SplitFleet.Feasibility

set_option autoImplicit false

namespace SplitFleet.Feedback

open Lib Feasibility

/-- `_MEASUREMENTS`. -/
inductive Measurement
  | clientForwardMs | clientBackwardMs | networkUploadMs | networkDownloadMs | networkRoundtripMs
  | stateExchangeMs | serverServiceMs | switchMs | completionMs | clientPeakMemoryMb
  | serverPeakMemoryMb | transportUploadBytes | transportDownloadBytes
  | transportRequestOverheadBytes | transportResponseOverheadBytes
  deriving DecidableEq

def measurements : List Measurement :=
  [.clientForwardMs, .clientBackwardMs, .networkUploadMs, .networkDownloadMs, .networkRoundtripMs,
    .stateExchangeMs, .serverServiceMs, .switchMs, .completionMs, .clientPeakMemoryMb,
    .serverPeakMemoryMb, .transportUploadBytes, .transportDownloadBytes,
    .transportRequestOverheadBytes, .transportResponseOverheadBytes]

/-- A float that was reported: a number, or a NaN or an infinity. -/
inductive Reading
  | finite (value : ℚ)
  | notFinite

structure ExecutionProfileKey where
  frameworkBackend : String
  runtimeBackend : String
  deviceType : String
  accelerator : String
  precision : String

/-- An execution profile as it is reported. The values of a mapping are the texts that `str` makes of them. -/
inductive ProfileValue
  | key (profile : ExecutionProfileKey)
  | text (value : String)
  | mapping (fields : Dict String String)

/-- A round-level observation: `ν` is what a measurement can be, a reading in what clients report
and a number in what the aggregation returns. -/
structure PlacementFeedback (ν : Type) where
  roundId : ℤ
  clientId : Cid
  boundary : String
  measured : Measurement → Option ν
  numExamples : ℤ
  numBatches : ℤ
  executionProfile : Option ProfileValue
  success : Bool
  serverLoad : Option (Dict String ν)
  completionScope : Option String

/-- `str(value).strip().lower()`, which has to leave something. -/
def profileField (normalize : String → String) (name value : String) : Except PyError String :=
  if normalize value = "" then .error (.valueError ("ExecutionProfileKey." ++ name ++ " must not be empty"))
  else .ok (normalize value)

namespace ExecutionProfileKey

/-- The constructor, with `__post_init__`. -/
def make (normalize : String → String) (framework runtime device accelerator precision : String) :
    Except PyError ExecutionProfileKey := do
  let framework ← profileField normalize "framework_backend" framework
  let runtime ← profileField normalize "runtime_backend" runtime
  let device ← profileField normalize "device_type" device
  let accelerator ← profileField normalize "accelerator" accelerator
  let precision ← profileField normalize "precision" precision
  return ⟨framework, runtime, device, accelerator, precision⟩

def stableId (k : ExecutionProfileKey) : String :=
  "|".intercalate [k.frameworkBackend, k.runtimeBackend, k.deviceType, k.accelerator, k.precision]

def fromValue (normalize : String → String) : ProfileValue → Except PyError ExecutionProfileKey
  | .key profile => .ok profile
  | .text value =>
    match value.splitOn "|" with
    | [framework, runtime, device, accelerator, precision] =>
      make normalize framework runtime device accelerator precision
    | _ => .error (.valueError "Execution profile strings must contain five pipe-separated fields")
  | .mapping fields =>
    make normalize ((fields.get? "framework_backend").getD "unknown")
      ((fields.get? "runtime_backend").getD "unknown") ((fields.get? "device_type").getD "cpu")
      ((fields.get? "accelerator").getD "generic_cpu") ((fields.get? "precision").getD "fp32")

end ExecutionProfileKey

def Reading.finite? : Reading → Option ℚ
  | .finite q => some q
  | .notFinite => none

/-- `np.median` of a list that is not empty. -/
def npMedian (l : List ℚ) : ℚ :=
  let s := sortedBy id l
  if s.length % 2 = 1 then s.getD (s.length / 2) 0
  else (s.getD (s.length / 2 - 1) 0 + s.getD (s.length / 2) 0) / 2

/-- The values that are there and finite. -/
def present (values : List (Option Reading)) : List ℚ := values.filterMap (·.bind Reading.finite?)

def median (values : List (Option Reading)) : Except PyError (Option ℚ) :=
  if present values = [] then .ok none
  else if ∃ v ∈ present values, v < 0 then
    .error (.valueError "placement timing/memory feedback must be non-negative")
  else .ok (some (npMedian (present values)))

/-- One action of a round: the round, the client and the boundary. -/
abbrev ActionKey := ℤ × Cid × String

def actionKey {ν : Type} (v : PlacementFeedback ν) : ActionKey := (v.roundId, v.clientId, v.boundary)

def keyOrder (k : ActionKey) : ℤ ×ₗ Cid ×ₗ String := toLex (k.1, toLex k.2)

/-- The measurements of the group, and the loads of the server: the names any of them reports, with
the median of each that has one. -/
def medians (values : List (PlacementFeedback Reading)) : Except PyError (List (Measurement × Option ℚ)) :=
  measurements.mapM fun name ↦ (median (values.map (·.measured name))).map (name, ·)

def serverLoadMedians (loads : List (Dict String Reading)) : Except PyError (Option (Dict String ℚ)) :=
  if loads = [] then .ok none
  else do
    let measured ← (loads.flatMap Dict.keys).dedup.mapM fun name ↦
      (median (loads.map (·.get? name))).map (name, ·)
    return some (.ofList (measured.filterMap fun p ↦ p.2.map (p.1, ·)))

def stableIds (normalize : String → String) (values : List (PlacementFeedback Reading)) :
    Except PyError (List String) :=
  (values.filterMap (·.executionProfile)).mapM fun v ↦
    (ExecutionProfileKey.fromValue normalize v).map ExecutionProfileKey.stableId

/-- `completion_scopes`, those of the values that have a completion time. -/
def completionScopes (values : List (PlacementFeedback Reading)) : List (Option String) :=
  ((values.filter fun v ↦ (v.measured .completionMs).isSome).map (·.completionScope)).dedup

/-- The turn of the loop of `aggregate_feedback` for one group. -/
def aggregateGroup (normalize : String → String) (key : ActionKey) (values : List (PlacementFeedback Reading)) :
    Except PyError (PlacementFeedback ℚ) := do
  require ((values.map (·.success)).dedup.length ≤ 1)
    (.valueError "cannot combine successful and failed feedback for one action")
  let profiles ← stableIds normalize values
  require (profiles.dedup.length ≤ 1)
    (.valueError "cannot combine different execution profiles for one action")
  let kwargs ← medians values
  let serverLoad ← serverLoadMedians (values.filterMap (·.serverLoad))
  return {
    roundId := key.1
    clientId := key.2.1
    boundary := key.2.2
    measured := fun name ↦
      if name = .completionMs ∧ 1 < (completionScopes values).length then none
      else (Dict.lookup kwargs name).join
    numExamples := (values.map fun v ↦ max v.numExamples 0).sum
    numBatches := (values.map fun v ↦ max v.numBatches 0).sum
    executionProfile := profiles.head?.map .text
    success := values.all (·.success)
    serverLoad := serverLoad
    completionScope := if (completionScopes values).length = 1 then (completionScopes values).head?.join else none }

/-- The values of one action, in the order they came. -/
def group (feedback : List (PlacementFeedback Reading)) (key : ActionKey) : List (PlacementFeedback Reading) :=
  feedback.filter fun v ↦ actionKey v = key

def groupKeys (feedback : List (PlacementFeedback Reading)) : List ActionKey :=
  sortedBy keyOrder (feedback.map actionKey).dedup

/-- One median observation per client, boundary and round. -/
def aggregateFeedback (normalize : String → String) (feedback : List (PlacementFeedback Reading)) :
    Except PyError (List (PlacementFeedback ℚ)) :=
  (groupKeys feedback).mapM fun key ↦ aggregateGroup normalize key (group feedback key)

end SplitFleet.Feedback
