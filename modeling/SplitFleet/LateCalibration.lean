import Mathlib.Data.Rat.Init
import SplitFleet.Feasibility
import SplitFleet.Lib.Bytes
import SplitFleet.Lib.FirstMin
import SplitFleet.Lib.Json
import SplitFleet.Lib.Method

set_option autoImplicit false

namespace SplitFleet.LateCalibration

open Lib Feasibility

/-- A value that a client and the coordinator can send each other. -/
inductive Scalar
  | bool (b : Bool)
  | int (z : ℤ)
  | float (x : Float.Model)
  | str (s : String)
  | bytes (b : Bytes)
  deriving DecidableEq

def Scalar.truthy : Scalar → Bool
  | .bool b => b
  | .int z => z ≠ 0
  | .float x => !(x == Float.Model.ofInt 0)
  | .str s => s ≠ ""
  | .bytes b => b ≠ []

abbrev Properties := Dict String Scalar

/-- `json.loads`, `json.dumps` of a list of texts, `str` and `float` of a value, and `int` of a property. -/
structure Builtins where
  loads : String → Except PyError Json
  dumps : List String → String
  str : Json → String
  float : Json → Except PyError Float.Model
  int : Scalar → Except PyError ℤ

/-- A property call on one client: those of the binding, and the echoes by their number. -/
inductive Call
  | properties
  | propertiesAgain
  | echo (n : ℕ)

/-- A late client, with what its calls answer or raise and how long its echoes take. -/
structure Client where
  cid : Cid
  properties : Properties
  getProperties : Call → Properties → Except PyError Properties
  elapsedMs : ℕ → ℚ

/-- `{"logical_client_id": logical, **row}` -/
abbrev ClientSample := Dict String (Scalar ⊕ Json)

structure LinkSample where
  logicalClientId : Scalar
  payloadBytes : ℕ
  repetition : ℕ
  roundtripMs : ℚ
  echoVerified : Bool

structure ExchangeSample where
  logicalClientId : Scalar
  requestBytes : ℕ
  replyBytes : ℕ
  repetition : ℕ
  roundtripMs : ℚ
  replyVerified : Bool

structure TransportBootstrap where
  samples : Option (List LinkSample)
  warmupSamples : Option (List LinkSample)

/-- The entries of the receipt that a late client changes. `none` is an entry that is not there. -/
structure Receipt where
  clientSamples : Option (List ClientSample)
  clientCalibrationElapsedSec : Option (Dict Scalar Json)
  transportBootstrap : Option TransportBootstrap
  stateExchangeBootstrap : Option (Option (List ExchangeSample))
  parameterHandshake : Option (Dict String ℤ)
  latestCalibrationModelHash : Option String
  timing : Option (Dict String ℚ)

structure CalibratedTelemetry where
  clients : Dict Cid Properties
  receipt : Option Receipt
  parameters : Option Bytes
  calibrationModelHash : String

/-- What the calibration request takes from the candidate provider. -/
structure Provider where
  mode : String
  /-- `json.dumps` of it -/
  dynamicBatch : Option String
  traceBatchMode : Option String

/-! ### The request -/

/-- Four structural anchors. -/
def calibrationBoundaries (candidates : List SplitCandidateDescriptor) : Except PyError (List String) :=
  if candidates = [] then .error (.valueError "Calibration requires an admitted training catalog")
  else
    let anchors := [0, 1 / 4, 3 / 4, 1].filterMap fun fraction : ℚ ↦
      let key (c : SplitCandidateDescriptor) : ℚ ×ₗ String := toLex (|c.graphPositionRatio - fraction|, c.boundary)
      firstMin (fun a b ↦ decide (key a < key b)) candidates
    .ok (Dict.ofList (anchors.map fun c ↦ (c.boundary, ()))).keys

def parametersKey : String := "splitfleet_calibration_parameters"

def modelHashKey : String := "splitfleet_calibration_model_hash"

def handshakeKey : String := "splitfleet_calibration_hash_handshake"

def parametersRequiredKey : String := "splitfleet_calibration_parameters_required"

variable (B : Builtins)

def calibrationConfig (provider : Provider) (parameters : Bytes) (modelHash : String)
    (catalog : Dict String SplitCandidateDescriptor) : Except PyError Properties := do
  let boundaries ← calibrationBoundaries catalog.values
  return .ofList ([("splitfleet_calibration_boundaries", .str (B.dumps boundaries)),
    (parametersKey, .bytes parameters), (modelHashKey, .str modelHash), ("autosplit_mode", .str provider.mode)] ++
    (provider.dynamicBatch.map fun text ↦ ("autosplit_dynamic_batch", .str text)).toList ++
    ((provider.traceBatchMode.filter (· ≠ "")).map fun mode ↦ ("autosplit_trace_batch_mode", .str mode)).toList)

/-! ### Properties -/

def transferKeys : List String :=
  ["requests", "hash_matched_clients", "fallback_clients", "parameter_payload_bytes",
    "avoided_parameter_payload_bytes"]

/-- `int(c)` of a truth value. -/
def one (c : Bool) : ℤ := if c then 1 else 0

def payloadLength : Option Scalar → ℤ
  | some (.bytes b) => b.length
  | some (.str s) => s.length
  | _ => 0

/-- The second request of a client that asks for the parameters. -/
def requestParameters (handshake : Bool) (config : Properties) (client : Client) : Except PyError Properties := do
  require handshake (.valueError "Client requested calibration parameters after receiving the full payload")
  let props ← client.getProperties .propertiesAgain config
  require (((props.get? parametersRequiredKey).map Scalar.truthy).getD false = false)
    (.valueError "Client still requires calibration parameters after the full payload")
  return props

/-- `fetch`, with the properties of the clients that are known. -/
def fetch (config : Properties) (known : Dict Cid Properties) (client : Client) :
    Except PyError (Cid × Properties × Dict String ℤ) := do
  let payload := config.get? parametersKey
  -- The capabilities of the client itself go first.
  let capability := (client.properties.get? handshakeKey).or ((known.get? client.cid).bind (·.get? handshakeKey))
  let handshake : Bool := payload.isSome && (config.get? modelHashKey).isSome && capability == some (.bool true)
  let first ← client.getProperties .properties (if handshake then config.erase parametersKey else config)
  let fallback : Bool := first.get? parametersRequiredKey == some (.bool true)
  let props ← (if fallback then requestParameters handshake config client else .ok first)
  require (((props.get? "logical_client_id").map Scalar.truthy).getD false = true)
    (.valueError "Online placement requires a physical worker identity")
  ["num_batches", "batch_size"].forM fun field ↦ do
    let count ← B.int ((props.get? field).getD (.int 0))
    require (1 ≤ count) (.valueError ("Online placement requires positive " ++ field))
  return (client.cid, props, .ofList [("requests", 1 + one fallback),
    ("hash_matched_clients", one (handshake && !fallback)), ("fallback_clients", one fallback),
    ("parameter_payload_bytes", if payload.isSome && (!handshake || fallback) then payloadLength payload else 0),
    ("avoided_parameter_payload_bytes", if handshake && !fallback then payloadLength payload else 0)])

/-- `_bind_properties` with a request and `refresh=True`. -/
def bindProperties (config : Properties) (clients : List Client) :
    Method CalibratedTelemetry (Option (Dict String ℤ)) := do
  if clients = [] then return none
  let known := (← get).clients
  let results ← liftM (clients.mapM (fetch B config known))
  modify fun s ↦ { s with clients := results.foldl (fun d r ↦ d.insert r.1 r.2.1) s.clients }
  return some (.ofList (transferKeys.map fun key ↦ (key, (results.map fun r ↦ (r.2.2.get? key).getD 0).sum)))

/-! ### The receipt of a client -/

/-- `j == n`: a truth value is 0 or 1, and a float can be a whole number. -/
def equalsInt (n : ℤ) : Option Json → Bool
  | some (.int z) => z = n
  | some (.bool b) => one b = n
  | some (.float bits) => Float.Model.ofBits (.ofBitVec bits) == Float.Model.ofInt n
  | _ => false

def equalsStr (s : String) : Option Json → Bool
  | some (.str t) => t = s
  | _ => false

/-- `receipt.get` on what is not a dictionary. -/
def noGet : PyError := .raised "AttributeError" "object has no attribute 'get'"

def fieldsOf : Json → Except PyError (Dict String Json)
  | .obj fields => .ok (.ofList fields)
  | _ => .error noGet

/-- `row.get("boundary")`, which goes into a set. -/
def rowBoundary (row : Json) : Except PyError (Option Json) := do
  let fields ← fieldsOf row
  match fields.get? "boundary" with
  | some (.arr _) => throw (.typeError "unhashable type: 'list'")
  | some (.obj _) => throw (.typeError "unhashable type: 'dict'")
  | b => return b

def isTrue : Option Json → Bool
  | some (.bool b) => b
  | _ => false

/-- `float(j)`, which has to be finite and not negative. -/
def checkFloat (message : String) (j : Json) : Except PyError Unit := do
  let x ← B.float j
  require (x.isFinite = true ∧ ¬x < Float.Model.ofInt 0) (.valueError message)

/-- A cost, which may be missing or `None`. -/
def checkCost (message : String) : Option Json → Except PyError Unit
  | none | some .null => .error (.valueError message)
  | some j => checkFloat B message j

/-- The steps of the optimizer at one anchor. -/
def expectedSteps (c : SplitCandidateDescriptor) : ℤ := if c.optimizerPrefixParameterBytes = some (some 0) then 0 else 2

def checkRecord (catalog : Dict String SplitCandidateDescriptor) (row : Json) : Except PyError Unit := do
  let fields ← fieldsOf row
  match fields.get? "boundary" with
  | some (.str boundary) =>
    match catalog.get? boundary with
    | none => throw (.keyError boundary)
    | some candidate =>
      require (equalsStr candidate.graphSignature (fields.get? "graph_signature") ∧
        equalsStr candidate.featureAbiId (fields.get? "feature_abi_id") ∧
        equalsInt 1 (fields.get? "measured_batches") ∧
        equalsInt (expectedSteps candidate) (fields.get? "optimizer_steps") ∧
        equalsStr "prefix" (fields.get? "optimizer_stage"))
        (.valueError "Calibration sample scope mismatch")
      ["client_forward_ms", "client_backward_ms"].forM fun name ↦
        checkCost B "Calibration costs must be finite and nonnegative" (fields.get? name)
  | _ => throw (.keyError "boundary")

/-- `str(j).split(":", 1)[0]` -/
def deviceType (j : Json) : String := String.ofList ((B.str j).toList.takeWhile (· ≠ ':'))

def checkDevice (props : Properties) (device : Json) : Except PyError Unit :=
  match props.get? "device_type" with
  | none => .error (.keyError "device_type")
  | some expected =>
    require (expected = .str (deviceType B device))
      (.valueError "Calibration device differs from the worker execution profile")

/-- The records are those of the anchors, one for each. -/
def checkAnchors (expected : List String) (records : List Json) : Except PyError Unit := do
  require (records.length = expected.length) (.valueError "Calibration anchors differ from the canonical catalog")
  let boundaries ← records.mapM rowBoundary
  require ((∀ b ∈ boundaries, ∃ s ∈ expected, equalsStr s b = true) ∧
    ∀ s ∈ expected, ∃ b ∈ boundaries, equalsStr s b = true)
    (.valueError "Calibration anchors differ from the canonical catalog")

def listOf (j : Option Json) : Except PyError (List Json) :=
  match j with
  | some (.arr items) => .ok items
  | _ => .error (.valueError "Calibration anchors differ from the canonical catalog")

/-- `_validate_late_client_receipt`, with the properties of the client. -/
def validateLateClientReceipt (modelHash : String) (props : Properties) (receipt : Json)
    (catalog : Dict String SplitCandidateDescriptor) : Except PyError (List Json) := do
  let expected ← calibrationBoundaries catalog.values
  let fields ← fieldsOf receipt
  require (equalsStr "splitfleet.training-calibration" (fields.get? "schema"))
    (.valueError "Calibration must come from the current deployment")
  require (equalsStr "client_private_sample_current_deployment" (fields.get? "source"))
    (.valueError "Calibration must come from the current deployment")
  checkDevice B props ((fields.get? "device").getD (.str ""))
  require (equalsStr modelHash (fields.get? "model_hash_before") ∧
    equalsStr modelHash (fields.get? "model_hash_after") ∧
    isTrue (fields.get? "state_and_torch_rng_preserved") ∧
    equalsInt 0 (fields.get? "persistent_optimizer_steps"))
    (.valueError "Calibration state does not match the current global model")
  checkFloat B "Calibration duration must be finite and nonnegative"
    ((fields.get? "elapsed_sec").getD (.int (-1)))
  let records ← listOf (fields.get? "records")
  checkAnchors expected records
  records.forM (checkRecord B catalog)
  return records

/-- `self.clients[cid]` -/
def knownProperties (clients : Dict Cid Properties) (cid : Cid) : Except PyError Properties :=
  match clients.get? cid with
  | some props => .ok props
  | none => .error (.keyError cid)

/-- `self.clients[cid]["logical_client_id"]` -/
def logicalClientId (props : Properties) : Except PyError Scalar :=
  match props.get? "logical_client_id" with
  | some logical => .ok logical
  | none => .error (.keyError "logical_client_id")

def clientSample (logical : Scalar) (row : Json) : Except PyError ClientSample :=
  match row with
  | .obj fields =>
    .ok (.ofList (("logical_client_id", .inl logical) :: (Dict.ofList fields).entries.map fun p ↦ (p.1, .inr p.2)))
  | _ => .error (.typeError "object is not a mapping")

def onlineReceipt (cid : Cid) (props : Properties) : Except PyError Json :=
  match props.get? "online_calibration_receipt" with
  | none => .error (.valueError ("Client " ++ pyRepr cid ++ " did not return calibration anchors"))
  | some (.str text) => B.loads text
  | some _ => .error noGet

/-- The samples of one client, with its logical id and the duration of its calibration. -/
def clientSamples (s : CalibratedTelemetry) (catalog : Dict String SplitCandidateDescriptor) (client : Client) :
    Except PyError (List ClientSample × Scalar × Json) := do
  let props ← knownProperties s.clients client.cid
  let receipt ← onlineReceipt B client.cid props
  let records ← validateLateClientReceipt B s.calibrationModelHash props receipt catalog
  let logical ← logicalClientId props
  let samples ← records.mapM (clientSample logical)
  let fields ← fieldsOf receipt
  match fields.get? "elapsed_sec" with
  | some elapsed => return (samples, logical, elapsed)
  | none => throw (.keyError "elapsed_sec")

/-! ### Probes -/

def zeros (size : ℕ) : Bytes := List.replicate size 0

/-- `measure_transport_echo`, as the `n`-th echo of the client. -/
def measureTransportEcho (client : Client) (n size : ℕ) (replySize : Option ℕ) : Except PyError ℚ := do
  let config : Properties := .ofList (("splitfleet_probe_payload", .bytes (zeros size)) ::
    (replySize.map fun reply ↦ ("splitfleet_probe_reply_bytes", Scalar.int reply)).toList)
  let props ← client.getProperties (.echo n) config
  require (props.get? "splitfleet_probe_payload" = some (.bytes (zeros (replySize.getD size))) ∧ 0 < client.elapsedMs n)
    (.valueError "Current-deployment transport probe failed")
  return client.elapsedMs n

/-- The payloads of the warm-up and of the samples, each with the number of its repetition. -/
def warmupPlan : List (ℕ × ℕ) := [(65536, 0), (65536, 1)]

def transportPlan : List (ℕ × ℕ) := [(65536, 0), (65536, 1), (2097152, 0), (2097152, 1)]

/-- The sizes of the request and of the reply, and the number of the repetition. -/
def exchangePlan : List (ℕ × ℕ × ℕ) :=
  [(65536, 65536, 0), (65536, 65536, 1), (2097152, 65536, 0), (2097152, 65536, 1), (65536, 2097152, 0),
    (65536, 2097152, 1)]

def linkProbe (client : Client) (logical : Scalar) (p : (ℕ × ℕ) × ℕ) : Except PyError LinkSample := do
  let elapsed ← measureTransportEcho client p.2 p.1.1 none
  return ⟨logical, p.1.1, p.1.2, elapsed, true⟩

def exchangeProbe (client : Client) (logical : Scalar) (p : (ℕ × ℕ × ℕ) × ℕ) : Except PyError ExchangeSample := do
  let elapsed ← measureTransportEcho client p.2 p.1.1 (some p.1.2.1)
  return ⟨logical, p.1.1, p.1.2.1, p.1.2.2, elapsed, true⟩

/-- What the probes of one client give. -/
structure Probes where
  transport : List LinkSample
  warmup : List LinkSample
  exchange : List ExchangeSample

def probeClient (known : Dict Cid Properties) (client : Client) : Except PyError Probes := do
  let props ← knownProperties known client.cid
  let logical ← logicalClientId props
  let warmup ← (warmupPlan.zipIdx 0).mapM (linkProbe client logical)
  let transport ← (transportPlan.zipIdx 2).mapM (linkProbe client logical)
  let exchange ← (exchangePlan.zipIdx 6).mapM (exchangeProbe client logical)
  return ⟨transport, warmup, exchange⟩

/-! ### The binding -/

/-- What is measured of the late clients. -/
structure Measured where
  samples : List (List ClientSample × Scalar × Json)
  probes : List Probes
  transfer : Dict String ℤ

namespace Receipt

/-- `handshake[key] = int(handshake.get(key, 0)) + int(transfer.get(key, 0))` -/
def addTransfer (handshake transfer : Dict String ℤ) : Dict String ℤ :=
  transferKeys.foldl (fun d key ↦ d.insert key ((d.get? key).getD 0 + (transfer.get? key).getD 0)) handshake

/-- The receipt with what was measured. `setdefault` makes an entry that is not there. -/
def extend (r : Receipt) (m : Measured) (modelHash : String) (seconds : ℚ) : Receipt :=
  let bootstrap := r.transportBootstrap.getD ⟨none, none⟩
  { clientSamples := some (r.clientSamples.getD [] ++ m.samples.flatMap (·.1))
    clientCalibrationElapsedSec := some (m.samples.foldl (fun d p ↦ d.insert p.2.1 p.2.2)
      (r.clientCalibrationElapsedSec.getD .empty))
    transportBootstrap := some {
      samples := some (bootstrap.samples.getD [] ++ m.probes.flatMap (·.transport))
      warmupSamples := some (bootstrap.warmupSamples.getD [] ++ m.probes.flatMap (·.warmup)) }
    stateExchangeBootstrap := some (some (r.stateExchangeBootstrap.join.getD [] ++ m.probes.flatMap (·.exchange)))
    parameterHandshake := some (addTransfer (r.parameterHandshake.getD .empty) m.transfer)
    latestCalibrationModelHash := some modelHash
    timing := some ((r.timing.getD .empty).insert "late_client_calibration_sec" seconds) }

end Receipt

/-- The body of the `try`. -/
def measureLateClients (catalog : Dict String SplitCandidateDescriptor) (config : Properties) (clients : List Client)
    (seconds : ℚ) : Method CalibratedTelemetry Unit := do
  let transfer ← bindProperties B config clients
  let s ← get
  let samples ← liftM (clients.mapM (clientSamples B s catalog))
  let probes ← liftM (clients.mapM (probeClient s.clients))
  match s.receipt with
  | none => throw (.raised "AttributeError" "'NoneType' object has no attribute 'setdefault'")
  | some receipt =>
    set { s with
      receipt := some (receipt.extend ⟨samples, probes, transfer.getD .empty⟩ s.calibrationModelHash seconds) }

/-- `try: call` with an `except BaseException` that undoes something and raises again. -/
def undoing {σ α : Type} (undo : σ → σ) (call : Method σ α) : Method σ α := fun s ↦
  match call s with
  | .ok a t => .ok a t
  | .error e t => .error e (undo t)

/-- The properties of the late clients before the call. -/
def previousProperties (known : Dict Cid Properties) (clients : List Client) : Dict Cid (Option Properties) :=
  .ofList (clients.map fun c ↦ (c.cid, known.get? c.cid))

/-- The handler of the `try`. -/
def restore (previous : Dict Cid (Option Properties)) (s : CalibratedTelemetry) : CalibratedTelemetry :=
  { s with
    clients := previous.entries.foldl (fun d p ↦
      match p.2 with
      | none => d.erase p.1
      | some props => d.insert p.1 props) s.clients }

def bindLateClients (provider : Provider) (catalog : Dict String SplitCandidateDescriptor) (clients : List Client)
    (seconds : ℚ) : Method CalibratedTelemetry Unit := do
  let s ← get
  match s.parameters with
  | none => throw (.valueError "Greedy needs the current global parameters to calibrate a new client")
  | some parameters =>
    let config ← liftM (calibrationConfig B provider parameters s.calibrationModelHash catalog)
    undoing (restore (previousProperties s.clients clients)) (measureLateClients B catalog config clients seconds)
    modify fun t ↦ { t with parameters := none }

end SplitFleet.LateCalibration
