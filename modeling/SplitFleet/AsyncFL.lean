import SplitFleet.FedCompass

set_option autoImplicit false

namespace SplitFleet.Async

open Lib
open Compass (Assignment Update Timing)

inductive Algorithm
  | fedasync | fedbuff
  deriving DecidableEq

/-- `AsyncFLConfig`, checked. -/
structure AsyncFLConfig where
  algorithm : Algorithm
  localSteps : ℤ
  alpha : ℚ
  stalenessExponent : ℚ
  proximalMu : ℚ
  bufferSize : ℕ
  serverLearningRate : ℚ
  steps_valid : 1 ≤ localSteps
  buffer_valid : 2 ≤ bufferSize
  alpha_valid : 0 < alpha ∧ alpha ≤ 1
  exponent_valid : 0 ≤ stalenessExponent
  mu_valid : 0 ≤ proximalMu
  rate_valid : 0 < serverLearningRate

/-- The operations on tensors. -/
structure AsyncTorch (T : Type) where
  shape : T → List ℕ
  dtype : T → DType
  /-- `is_floating_point() or is_complex()` -/
  inexact : T → Bool
  /-- A float or complex tensor with an entry that is not finite. -/
  nonfinite : T → Bool
  add : T → T → T
  sub : T → T → T
  /-- `w * x` for a Python float `w`. -/
  scale : ℚ → T → T
  /-- `torch.stack(l).mean(dim=0)` -/
  mean : List T → T
  /-- `a ** b` for Python floats. -/
  power : ℚ → ℚ → ℚ

/-- `update_status` of a receipt, with what is written beside it. -/
inductive Status
  | unaggregatedAtStop
  | discardedAtStop
  | aggregated (staleness : ℤ) (weight elapsedSec : ℚ) (modelVersion : ℕ)

structure AggregationRecord (ι : Type) where
  modelVersion : ℕ
  elapsedSec : ℚ
  dispatchIds : List ι
  rule : Algorithm
  bufferSize : ℕ

/-- The controller. A receipt is kept beside it, under its `dispatch_id`, and an update with the id of its receipt.
`ticks` counts the readings of the clock and `serials` the assignments that were made. The source does not keep the
last three entries. -/
structure AsyncFL (ι T : Type) where
  model : Dict String T
  parameterNames : List String
  config : AsyncFLConfig
  partitionSizes : Dict String ℕ
  timing : Timing
  ticks : ℕ
  version : ℕ
  active : Dict String Assignment
  buffer : List (ι × Update T)
  aggregations : List (AggregationRecord ι)
  initialized : Bool
  receivedDispatches : List ι
  receipts : Dict ι Status
  serials : ℕ
  /-- The assignments that were handed out, and those that came back. -/
  issued : List (ℕ × String)
  taken : List ℕ
  /-- Whether a reading of the clock has reached the deadline. -/
  crossed : Bool

variable {ι T : Type}

def AsyncFL.create (model : Dict String T) (parameterNames : List String) (config : AsyncFLConfig) (timing : Timing)
    (partitionSizes : Dict String ℕ) : AsyncFL ι T where
  model := model
  parameterNames := parameterNames
  config := config
  partitionSizes := partitionSizes
  timing := timing
  ticks := 0
  version := 0
  active := .empty
  buffer := []
  aggregations := []
  initialized := false
  receivedDispatches := []
  receipts := .empty
  serials := 0
  issued := []
  taken := []
  crossed := false

/-- `d[key]` -/
def lookup {κ υ : Type} [DecidableEq κ] (d : Dict κ υ) (key : κ) (text : String) : Except PyError υ :=
  match d.get? key with
  | some v => .ok v
  | none => .error (.keyError text)

def checkTensor (ops : AsyncTorch T) (model : Dict String T) (p : String × T) : Except PyError Unit := do
  let expected ← lookup model p.1 p.1
  require (ops.shape p.2 = ops.shape expected ∧ ops.dtype p.2 = ops.dtype expected)
    (.valueError ("Async update shape or dtype differs: " ++ p.1))
  require (ops.nonfinite p.2 = false) (.raised "FloatingPointError" ("Nonfinite asynchronous state: " ++ p.1))

/-- `_check_state` -/
def checkState (ops : AsyncTorch T) (model state : Dict String T) : Except PyError Unit := do
  require ((∀ name ∈ state.keys, name ∈ model.keys) ∧ ∀ name ∈ model.keys, name ∈ state.keys)
    (.valueError "Async update state keys differ")
  state.entries.forM (checkTensor ops model)

/-! ### The clock -/

section Clock

/-- The next reading has reached the deadline. -/
def AsyncFL.late (s : AsyncFL ι T) : Bool :=
  match s.timing with
  | .budget read deadline => deadline ≤ read s.ticks
  | _ => false

def AsyncFL.tick (s : AsyncFL ι T) : AsyncFL ι T := { s with ticks := s.ticks + 1, crossed := s.crossed || s.late }

/-- `self.deadline is not None and self.clock() >= self.deadline` -/
def overDeadline : Method (AsyncFL ι T) Bool := do
  let s ← get
  match s.timing with
  | .budget _ _ =>
    set s.tick
    return s.late
  | _ => return false

/-- The time of a commit, and whether it has reached the deadline. -/
def committed (now : ℚ) : Method (AsyncFL ι T) (ℚ × Bool) := do
  let s ← get
  match s.timing with
  | .events => return (now, false)
  | .clock read =>
    set s.tick
    return (read s.ticks, false)
  | .budget read _ =>
    set s.tick
    return (read s.ticks, s.late)

end Clock

/-! ### A commit -/

section Commit

variable (ops : AsyncTorch T)

/-- `(1 - w) * value + w * trained` -/
def interpolate (w : ℚ) (value trained : T) : T := ops.add (ops.scale (1 - w) value) (ops.scale w trained)

/-- `candidate[name] += weight * (trained - base)` -/
def addDelta (name : String) (value : T) (p : Update T × ℚ) : Except PyError T := do
  let trained ← lookup p.1.trained name name
  let base ← lookup p.1.base name name
  return ops.add value (ops.scale p.2 (ops.sub trained base))

/-- `max(updates, key=lambda u: u.assignment.model_version)` -/
def latest : List (Update T) → Except PyError (Update T)
  | [] => .error (.valueError "max() iterable argument is empty")
  | u :: l => .ok (l.foldl (fun best v ↦
      if best.assignment.modelVersion < v.assignment.modelVersion then v else best) u)

/-- The tensor of a name after the updates, each with its weight. -/
def candidateTensor (s : AsyncFL ι T) (updates : List (Update T × ℚ)) (name : String) (value : T) :
    Except PyError T :=
  if ops.inexact value then
    match s.config.algorithm, updates with
    | .fedasync, [] => .error (.raised "IndexError" "list index out of range")
    | .fedasync, (u, w) :: _ => do
      let trained ← lookup u.trained name name
      return interpolate ops w value trained
    | .fedbuff, updates =>
      if name ∈ s.parameterNames then updates.foldlM (addDelta ops name) value
      else do
        let values ← updates.mapM fun p ↦ lookup p.1.trained name name
        return ops.mean values
  else do
    let chosen ← latest (updates.map Prod.fst)
    lookup chosen.trained name name

def delay (s : AsyncFL ι T) (u : Update T) : ℤ := s.version - u.assignment.modelVersion

def weights (s : AsyncFL ι T) (delays : List ℤ) : Except PyError (List ℚ) :=
  match s.config.algorithm, delays with
  | .fedasync, [] => .error (.raised "IndexError" "list index out of range")
  | .fedasync, delay :: _ => .ok [s.config.alpha * ops.power (1 + delay) (-s.config.stalenessExponent)]
  | .fedbuff, delays => .ok (delays.map fun _ ↦ s.config.serverLearningRate / s.config.bufferSize)

/-- The state that the updates lead to, checked, with their delays and weights. -/
def candidate (s : AsyncFL ι T) (updates : List (Update T)) :
    Except PyError (Dict String T × List ℤ × List ℚ) := do
  let delays := updates.map (delay s)
  require (∀ delay ∈ delays, 0 ≤ delay) (.valueError "A future model version cannot contribute")
  let weights ← weights ops s delays
  let entries ← s.model.entries.mapM fun p ↦ do
    let value ← candidateTensor ops s (updates.zip weights) p.1 p.2
    return (p.1, value)
  let state := Dict.ofList entries
  checkState ops s.model state
  return (state, delays, weights)

def AsyncFL.load (s : AsyncFL ι T) (state : Dict String T) : AsyncFL ι T := { s with model := state }

variable [DecidableEq ι]

/-- The version, the receipts and the record of a commit. -/
def AsyncFL.record (s : AsyncFL ι T) (updates : List (ι × Update T)) (delays : List ℤ) (weights : List ℚ)
    (elapsed : ℚ) : AsyncFL ι T :=
  let version := s.version + 1
  { s with
    version := version
    receipts := (updates.zip (delays.zip weights)).foldl (fun d p ↦
      d.insert p.1.1 (.aggregated p.2.1 p.2.2 elapsed version)) s.receipts
    aggregations := s.aggregations ++ [
      { modelVersion := version
        elapsedSec := elapsed
        dispatchIds := updates.map Prod.fst
        rule := s.config.algorithm
        bufferSize := updates.length }] }

/-- `_commit` -/
def commit (updates : List (ι × Update T)) (now : ℚ) : Method (AsyncFL ι T) Bool := do
  let s ← get
  let current := s.model
  let (state, delays, weights) ← candidate ops s (updates.map Prod.snd)
  if ← overDeadline then return false
  else
    modify (·.load state)
    let (elapsed, late) ← committed now
    if late then
      modify (·.load current)
      return false
    else
      modify (·.record updates delays weights elapsed)
      return true

end Commit

/-! ### The controller -/

section Controller

variable [DecidableEq ι] (ops : AsyncTorch T)

def newJob (s : AsyncFL ι T) (cid : String) (now : ℚ) (offset : ℕ) : Assignment where
  serial := s.serials + offset
  clientId := cid
  localSteps := s.config.localSteps
  modelVersion := s.version
  groupId := none
  started := now

def initialJobs (s : AsyncFL ι T) (now : ℚ) : List Assignment :=
  s.partitionSizes.keys.mapIdx fun i cid ↦ { newJob s cid now i with modelVersion := 0 }

def AsyncFL.begin (s : AsyncFL ι T) (jobs : List Assignment) : AsyncFL ι T :=
  { s with
    initialized := true
    active := .ofList (jobs.map fun job : Assignment ↦ (job.clientId, job))
    serials := s.serials + jobs.length
    issued := s.issued ++ jobs.map fun job : Assignment ↦ (job.serial, job.clientId) }

/-- `initialize` -/
def initializeJobs (now : ℚ) : Method (AsyncFL ι T) (List Assignment) := do
  let s : AsyncFL ι T ← get
  if s.initialized then throw (.runtimeError "Async controller cannot initialize twice")
  else
    let jobs := initialJobs s now
    set (s.begin jobs)
    return jobs

/-- The checks at the head of `receive`. `id` is the `dispatch_id` of the receipt. -/
def validate (s : AsyncFL ι T) (id : Option ι) (u : Update T) : Except PyError ι := do
  require (s.active.get? u.clientId = some u.assignment)
    (.valueError "Async update does not match the active assignment")
  match id with
  | none => throw (.keyError "dispatch_id")
  | some id =>
    require (id ∉ s.receivedDispatches) (.valueError "Async dispatch was received twice")
    checkState ops s.model u.base
    checkState ops s.model u.trained
    return id

/-- The dispatch is received and the client no longer in flight. -/
def AsyncFL.enter (s : AsyncFL ι T) (id : ι) (u : Update T) : AsyncFL ι T :=
  { s with
    receivedDispatches := id :: s.receivedDispatches
    active := s.active.erase u.clientId
    taken := u.serial :: s.taken }

def AsyncFL.setStatus (s : AsyncFL ι T) (id : ι) (status : Status) : AsyncFL ι T :=
  { s with receipts := s.receipts.insert id status }

def AsyncFL.push (s : AsyncFL ι T) (id : ι) (u : Update T) : AsyncFL ι T := { s with buffer := s.buffer ++ [(id, u)] }

def AsyncFL.clear (s : AsyncFL ι T) : AsyncFL ι T := { s with buffer := [] }

/-- An update goes into the model, or into the buffer and with it into the model. -/
def integrate (id : ι) (u : Update T) (now : ℚ) : Method (AsyncFL ι T) Bool := do
  match (← get).config.algorithm with
  | .fedasync =>
    if ← commit ops [(id, u)] now then return true
    else
      modify (·.setStatus id .discardedAtStop)
      return false
  | .fedbuff =>
    modify (·.push id u)
    let s ← get
    if s.buffer.length = s.config.bufferSize then
      if ← commit ops s.buffer now then
        modify (·.clear)
        return true
      else return false
    else return true

def AsyncFL.assign (s : AsyncFL ι T) (job : Assignment) : AsyncFL ι T :=
  { s with
    active := s.active.insert job.clientId job
    serials := s.serials + 1
    issued := s.issued ++ [(job.serial, job.clientId)] }

/-- `receive` after its checks. -/
def accept (id : ι) (u : Update T) (now : ℚ) : Method (AsyncFL ι T) (List Assignment) := do
  modify (·.enter id u)
  if ← overDeadline then return []
  else
    modify (·.setStatus id .unaggregatedAtStop)
    if ← integrate ops id u now then
      let job := newJob (← get) u.clientId now 0
      modify (·.assign job)
      return [job]
    else return []

def receive (id : Option ι) (u : Update T) (now : ℚ) : Method (AsyncFL ι T) (List Assignment) := do
  let id ← validate ops (← get) id u
  accept ops id u now

def stop (s : AsyncFL ι T) : AsyncFL ι T := { s with buffer := [], active := .empty }

/-- `dispatch` of the server: the assignment gets the version and the time of what is sent. -/
def dispatch (s : AsyncFL ι T) (cid : String) (now : ℚ) : AsyncFL ι T :=
  match s.active.get? cid with
  | some job => { s with active := s.active.insert cid { job with modelVersion := s.version, started := now } }
  | none => s

/-- What can happen to the controller. -/
inductive Event (ι T : Type)
  | start (now : ℚ)
  | receive (id : Option ι) (u : Update T) (now : ℚ)
  | dispatch (cid : String) (now : ℚ)
  | retime (timing : Timing)
  | stop

def perform : Event ι T → Method (AsyncFL ι T) (List Assignment)
  | .start now => initializeJobs now
  | .receive id u now => receive ops id u now
  | .dispatch cid now => do
    modify (dispatch · cid now)
    return []
  | .retime timing => do
    modify ({ · with timing := timing })
    return []
  | .stop => do
    modify stop
    return []

end Controller

end SplitFleet.Async
