import Mathlib.Algebra.Order.Floor.Semiring
import Mathlib.Data.Rat.Floor
import Mathlib.Data.String.Basic
import SplitFleet.Lib.FirstMin
import SplitFleet.Lib.Method
import SplitFleet.Lib.Sorting
import SplitFleet.Tensor

set_option autoImplicit false

namespace SplitFleet.Compass

open Lib

structure FedCompassConfig where
  minLocalSteps : ℤ
  maxLocalSteps : ℤ
  speedMomentum : ℚ
  latestTimeFactor : ℚ
  alpha : ℚ
  stalenessExponent : ℚ
  steps_valid : 1 ≤ minLocalSteps ∧ minLocalSteps ≤ maxLocalSteps
  momentum_valid : 0 ≤ speedMomentum ∧ speedMomentum ≤ 1
  alpha_valid : 0 < alpha ∧ alpha ≤ 1
  factor_valid : 1 ≤ latestTimeFactor
  exponent_valid : 0 ≤ stalenessExponent

theorem usual_steps_valid : (1 : ℤ) ≤ 20 ∧ (20 : ℤ) ≤ 100 := by norm_num

theorem usual_momentum_valid : (0 : ℚ) ≤ 9 / 10 ∧ (9 / 10 : ℚ) ≤ 1 := by norm_num

theorem usual_factor_valid : (1 : ℚ) ≤ 6 / 5 := by norm_num

theorem usual_exponent_valid : (0 : ℚ) ≤ 1 := zero_le_one

/-- An assignment. It is an object of its own, told apart from every other one by `serial`. -/
structure Assignment where
  serial : ℕ
  clientId : String
  localSteps : ℤ
  modelVersion : ℕ
  groupId : Option ℕ
  started : ℚ
  deriving DecidableEq

/-- `update_status` of a receipt, with what is written beside it. -/
inductive Status
  | lateBuffer
  | waitingForGroup
  | supersededLateBuffer
  | aggregated (modelVersion : ℕ) (elapsedSec : ℚ) (staleness : ℕ) (weight : ℚ)
  | discardedAtStop
  | unaggregatedAtStop

/-- The receipt of an update is kept beside the controller, under the serial number of its assignment. -/
structure Update (T : Type) where
  assignment : Assignment
  base : Dict String T
  trained : Dict String T

def Update.serial {T : Type} (u : Update T) : ℕ := u.assignment.serial

def Update.clientId {T : Type} (u : Update T) : String := u.assignment.clientId

structure ArrivalGroup (T : Type) where
  expected : ℚ
  deadline : ℚ
  pending : List String
  arrived : List (Update T)
  closed : Bool

structure AggregationRecord where
  modelVersion : ℕ
  elapsedSec : ℚ
  groupId : Option ℕ
  reason : String
  serials : List ℕ
  clients : List String
  staleness : List ℕ
  weights : List ℚ

structure GroupEvent where
  groupId : ℕ
  reason : String
  elapsedSec : ℚ
  missingClients : List String
  expectedArrival : ℚ
  groupDeadline : ℚ
  arrivedClients : List String

/-- The coordinator's clock, by the number of the reading, and the time budget. A budget needs a clock. -/
inductive Timing
  | events
  | clock (read : ℕ → ℚ)
  | budget (read : ℕ → ℚ) (deadline : ℚ)

/-- The operations on tensors. -/
structure Torch (T : Type) where
  shape : T → List ℕ
  dtype : T → DType
  /-- A float or complex tensor with an entry that is not finite. -/
  nonfinite : T → Bool
  sub : T → T → T
  /-- `w * x` for a Python float `w`. -/
  scale : ℚ → T → T
  /-- `x.to(y)` -/
  castTo : T → T → T
  /-- `_weighted_tensor` -/
  average : List (T × ℕ) → T
  /-- `a ** b` for Python floats. -/
  power : ℚ → ℚ → ℚ

/-- What happened to updates. The source keeps no such log. -/
inductive Happening
  | received (serial : ℕ) (clientId : String)
  | superseded (serial later : ℕ)
  | discarded (serials : List ℕ)
  | stopped (serials : List ℕ)
  deriving DecidableEq

/-- The controller, with the receipts of the updates it was given. `ticks` counts the readings of the clock and
`serials` the assignments that were made. -/
structure FedCompass (T : Type) where
  model : Dict String T
  parameterNames : List String
  config : FedCompassConfig
  timing : Timing
  ticks : ℕ
  partitionSizes : Dict String ℕ
  version : ℕ
  speeds : Dict String ℚ
  active : Dict String Assignment
  groups : Dict ℕ (ArrivalGroup T)
  buffer : Dict String (Update T)
  aggregations : List AggregationRecord
  groupEvents : List GroupEvent
  groupCounter : ℕ
  serials : ℕ
  receipts : Dict ℕ Status
  log : List Happening

variable {T : Type}

def FedCompass.create (model : Dict String T) (parameterNames : List String) (config : FedCompassConfig)
    (timing : Timing) (partitionSizes : Dict String ℕ) : FedCompass T where
  model := model
  parameterNames := parameterNames
  config := config
  timing := timing
  ticks := 0
  partitionSizes := partitionSizes
  version := 0
  speeds := Dict.empty
  active := Dict.empty
  groups := Dict.empty
  buffer := Dict.empty
  aggregations := []
  groupEvents := []
  groupCounter := 0
  serials := 0
  receipts := Dict.empty
  log := []

/-- `d[key]` -/
def item {κ υ : Type} [DecidableEq κ] (d : Dict κ υ) (key : κ) (text : String) : Except PyError υ :=
  match d.get? key with
  | some v => .ok v
  | none => .error (.keyError text)

section Tensors

def checkTensor (ops : Torch T) (model : Dict String T) (p : String × T) : Except PyError Unit := do
  let current ← item model p.1 p.1
  require (ops.shape p.2 = ops.shape current ∧ ops.dtype p.2 = ops.dtype current)
    (.valueError ("FedCompass tensor schema mismatch: " ++ p.1))
  require (ops.nonfinite p.2 = false) (.raised "FloatingPointError" ("Nonfinite FedCompass tensor: " ++ p.1))

/-- `_check_state` -/
def checkState (ops : Torch T) (model state : Dict String T) : Except PyError Unit := do
  require ((∀ name ∈ state.keys, name ∈ model.keys) ∧ ∀ name ∈ model.keys, name ∈ state.keys)
    (.valueError "FedCompass update does not match the model schema")
  state.entries.forM (checkTensor ops model)

def totalSize (sizes : Dict String ℕ) : ℕ := sizes.values.sum

/-- `self.weights[cid]` -/
def weight (sizes : Dict String ℕ) (cid : String) : Except PyError ℚ := do
  let n ← item sizes cid cid
  return n / totalSize sizes

/-- One parameter after the delta of an update. -/
def applyDelta (ops : Torch T) (u : Update T) (scale : ℚ) (state : Dict String T) (name : String) :
    Except PyError (Dict String T) := do
  let value ← item state name name
  let base ← item u.base name name
  let trained ← item u.trained name name
  return state.insert name (ops.sub value (ops.scale scale (ops.castTo (ops.sub base trained) value)))

/-- One turn of the loop over the updates: the state, the weights and the delays so far. -/
def mergeUpdate (ops : Torch T) (s : FedCompass T) (acc : Dict String T × List ℚ × List ℕ) (u : Update T) :
    Except PyError (Dict String T × List ℚ × List ℕ) := do
  require (u.assignment.modelVersion ≤ s.version) (.valueError "FedCompass update has a future model version")
  let delay := s.version - u.assignment.modelVersion
  let w ← weight s.partitionSizes u.clientId
  let scale := s.config.alpha * w * ops.power (1 + delay) (-s.config.stalenessExponent)
  let state ← s.parameterNames.foldlM (applyDelta ops u scale) acc.1
  return (state, acc.2.1 ++ [scale], acc.2.2 ++ [delay])

/-- `aggregate_named_states` for one buffer of the model. -/
def averageBuffer (ops : Torch T) (s : FedCompass T) (updates : List (Update T)) (name : String) :
    Except PyError (String × T) := do
  let values ← updates.mapM fun u ↦ do
    let value ← item u.trained name name
    let size ← item s.partitionSizes u.clientId u.clientId
    return (value, size)
  return (name, ops.average values)

/-- The first part of `_aggregate`: the merged state, checked, with the weights and the delays. -/
def merge (ops : Torch T) (s : FedCompass T) (updates : List (Update T)) :
    Except PyError (Dict String T × List ℚ × List ℕ) := do
  let averaged ← (s.model.keys.filter (· ∉ s.parameterNames)).mapM (averageBuffer ops s updates)
  let (state, weights, stale) ← updates.foldlM (mergeUpdate ops s) (s.model, [], [])
  let state := averaged.foldl (fun d p ↦ d.insert p.1 p.2) state
  checkState ops s.model state
  return (state, weights, stale)

end Tensors

section Receipts

def FedCompass.setStatus (s : FedCompass T) (serial : ℕ) (status : Status) : FedCompass T :=
  { s with receipts := s.receipts.insert serial status }

def FedCompass.setStatuses (s : FedCompass T) (l : List (ℕ × Status)) : FedCompass T :=
  { s with receipts := l.foldl (fun d p ↦ d.insert p.1 p.2) s.receipts }

def FedCompass.note (s : FedCompass T) (h : Happening) : FedCompass T := { s with log := s.log ++ [h] }

/-- An update takes the place of an older one of its client, where there is one. -/
def supersede (s : FedCompass T) (u : Update T) (previous : Option (Update T)) : FedCompass T :=
  match previous with
  | some old => (s.setStatus old.serial .supersededLateBuffer).note (.superseded old.serial u.serial)
  | none => s

end Receipts

section Assign

def speedOf (s : FedCompass T) (cid : String) : Except PyError ℚ := item s.speeds cid cid

/-- The open groups that the client can reach, with the steps it takes. -/
def candidates (s : FedCompass T) (speed now : ℚ) : List (ℤ × ℕ) := s.groups.entries.filterMap fun p ↦
  if p.2.closed then none
  else if s.config.minLocalSteps ≤ ⌊(p.2.expected - now) / speed⌋ ∧
      ⌊(p.2.expected - now) / speed⌋ ≤ s.config.maxLocalSteps then
    some (⌊(p.2.expected - now) / speed⌋, p.1)
  else none

/-- `group.pending | {u.assignment.client_id for u in group.arrived}` -/
def ArrivalGroup.members (g : ArrivalGroup T) : List String := g.pending ++ g.arrived.map (·.clientId)

/-- `min(values)` -/
def minimum : List ℚ → Except PyError ℚ
  | [] => .error (.valueError "min() iterable argument is empty")
  | a :: l => .ok (l.foldl min a)

/-- The steps that take the client to the next arrival of the group's fastest member. -/
def alignedSteps (s : FedCompass T) (speed now : ℚ) (g : ArrivalGroup T) : Except PyError ℤ := do
  let speeds ← g.members.mapM (speedOf s)
  let fastest ← minimum speeds
  return ⌊(g.deadline + fastest * s.config.maxLocalSteps - now) / speed⌋

def options (s : FedCompass T) (speed now : ℚ) : Except PyError (List ℤ) := do
  let steps ← (s.groups.values.filter fun g ↦ !g.closed ∧ now < g.deadline).mapM (alignedSteps s speed now)
  return steps.filter (· ≤ s.config.maxLocalSteps)

/-- `max(low, max(options)) if options else high` -/
def fallbackSteps (config : FedCompassConfig) : List ℤ → ℤ
  | [] => config.maxLocalSteps
  | a :: l => max config.minLocalSteps (l.foldl max a)

/-- The steps of the next assignment, and the group it joins where there is one. -/
def choose (s : FedCompass T) (cid : String) (now : ℚ) : Except PyError (ℚ × ℤ × Option ℕ) := do
  let speed ← speedOf s cid
  match firstMin (fun a b : ℤ × ℕ ↦ decide (b.1 < a.1)) (candidates s speed now) with
  | some (steps, gid) => return (speed, steps, some gid)
  | none =>
    let options ← options s speed now
    return (speed, fallbackSteps s.config options, none)

def newGroup (s : FedCompass T) (cid : String) (now duration : ℚ) : ArrivalGroup T where
  expected := now + duration
  deadline := now + s.config.latestTimeFactor * duration
  pending := [cid]
  arrived := []
  closed := false

def FedCompass.join (s : FedCompass T) (gid : ℕ) (cid : String) : FedCompass T :=
  match s.groups.get? gid with
  | some g => { s with groups := s.groups.insert gid { g with pending := g.pending.insert cid } }
  | none => s

def FedCompass.openGroup (s : FedCompass T) (cid : String) (now duration : ℚ) : FedCompass T :=
  { s with
    groups := s.groups.insert s.groupCounter (newGroup s cid now duration)
    groupCounter := s.groupCounter + 1 }

def FedCompass.newJob (s : FedCompass T) (cid : String) (steps : ℤ) (gid : Option ℕ) (now : ℚ) : Assignment where
  serial := s.serials
  clientId := cid
  localSteps := steps
  modelVersion := s.version
  groupId := gid
  started := now

def FedCompass.activate (s : FedCompass T) (job : Assignment) : FedCompass T :=
  { s with active := s.active.insert job.clientId job, serials := s.serials + 1 }

/-- `_assign` -/
def assign (cid : String) (now : ℚ) : Method (FedCompass T) Assignment := do
  let s ← get
  let (speed, steps, gid) ← choose s cid now
  match gid with
  | some gid =>
    let job := s.newJob cid steps (some gid) now
    set ((s.join gid cid).activate job)
    return job
  | none =>
    let job := s.newJob cid steps (some s.groupCounter) now
    set ((s.openGroup cid now (steps * speed)).activate job)
    return job

end Assign

section Aggregate

def FedCompass.tick (s : FedCompass T) : FedCompass T := { s with ticks := s.ticks + 1 }

/-- The time of a commit, by the clock where there is one. -/
def committedAt (now : ℚ) : Method (FedCompass T) ℚ := do
  match (← get).timing with
  | .events => return now
  | .clock read | .budget read _ =>
    let time := read (← get).ticks
    modify (·.tick)
    return time

/-- `self.deadline is not None and at >= self.deadline` -/
def Timing.over (timing : Timing) (elapsed : ℚ) : Bool :=
  match timing with
  | .budget _ deadline => deadline ≤ elapsed
  | _ => false

def FedCompass.discard (s : FedCompass T) (updates : List (Update T)) : FedCompass T :=
  (s.setStatuses (updates.map fun u ↦ (u.serial, .discardedAtStop))).note (.discarded (updates.map (·.serial)))

def FedCompass.commit (s : FedCompass T) (updates : List (Update T)) (state : Dict String T) (weights : List ℚ)
    (stale : List ℕ) (elapsed : ℚ) (gid : Option ℕ) (reason : String) : FedCompass T :=
  let version := s.version + 1
  let statuses := (updates.zip (weights.zip stale)).map fun p ↦
    (p.1.serial, Status.aggregated version elapsed p.2.2 p.2.1)
  let t : FedCompass T := { s with
    model := state
    version := version
    aggregations := s.aggregations ++ [
      { modelVersion := version
        elapsedSec := elapsed
        groupId := gid
        reason := reason
        serials := updates.map (·.serial)
        clients := updates.map (·.clientId)
        staleness := stale
        weights := weights }] }
  t.setStatuses statuses

/-- `_aggregate` -/
def aggregate (ops : Torch T) (updates : List (Update T)) (now : ℚ) (gid : Option ℕ) (reason : String) :
    Method (FedCompass T) Bool := do
  let (state, weights, stale) ← merge ops (← get) updates
  let elapsed ← committedAt now
  if (← get).timing.over elapsed then
    modify (·.discard updates)
    return false
  else
    modify (·.commit updates state weights stale elapsed gid reason)
    return true

end Aggregate

section Events

/-- A group takes what arrived and what is buffered, an arrival in place of the buffered update of its client. -/
def absorb (s : FedCompass T) (merged : Dict String (Update T)) : List (Update T) → FedCompass T × Dict String (Update T)
  | [] => (s, merged)
  | u :: arrived => absorb (supersede s u (merged.get? u.clientId)) (merged.insert u.clientId u) arrived

def FedCompass.closeGroup (s : FedCompass T) (gid : ℕ) (g : ArrivalGroup T) (now : ℚ) (reason : String) : FedCompass T :=
  { s with
    groups := s.groups.insert gid { g with closed := true, arrived := [] }
    groupEvents := s.groupEvents ++ [
      { groupId := gid
        reason := reason
        elapsedSec := now
        missingClients := sortedBy id g.pending
        expectedArrival := g.expected
        groupDeadline := g.deadline
        arrivedClients := g.arrived.map (·.clientId) }] }

/-- The arrivals in the order of their speeds, each with its speed. -/
def bySpeed (s : FedCompass T) (arrived : List (Update T)) : Except PyError (List (ℚ × Update T)) := do
  let keyed ← arrived.mapM fun u ↦ do
    let speed ← speedOf s u.clientId
    return (speed, u)
  return sortedBy Prod.fst keyed

/-- The end of `_close`. -/
def release (arrived : List (Update T)) (now : ℚ) : Method (FedCompass T) (List Assignment) := do
  let order ← bySpeed (← get) arrived
  order.mapM fun p ↦ assign p.2.clientId now

/-- The part of `_close` for a group with arrivals. -/
def mergeGroup (ops : Torch T) (gid : ℕ) (arrived : List (Update T)) (now : ℚ) (reason : String) :
    Method (FedCompass T) (List Assignment) := do
  let s ← get
  let (s, merged) := absorb s s.buffer arrived
  set { s with buffer := Dict.empty }
  if ← aggregate ops merged.values now (some gid) reason then release arrived now
  else return []

/-- `_close` -/
def close (ops : Torch T) (gid : ℕ) (now : ℚ) (reason : String) : Method (FedCompass T) (List Assignment) := do
  let group ← item (← get).groups gid (toString gid)
  modify (·.closeGroup gid group now reason)
  if group.arrived.isEmpty then return []
  else mergeGroup ops gid group.arrived now reason

def initialJobs (s : FedCompass T) (now : ℚ) : List Assignment := s.partitionSizes.keys.mapIdx fun i cid ↦
  { serial := s.serials + i
    clientId := cid
    localSteps := s.config.maxLocalSteps
    modelVersion := 0
    groupId := none
    started := now }

def initializeJobs (now : ℚ) : Method (FedCompass T) (List Assignment) := do
  let s : FedCompass T ← get
  if s.active.size ≠ 0 ∨ s.version ≠ 0 then throw (.runtimeError "FedCompass can only initialize once")
  let jobs := initialJobs s now
  set { s with active := Dict.ofList (jobs.map fun job : Assignment ↦ (job.clientId, job)), serials := s.serials + jobs.length }
  return jobs

/-- The checks at the head of `receive`. -/
def validate (ops : Torch T) (s : FedCompass T) (u : Update T) (now : ℚ) : Except PyError Unit := do
  require (s.active.get? u.clientId = some u.assignment ∧ u.assignment.started ≤ now)
    (.valueError "Unexpected, duplicated or invalid FedCompass assignment")
  checkState ops s.model u.base
  checkState ops s.model u.trained

def measured (job : Assignment) (now : ℚ) : ℚ := max (now - job.started) (1 / 10 ^ 9) / job.localSteps

/-- The client is no longer in flight and its speed is up to date. -/
def FedCompass.arrive (s : FedCompass T) (u : Update T) (now : ℚ) : FedCompass T :=
  let old := (s.speeds.get? u.clientId).getD (measured u.assignment now)
  let m := s.config.speedMomentum
  { s with
    active := s.active.erase u.clientId
    speeds := s.speeds.insert u.clientId ((1 - m) * old + m * measured u.assignment now)
    log := s.log ++ [.received u.serial u.clientId] }

/-- An update too late for its group. -/
def FedCompass.bufferLate (s : FedCompass T) (u : Update T) : FedCompass T :=
  let s := (supersede s u (s.buffer.get? u.clientId)).setStatus u.serial .lateBuffer
  { s with buffer := s.buffer.insert u.clientId u }

def late (u : Update T) (now : ℚ) : Method (FedCompass T) (List Assignment) := do
  modify (·.bufferLate u)
  let job ← assign u.clientId now
  return [job]

def FedCompass.leave (s : FedCompass T) (gid : ℕ) (g : ArrivalGroup T) (cid : String) : FedCompass T :=
  { s with groups := s.groups.insert gid { g with pending := g.pending.erase cid } }

/-- An update in time for its group. -/
def FedCompass.wait (s : FedCompass T) (gid : ℕ) (g : ArrivalGroup T) (u : Update T) : FedCompass T :=
  let g := { g with pending := g.pending.erase u.clientId, arrived := g.arrived ++ [u] }
  { s with groups := s.groups.insert gid g }.setStatus u.serial .waitingForGroup

def arriveInGroup (ops : Torch T) (u : Update T) (gid : ℕ) (group : ArrivalGroup T) (now : ℚ) :
    Method (FedCompass T) (List Assignment) := do
  if group.closed ∨ group.deadline < now then
    modify (·.leave gid group u.clientId)
    late u now
  else if u.clientId ∉ group.pending then throw (.keyError u.clientId)
  else
    modify (·.wait gid group u)
    if (group.pending.erase u.clientId).isEmpty then close ops gid now "group_complete" else return []

/-- `receive` after its checks. -/
def accept (ops : Torch T) (u : Update T) (now : ℚ) : Method (FedCompass T) (List Assignment) := do
  modify (·.arrive u now)
  match u.assignment.groupId with
  | none =>
    if ← aggregate ops [u] now none "initial_arrival" then
      let job ← assign u.clientId now
      return [job]
    else return []
  | some gid =>
    match (← get).groups.get? gid with
    | none => late u now
    | some group => arriveInGroup ops u gid group now

def receive (ops : Torch T) (u : Update T) (now : ℚ) : Method (FedCompass T) (List Assignment) := do
  validate ops (← get) u now
  accept ops u now

/-- `self.clock() >= self.deadline`, where there is a deadline. -/
def overBudget : Method (FedCompass T) Bool := do
  match (← get).timing with
  | .budget read deadline =>
    let elapsed := read (← get).ticks
    modify (·.tick)
    return deadline ≤ elapsed
  | _ => return false

def closeDue (ops : Torch T) (gid : ℕ) (now : ℚ) : Method (FedCompass T) (List Assignment) := do
  match (← get).groups.get? gid with
  | some group => if !group.closed ∧ group.deadline ≤ now then close ops gid now "group_deadline" else return []
  | none => return []

def FedCompass.popDone (s : FedCompass T) (gid : ℕ) : FedCompass T :=
  match s.groups.get? gid with
  | some group => if group.closed ∧ group.pending.isEmpty then { s with groups := s.groups.erase gid } else s
  | none => s

/-- The loop of `expire` over the groups that there were at its start. -/
def expireGroups (ops : Torch T) (now : ℚ) (maxVersion : Option ℕ) : List ℕ → Method (FedCompass T) (List Assignment)
  | [] => return []
  | gid :: gids => do
    if ← overBudget then return []
    else if maxVersion.any (· ≤ (← get).version) then return []
    else
      let released ← closeDue ops gid now
      modify (·.popDone gid)
      let rest ← expireGroups ops now maxVersion gids
      return released ++ rest

def expire (ops : Torch T) (now : ℚ) (maxVersion : Option ℕ) : Method (FedCompass T) (List Assignment) := do
  expireGroups ops now maxVersion (← get).groups.keys

def FedCompass.waiting (s : FedCompass T) : List (Update T) := s.groups.values.flatMap (·.arrived)

def stop (s : FedCompass T) : FedCompass T :=
  let updates := s.buffer.values ++ s.waiting
  let s := (s.setStatuses (updates.map fun u ↦ (u.serial, .unaggregatedAtStop))).note
    (.stopped (updates.map (·.serial)))
  { s with buffer := Dict.empty, groups := Dict.empty, active := Dict.empty }

/-- `dispatch` of the server: the assignment gets the version and the time of what is sent. -/
def dispatch (s : FedCompass T) (cid : String) (now : ℚ) : FedCompass T :=
  match s.active.get? cid with
  | some job => { s with active := s.active.insert cid { job with modelVersion := s.version, started := now } }
  | none => s

end Events

end SplitFleet.Compass
