import SplitFleet.Lib.Python
import Mathlib.Data.Finset.Basic
import Mathlib.Data.Finset.Card

set_option autoImplicit false

namespace SplitFleet.LeasedManager

open Lib

abbrev Sid := String

/-- A native model, named by the order in which the factory returned it. -/
abbrev Model := ℕ

/-- A `ServerModelFitIns` or, when `isFit` is false, a `ServerModelEvaluateIns`. -/
structure Config (α : Type) where
  sid : Sid
  isFit : Bool
  parameters : α

structure Receipt where
  suffixReplicaReused : Bool
  suffixCaptureReused : Bool
  suffixModelInstanceId : ℕ
  suffixModelClientId : Sid

/-- The fields of `LeasedServerModelManager`. The states of suffix models have type `α`. -/
structure Manager (α : Type) where
  capacity : ℕ
  modelCapacity : ℕ
  retires : Bool
  perClientModels : Bool
  exclusive : perClientModels = true → retires = false
  clientModels : Dict Sid Model
  logicalModelCount : ℕ
  peakLogicalModelCount : ℕ
  peakClientModels : ℕ
  idle : List Model
  configs : Dict Sid (Config α)
  live : Dict Sid Model
  preparing : Finset Sid
  finishing : Finset Sid
  completed : Dict Sid α
  attempted : Finset Sid
  failed : Dict Sid String
  peakLive : ℕ
  totalCreated : ℕ
  totalReused : ℕ
  nextModelInstanceId : ℕ
  records : Dict Sid Receipt

variable {α : Type}

namespace Manager

def fresh (capacity modelCapacity : ℕ) (retires perClientModels : Bool)
    (exclusive : perClientModels = true → retires = false) : Manager α where
  capacity := capacity
  modelCapacity := modelCapacity
  retires := retires
  perClientModels := perClientModels
  exclusive := exclusive
  clientModels := .empty
  logicalModelCount := 0
  peakLogicalModelCount := 0
  peakClientModels := 0
  idle := []
  configs := .empty
  live := .empty
  preparing := ∅
  finishing := ∅
  completed := .empty
  attempted := ∅
  failed := .empty
  peakLive := 0
  totalCreated := 0
  totalReused := 0
  nextModelInstanceId := 0
  records := .empty

def occupied (m : Manager α) : ℕ := m.live.size + m.preparing.card + m.finishing.card

/-- The first locked section of `acquire`: the slot taken from `idle`, and the configuration. -/
def reserve (m : Manager α) (sid : Sid) : Except PyError (Manager α × Option Model × Config α) :=
  if sid ∈ m.attempted then
    .error (.runtimeError ("Suffix task " ++ pyRepr sid ++ " already attempted; replay is forbidden"))
  else
    match m.configs.get? sid with
    | none => .error (.keyError ("No suffix configuration for " ++ pyRepr sid))
    | some config =>
      if m.capacity ≤ m.occupied then
        .error (.runtimeError "Suffix capacity exceeded; acquire a runtime lease before execution")
      else .ok ({ m with
          attempted := insert sid m.attempted
          preparing := insert sid m.preparing
          idle := m.idle.dropLast }, m.idle.getLast?, config)

def numberModel (m : Manager α) : Manager α :=
  { m with nextModelInstanceId := m.nextModelInstanceId + 1 }

def notePeak (m : Manager α) : Manager α :=
  { m with peakClientModels := max m.peakClientModels (m.live.size + m.preparing.card) }

/-- The section in the `finally` of a failed `acquire`. -/
def unregister (m : Manager α) (sid : Sid) (error : String) : Manager α :=
  { m with
    preparing := m.preparing.erase sid
    clientModels := m.clientModels.erase sid
    failed := m.failed.insert sid error }

/-- The last section of `acquire`. -/
def commit (m : Manager α) (sid : Sid) (model : Model) (receipt : Receipt) : Manager α :=
  { m with
    preparing := m.preparing.erase sid
    live := m.live.insert sid model
    clientModels := m.clientModels.insert sid model
    peakLive := max m.peakLive (m.live.insert sid model).size
    totalCreated := m.totalCreated + (if receipt.suffixReplicaReused then 0 else 1)
    totalReused := m.totalReused + (if receipt.suffixReplicaReused then 1 else 0)
    records := m.records.insert sid receipt }

def getServerModel (m : Manager α) (sid : Sid) : Except PyError Model :=
  match m.live.get? sid with
  | none => .error (.runtimeError "Suffix request has no active replica lease")
  | some model => .ok model

/-- The collections after `finish` has taken `sid` out of `live`. -/
def takeLive (m : Manager α) (sid : Sid) : Manager α :=
  { m with
    live := m.live.erase sid
    clientModels := m.clientModels.erase sid
    finishing := insert sid m.finishing }

def recordFailure (m : Manager α) (sid : Sid) (reason : String) : Manager α :=
  { m with failed := m.failed.insert sid reason }

/-- The section in the `else` of `finish`. -/
def publish (m : Manager α) (sid : Sid) (model : Model) (stored : Option α) (reason : String)
    (idle : Bool) : Manager α :=
  let m := match stored with
    | some v => { m with completed := m.completed.insert sid v }
    | none => m.recordFailure sid reason
  { m with idle := if idle && !m.perClientModels then m.idle ++ [model] else m.idle }

/-- The section in the `finally` of `finish`. -/
def closeFinish (m : Manager α) (sid : Sid) : Manager α :=
  { m with finishing := m.finishing.erase sid }

/-- No operation is in the middle of its work. -/
def Quiet (m : Manager α) : Prop := m.preparing = ∅ ∧ m.finishing = ∅

/-- The last section of `collect_server_fit_results`. -/
def report (m : Manager α) : Except PyError (List α) :=
  if m.preparing = ∅ ∧ m.finishing = ∅ then
    .ok ((m.completed.keys.mergeSort (· ≤ ·)).filterMap m.completed.get?)
  else .error (.runtimeError "Cannot collect suffix results during a lifecycle operation")

/-- The models that `end_round` releases, each once. -/
def roundModels (m : Manager α) : List Model :=
  (m.clientModels.values ++ m.live.values ++ m.idle).reverse.dedup.reverse

/-- The collections after `end_round`. -/
def clear (m : Manager α) : Manager α :=
  { m with
    live := .empty
    idle := []
    clientModels := .empty
    completed := .empty
    configs := .empty
    attempted := ∅
    failed := .empty
    records := .empty
    logicalModelCount := 0 }

/-- `initialize_server_models` after its `end_round`. -/
def configure (m : Manager α) (configs : List (Config α)) : Manager α × Except PyError Unit :=
  let m := { m with configs := Dict.ofList (configs.map fun c ↦ (c.sid, c)) }
  if m.configs.size ≠ configs.length then
    (m, .error (.valueError "Duplicate suffix replica identities"))
  else if configs.any (fun c ↦ c.sid = "") && configs.length ≠ 1 then
    (m, .error (.valueError "Shared suffix configuration must contain one model"))
  else
    let m := { m with
      logicalModelCount := m.configs.size
      peakLogicalModelCount := max m.peakLogicalModelCount m.configs.size }
    if m.perClientModels && m.modelCapacity < m.logicalModelCount then
      (m, .error (.valueError
        "The per-client logical suffix population exceeds its declared model count"))
    else (m, .ok ())

end Manager

/-! ### Calls in progress -/

structure Acquire (α : Type) where
  sid : Sid
  config : Config α
  reused : Bool

/-- A call of `finish` that has taken its model. `rest` is what `collect_server_fit_results` has
still to drain when that call made this one. -/
structure Finish (α : Type) where
  sid : Sid
  model : Model
  success : Bool
  reason : String
  initial : α
  rest : Option (List Sid)

/-- Where a thread is between two atomic steps. -/
inductive Pc (α : Type)
  | ready
  | building (a : Acquire α)
  | numbering (a : Acquire α) (model : Model)
  | peaking (a : Acquire α) (model : Model) (instanceId : ℕ)
  | identifying (a : Acquire α) (model : Model)
  | configuring (a : Acquire α) (model : Model) (instanceId : ℕ)
  | committing (a : Acquire α) (model : Model) (receipt : Receipt)
  | unwinding (a : Acquire α) (model : Option Model) (error : String)
  | unregistering (a : Acquire α) (error : String)
  | exporting (f : Finish α)
  | storing (f : Finish α) (value : α)
  | retiring (f : Finish α) (value : α)
  | releasing (f : Finish α) (stored : Option α)
  | failing (f : Finish α) (error : String)
  | recording (f : Finish α) (error : String)
  | publishing (f : Finish α) (stored : Option α) (idle : Bool)
  | closing (f : Finish α) (raised : Bool)
  | collecting (rest : List Sid)

inductive Cause
  | failedAcquire (sid : Sid)
  | finish (sid : Sid)
  | endRound
  deriving DecidableEq

/-- What the hooks and the calls have done. -/
inductive Event (α : Type)
  | initialized
  | ended
  | admitted (sid : Sid)
  | built (model : Model)
  | released (model : Model) (cause : Cause) (raised : Bool)
  | finishing (sid : Sid) (success : Bool)
  | exported (sid : Sid) (value : α)
  | stored (sid : Sid) (value : α)

structure World (α : Type) where
  manager : Manager α
  threads : ℕ → Pc α
  instanceIds : Model → Option ℕ
  created : ℕ
  /-- Newest first. -/
  trace : List (Event α)

namespace World

def start (m : Manager α) : World α := ⟨m, fun _ ↦ .ready, fun _ ↦ none, 0, []⟩

/-- Thread `t` moves on, with what it did to the manager and to the trace. -/
def move (w : World α) (t : ℕ) (pc : Pc α) (m : Manager α) (events : List (Event α)) : World α :=
  { w with manager := m, threads := Function.update w.threads t pc, trace := events ++ w.trace }

end World

/-- What `end_round` records when every release returns, newest first. -/
def Manager.releases (m : Manager α) : List (Event α) :=
  (m.roundModels.map (Event.released · .endRound false)).reverse

/-- The world after a call of `end_round` that returns. -/
def World.endRound (w : World α) (t : ℕ) : World α :=
  w.move t .ready w.manager.clear (.ended :: w.manager.releases)

/-- The body of `acquire` after the section that admitted the sid. -/
def enterAcquire (sid : Sid) (config : Config α) : Option Model → Pc α
  | some model => .identifying ⟨sid, config, true⟩ model
  | none => .building ⟨sid, config, false⟩

/-- Where a call of `finish` returns to: its caller, or the loop of `collect_server_fit_results`. -/
def returnTo : Option (List Sid) → Pc α
  | some rest => .collecting rest
  | none => .ready

/-- An exception ends the loop too. -/
def Finish.next (f : Finish α) (raised : Bool) : Pc α := if raised then .ready else returnTo f.rest

/-- Thread `pc` may call `finish` on `sid`, with `rest` still to drain afterwards. -/
def CallsFinish (pc : Pc α) (sid : Sid) (rest : Option (List Sid)) : Prop :=
  pc = .ready ∧ rest = none ∨ ∃ tail, rest = some tail ∧ pc = .collecting (sid :: tail)

/-- The body of `finish` after the section that took the model. -/
def Finish.enter (f : Finish α) : Pc α := if f.success then .exporting f else .releasing f none

/-- The steps of a thread between its locked sections. A hook may return or raise. -/
inductive LocalStep (finite : α → Bool) (retires : Bool) : Pc α → Pc α → List (Event α) → Prop
  | factoryRaises (a : Acquire α) (error : String) :
      LocalStep finite retires (.building a) (.unwinding a none error) []
  | numberRaises (a : Acquire α) (model : Model) (instanceId : ℕ) (error : String) :
      LocalStep finite retires (.peaking a model instanceId) (.unwinding a (some model) error) []
  | configureRaises (a : Acquire α) (model : Model) (instanceId : ℕ) (error : String) :
      LocalStep finite retires (.configuring a model instanceId) (.unwinding a (some model) error) []
  | configured (a : Acquire α) (model : Model) (instanceId : ℕ) (captureReused : Bool) :
      LocalStep finite retires (.configuring a model instanceId)
        (.committing a model ⟨a.reused, captureReused, instanceId, a.sid⟩) []
  | unwindNone (a : Acquire α) (error : String) :
      LocalStep finite retires (.unwinding a none error) (.unregistering a error) []
  | unwindModel (a : Acquire α) (model : Model) (error : String) (raised : Bool) :
      LocalStep finite retires (.unwinding a (some model) error) (.unregistering a error)
        [.released model (.failedAcquire a.sid) raised]
  | exportRaises (f : Finish α) (error : String) :
      LocalStep finite retires (.exporting f) (.failing f error) []
  | exportNonfinite (f : Finish α) (value : α) (h : finite value = false) :
      LocalStep finite retires (.exporting f)
        (.failing f "FloatingPointError('Suffix update contains nonfinite model state')")
        [.exported f.sid value]
  | exported (f : Finish α) (value : α) (h : finite value = true) :
      LocalStep finite retires (.exporting f) (.storing f value) [.exported f.sid value]
  | storeRaises (f : Finish α) (value : α) (error : String) :
      LocalStep finite retires (.storing f value) (.failing f error) []
  | stored (f : Finish α) (value : α) :
      LocalStep finite retires (.storing f value)
        (if retires then .retiring f value else .releasing f (some value)) [.stored f.sid value]
  | retireRaises (f : Finish α) (value : α) (error : String) :
      LocalStep finite retires (.retiring f value) (.failing f error) []
  | retired (f : Finish α) (value : α) :
      LocalStep finite retires (.retiring f value) (.publishing f (some value) true) []
  | released (f : Finish α) (stored : Option α) :
      LocalStep finite retires (.releasing f stored) (.publishing f stored false)
        [.released f.model (.finish f.sid) false]
  | releaseRaises (f : Finish α) (stored : Option α) (error : String) :
      LocalStep finite retires (.releasing f stored) (.failing f error)
        [.released f.model (.finish f.sid) true]
  | failed (f : Finish α) (error : String) (raised : Bool) :
      LocalStep finite retires (.failing f error) (.recording f error)
        [.released f.model (.finish f.sid) raised]

/-- One atomic step of some thread. -/
inductive Step (finite : α → Bool) (w : World α) : World α → Prop
  | local (t : ℕ) (pc : Pc α) (events : List (Event α))
      (h : LocalStep finite w.manager.retires (w.threads t) pc events) :
      Step finite w (w.move t pc w.manager events)
  | reserve (t : ℕ) (sid : Sid) (m : Manager α) (model : Option Model) (config : Config α)
      (hpc : w.threads t = .ready) (h : w.manager.reserve sid = .ok (m, model, config)) :
      Step finite w (w.move t (enterAcquire sid config model) m [.admitted sid])
  | refuse (t : ℕ) (sid : Sid) (e : PyError) (hpc : w.threads t = .ready)
      (h : w.manager.reserve sid = .error e) : Step finite w w
  | build (t : ℕ) (a : Acquire α) (hpc : w.threads t = .building a) :
      Step finite w { w.move t (.numbering a w.created) w.manager [.built w.created] with
        created := w.created + 1 }
  | number (t : ℕ) (a : Acquire α) (model : Model) (hpc : w.threads t = .numbering a model) :
      Step finite w { w.move t (.peaking a model w.manager.numberModel.nextModelInstanceId)
          w.manager.numberModel [] with
        instanceIds := Function.update w.instanceIds model
          (some w.manager.numberModel.nextModelInstanceId) }
  | notePeak (t : ℕ) (a : Acquire α) (model : Model) (instanceId : ℕ)
      (hpc : w.threads t = .peaking a model instanceId) :
      Step finite w (w.move t (.configuring a model instanceId) w.manager.notePeak [])
  | identify (t : ℕ) (a : Acquire α) (model : Model) (hpc : w.threads t = .identifying a model) :
      Step finite w (w.move t
        (match w.instanceIds model with
          | some instanceId => .configuring a model instanceId
          | none => .unwinding a (some model)
              "RuntimeError('Suffix slot is missing its model instance identity')") w.manager [])
  | unregister (t : ℕ) (a : Acquire α) (error : String)
      (hpc : w.threads t = .unregistering a error) :
      Step finite w (w.move t .ready (w.manager.unregister a.sid error) [])
  | commit (t : ℕ) (a : Acquire α) (model : Model) (receipt : Receipt)
      (hpc : w.threads t = .committing a model receipt) :
      Step finite w (w.move t .ready (w.manager.commit a.sid model receipt) [])
  | getServerModel (t : ℕ) (sid : Sid) (hpc : w.threads t = .ready) : Step finite w w
  | finishAbsent (t : ℕ) (sid : Sid) (rest : Option (List Sid))
      (hpc : CallsFinish (w.threads t) sid rest) (h : w.manager.live.get? sid = none) :
      Step finite w (w.move t (returnTo rest) w.manager [])
  | finishUnconfigured (t : ℕ) (sid : Sid) (model : Model) (rest : Option (List Sid))
      (hpc : CallsFinish (w.threads t) sid rest) (h : w.manager.live.get? sid = some model)
      (hc : w.manager.configs.get? sid = none) :
      Step finite w (w.move t .ready (w.manager.takeLive sid) [])
  | finish (t : ℕ) (f : Finish α) (config : Config α) (hpc : CallsFinish (w.threads t) f.sid f.rest)
      (hcollect : f.rest ≠ none → f.success = false ∧ f.reason = "task did not commit")
      (h : w.manager.live.get? f.sid = some f.model)
      (hc : w.manager.configs.get? f.sid = some config) (hi : f.initial = config.parameters) :
      Step finite w (w.move t f.enter (w.manager.takeLive f.sid) [.finishing f.sid f.success])
  | record (t : ℕ) (f : Finish α) (error : String) (hpc : w.threads t = .recording f error) :
      Step finite w (w.move t (.closing f true) (w.manager.recordFailure f.sid error) [])
  | publish (t : ℕ) (f : Finish α) (stored : Option α) (idle : Bool)
      (hpc : w.threads t = .publishing f stored idle) :
      Step finite w (w.move t (.closing f false)
        (w.manager.publish f.sid f.model stored f.reason idle) [])
  | close (t : ℕ) (f : Finish α) (raised : Bool) (hpc : w.threads t = .closing f raised) :
      Step finite w (w.move t (f.next raised) (w.manager.closeFinish f.sid) [])
  | collect (t : ℕ) (hpc : w.threads t = .ready) :
      Step finite w (w.move t (.collecting w.manager.live.keys) w.manager [])
  | report (t : ℕ) (hpc : w.threads t = .collecting []) :
      Step finite w (w.move t .ready w.manager [])
  | endRound (t : ℕ) (hpc : w.threads t = .ready) (h : w.manager.Quiet) :
      Step finite w (w.endRound t)
  | endRoundRaises (t : ℕ) (before after : List Model) (model : Model) (hpc : w.threads t = .ready)
      (h : w.manager.Quiet) (hm : w.manager.roundModels = before ++ model :: after) :
      Step finite w (w.move t .ready w.manager
        (.released model .endRound true :: (before.map (.released · .endRound false)).reverse))
  | endRoundRefused (t : ℕ) (hpc : w.threads t = .ready) (h : ¬ w.manager.Quiet) : Step finite w w
  | initializeServerModels (t : ℕ) (configs : List (Config α)) (hpc : w.threads t = .ready)
      (h : w.manager.Quiet) :
      Step finite w (w.move t .ready (w.manager.clear.configure configs).1
        (.initialized :: .ended :: w.manager.releases))

/-- The worlds that some interleaving of calls reaches from a new manager. -/
def Reachable (finite : α → Bool) (w : World α) : Prop :=
  ∃ (capacity modelCapacity : ℕ) (retires perClientModels : Bool)
    (exclusive : perClientModels = true → retires = false),
    Relation.ReflTransGen (Step finite)
      (.start (.fresh capacity modelCapacity retires perClientModels exclusive)) w

end SplitFleet.LeasedManager
