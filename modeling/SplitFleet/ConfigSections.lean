import SplitFleet.Lib.Digits
import SplitFleet.Lib.Number

set_option autoImplicit false

namespace SplitFleet.Virtual

open Lib

/-- A key of a mapping in a configuration file. -/
inductive Key
  | str (s : String)
  | int (z : ℤ)
  deriving DecidableEq

namespace Key

/-- `str(key)` -/
def text : Key → Except PyError String
  | str s => .ok s
  | int z => if maxStrDigits < (toString z.natAbs).length then .error tooManyDigits else .ok (toString z)

/-- `int(key)` -/
def toInt : Key → Except PyError ℤ
  | str s => intOfText s
  | int z => .ok z

/-- `repr(key)` -/
def repr : Key → String
  | str s => pyRepr s
  | int z => toString z

end Key

/-- `_positive_integer(value, name, minimum=minimum)` -/
def positiveInteger (value : ℤ) (name : String) (minimum : ℤ := 1) : Except PyError Unit :=
  require (minimum ≤ value) (.valueError s!"{name} must be an integer >= {minimum}")

/-- A text that counts as true. -/
def given (s : Option String) : Bool := s.any (· ≠ "")

/-! ### The sections -/

structure ClientPopulation where
  total : ℤ := 100
  participationFraction : Number := .finite 1
  offlineRounds : Dict Key (List ℤ) := .empty
  failureRounds : Dict Key (List ℤ) := .empty
  failAfterBatches : ℤ := 0
  failureProbability : Number := .finite 0
  trainingTimeoutSec : Number := .finite 120

namespace ClientPopulation

/-- An entry of one of the two schedules. -/
def checkSchedule (total : ℤ) (cid : Key) (rounds : List ℤ) : Except PyError Unit := do
  let text ← cid.text
  require (isDigit text = true) (.valueError s!"Invalid client partition id {cid.repr}")
  let partition ← cid.toInt
  require (0 ≤ partition ∧ partition < total) (.valueError s!"Invalid client partition id {cid.repr}")
  require (∀ r ∈ rounds, 1 ≤ r) (.valueError "Availability/failure rounds must be positive integers")

def postInit (p : ClientPopulation) : Except PyError Unit := do
  positiveInteger p.total "virtual_clients.total"
  positiveInteger p.failAfterBatches "fail_after_batches" 0
  require (1 ≤ p.total ∧ p.participationFraction.above 0 = true ∧ p.participationFraction.atMost 1 = true)
    (.valueError "total must be positive and participation_fraction in (0, 1]")
  require (p.failureProbability.atLeast 0 = true ∧ p.failureProbability.atMost 1 = true ∧ 0 ≤ p.failAfterBatches)
    (.valueError "Invalid failure injection configuration")
  require (p.trainingTimeoutSec.isFinite = true ∧ p.trainingTimeoutSec.atMost 0 = false)
    (.valueError "training_timeout_sec must be finite and positive")
  p.offlineRounds.entries.forM fun entry ↦ checkSchedule p.total entry.1 entry.2
  p.failureRounds.entries.forM fun entry ↦ checkSchedule p.total entry.1 entry.2

end ClientPopulation

/-- What `record_capacity_observation` writes. The observation before it is its `prior`. -/
structure Observation where
  predicted : ℤ
  actual : ℤ
  matched : Bool
  source : String
  deriving DecidableEq

/-- The keys `ρ` are rounds. -/
structure Resources (ρ : Type) where
  clientCpusPerWorker : Option Number := none
  clientGpusPerWorker : Number := .finite 0
  maxConcurrentClients : Option ℤ := none
  workerCountPolicy : String := "max_concurrency"
  serverConcurrency : Option ℤ := some 1
  serverConcurrencyByRound : Dict ρ ℤ := .empty
  maxSuffixReplicas : Option ℤ := none
  maxResidentSuffixReplicas : Option ℤ := none
  perClientSuffixModels : Bool := false
  serverMemoryBudgetMb : Option Number := none
  clientMemoryBudgetMb : Option Number := none
  mode : String := "scheduling"
  rayAddress : Option String := none
  objectStoreMemoryMb : ℤ := 256
  clientGpuPoolSize : Option ℤ := none
  workerTargetCount : Option ℤ := none
  effectiveWorkerCapacity : Option ℤ := none
  /-- The last one first. -/
  capacityObservation : List Observation := []
  logicalSuffixModelCount : Option ℤ := none

/-- `a or b` of an optional integer. -/
def orElse (a : Option ℤ) (b : ℤ) : ℤ :=
  match a with
  | some n => if n = 0 then b else n
  | none => b

def optionalPositive (value : Option ℤ) (name : String) (minimum : ℤ := 1) : Except PyError Unit :=
  match value with
  | some n => positiveInteger n name minimum
  | none => .ok ()

namespace Resources

section Properties

variable {ρ : Type} (r : Resources ρ)

def effectiveSuffixSlots : ℤ := orElse r.effectiveWorkerCapacity (orElse r.maxConcurrentClients 1)

def suffixCapacity : Option ℤ :=
  if r.maxSuffixReplicas.any (· ≠ 0) then r.maxSuffixReplicas
  else if r.effectiveWorkerCapacity.any (· ≠ 0) then r.effectiveWorkerCapacity else r.maxConcurrentClients

def residentSuffixCapacity : ℤ :=
  min (orElse r.maxResidentSuffixReplicas (orElse r.maxSuffixReplicas r.effectiveSuffixSlots)) r.effectiveSuffixSlots

def logicalSuffixModels : ℤ := orElse r.logicalSuffixModelCount (orElse r.maxSuffixReplicas 1)

def strictWorkerCapacity : Bool := r.workerCountPolicy ∈ ["fixed", "fixed_hardware"]

def effectiveServerConcurrency : ℤ := min (orElse r.serverConcurrency r.effectiveSuffixSlots) r.residentSuffixCapacity

end Properties

def postInit (r : Resources ℤ) : Except PyError Unit := do
  require (r.workerCountPolicy ∈ ["max_concurrency", "fixed", "fixed_hardware"])
    (.valueError "worker_count_policy must be max_concurrency, fixed, or fixed_hardware")
  optionalPositive r.maxConcurrentClients "max_concurrent_clients"
  positiveInteger r.objectStoreMemoryMb "object_store_memory_mb"
  optionalPositive r.serverConcurrency "server_concurrency"
  require (¬ (r.workerCountPolicy ∈ ["fixed", "fixed_hardware"] ∧ r.maxConcurrentClients = none))
    (.valueError "fixed worker execution requires max_concurrent_clients")
  require (r.clientMemoryBudgetMb.any (·.atMost 0) = false) (.valueError "client_memory_budget_mb must be positive")
  optionalPositive r.maxSuffixReplicas "max_suffix_replicas"
  optionalPositive r.maxResidentSuffixReplicas "max_resident_suffix_replicas"
  match r.clientGpuPoolSize with
  | some n => do
    positiveInteger n "client_gpu_pool_size" 0
    require (given r.rayAddress = false) (.valueError "client_gpu_pool_size only controls a local Ray GPU pool")
    require (n ≠ 0 ↔ r.clientGpusPerWorker ≠ .finite 0)
      (.valueError "client_gpu_pool_size must match the presence of GPU worker reservations")
  | none => pure ()
  require ((∀ x ∈ r.clientCpusPerWorker, x.isFinite = true) ∧ r.clientGpusPerWorker.isFinite = true)
    (.valueError "Ray resource reservations must be finite")
  r.serverConcurrencyByRound.entries.forM fun entry ↦ do
    positiveInteger entry.1 "server capacity round"
    positiveInteger entry.2 "server capacity"
  require (r.clientCpusPerWorker.any (·.atMost 0) = false ∧ r.clientGpusPerWorker.below 0 = false)
    (.valueError "Ray CPU reservation must be positive and GPU reservation nonnegative")
  require (∀ n ∈ r.maxSuffixReplicas, 1 ≤ n) (.valueError "max_suffix_replicas must be positive")
  require (r.mode ∈ ["scheduling", "emulation"]) (.valueError "resources.mode must be scheduling or emulation")
  require (80 ≤ r.objectStoreMemoryMb) (.valueError "Ray object store needs at least 80 MiB")
  require (r.serverMemoryBudgetMb.any (·.atMost 0) = false) (.valueError "server_memory_budget_mb must be positive")
  require (∀ entry ∈ r.serverConcurrencyByRound.entries, 1 ≤ entry.1 ∧ 1 ≤ entry.2)
    (.valueError "server_concurrency_by_round needs positive rounds and capacities")

/-- `dataclasses.replace(r, ...)`, after the fields are changed: the derived fields start over. -/
def replace (r : Resources ℤ) : Except PyError (Resources ℤ) := do
  r.postInit
  return { r with
    workerTargetCount := none
    effectiveWorkerCapacity := none
    capacityObservation := []
    logicalSuffixModelCount := none }

def withCapacity (r : Resources ℤ) (target effective : ℤ) : Except PyError (Resources ℤ) := do
  let value ← r.replace
  return { value with workerTargetCount := some target, effectiveWorkerCapacity := some effective }

def recordCapacityObservation (r : Resources ℤ) (actual predicted : ℤ) (source : String) :
    Except PyError (Resources ℤ) := do
  require (1 ≤ actual) (.valueError "actual worker capacity must be a positive integer")
  let observation : Observation :=
    { predicted := predicted, actual := actual, matched := decide (actual = predicted), source := source }
  return { r with capacityObservation := observation :: r.capacityObservation }

def adoptCapacity (r : Resources ℤ) (actual predicted : ℤ) (source : String) : Except PyError (Resources ℤ) := do
  require (1 ≤ actual) (.valueError "actual worker capacity must be a positive integer")
  let r ← r.recordCapacityObservation actual predicted source
  let upper := min predicted (min (orElse r.workerTargetCount predicted) (orElse r.effectiveWorkerCapacity predicted))
  return { r with effectiveWorkerCapacity := some (min actual upper) }

end Resources

structure Profile where
  device : String := "cpu"
  torchThreads : ℤ := 1
  cpuLimit : Option ℤ := none
  affinity : Option (List ℤ) := none
  gpuFraction : Option Number := none
  deriving DecidableEq

def Profile.postInit (p : Profile) : Except PyError Unit := do
  positiveInteger p.torchThreads "torch_threads"
  optionalPositive p.cpuLimit "cpu_limit"
  require (p.device = "cpu" ∨ p.device.startsWith "cuda" = true)
    (.valueError "Virtual runtime currently admits torch CPU/CUDA execution")
  require (1 ≤ p.torchThreads ∧ ∀ n ∈ p.cpuLimit, 1 ≤ n) (.valueError "Profile CPU/thread counts must be positive")
  require (∀ cpus ∈ p.affinity, cpus ≠ [] ∧ ∀ c ∈ cpus, 0 ≤ c)
    (.valueError "affinity must contain nonnegative CPU ids")
  require (∀ x ∈ p.gpuFraction, x.above 0 = true ∧ x.atMost 1 = true)
    (.valueError "gpu_fraction is a scheduling reservation in (0, 1]")

structure Network where
  uploadMbps : Option Number := none
  downloadMbps : Option Number := none
  rttMs : Number := .finite 0
  packetLoss : Number := .finite 0
  deriving DecidableEq

def Network.postInit (n : Network) : Except PyError Unit := do
  require (∀ x ∈ n.uploadMbps, x.isFinite = true ∧ x.atMost 0 = false)
    (.valueError "Network rates must be finite and positive")
  require (∀ x ∈ n.downloadMbps, x.isFinite = true ∧ x.atMost 0 = false)
    (.valueError "Network rates must be finite and positive")
  require (n.rttMs.isFinite = true ∧ n.rttMs.below 0 = false) (.valueError "rtt_ms must be finite and nonnegative")
  require (n.packetLoss = .finite 0)
    (.valueError "packet_loss is unsupported by TCP stream pacing; use an isolated tc/netem path")

structure Transport where
  bindHost : String := "127.0.0.1"
  advertiseHost : Option String := none
  port : ℤ := 0
  rpcTimeoutSec : Number := .finite 60
  caCert : Option String := none
  serverCert : Option String := none
  serverKey : Option String := none
  clientCert : Option String := none
  clientKey : Option String := none

def Transport.postInit (t : Transport) : Except PyError Unit := do
  require (0 ≤ t.port ∧ t.port ≤ 65535 ∧ t.rpcTimeoutSec.atMost 0 = false)
    (.valueError "Invalid suffix port or RPC timeout")
  let tls := [t.caCert, t.serverCert, t.serverKey, t.clientCert, t.clientKey]
  require (tls.any given = true → tls.all given = true)
    (.valueError "Mutual TLS needs CA, server cert/key and client cert/key")

structure PartitionConfig where
  method : String := "iid"
  alpha : Number := .finite (1 / 2)
  minSamples : ℤ := 1
  sampleCounts : Option (List ℤ) := none

def PartitionConfig.postInit (p : PartitionConfig) : Except PyError Unit := do
  positiveInteger p.minSamples "partition.min_samples"
  require (p.method ∈ ["iid", "dirichlet"] ∧ p.alpha.isFinite = true ∧ p.alpha.atMost 0 = false)
    (.valueError "Use partition method iid/dirichlet and finite positive alpha")
  (p.sampleCounts.getD []).forM fun count ↦ positiveInteger count "partition sample count"

end SplitFleet.Virtual
