import SplitFleet.ConfigSections
import SplitFleet.Lib.Json
import SplitFleet.Lib.Sorting

set_option autoImplicit false

namespace SplitFleet.Virtual

open Lib

/-! ### The configuration -/

/-- The machine that reads a configuration. `ipAddress host` is `ip_address(host).is_loopback`, and `none` where it
raises `ValueError`. -/
structure Host where
  available : ℕ
  memAvailableMb : Option ℚ
  ipAddress : String → Option Bool
  available_pos : 0 < available

def Host.loopback (h : Host) (host : String) : Bool :=
  match h.ipAddress host with
  | some b => b
  | none => host = "localhost"

/-- The fields of `VirtualConfig`. The names `κ` and the rounds `ρ` are read by `from_dict`, which does not touch the
keys of `offline_rounds`, `failure_rounds` and `client_profiles`. -/
structure Fields (κ ρ : Type) where
  rounds : ℤ := 2
  seed : ℤ := 233
  batchSize : ℤ := 2
  localEpochs : ℤ := 1
  learningRate : Number := .finite (1 / 100)
  optimizer : String := "sgd"
  boundary : String := "50%"
  placement : String := "greedy"
  serverDevice : String := "cpu"
  virtualClients : ClientPopulation := {}
  resources : Resources ρ := {}
  profiles : Dict κ Profile
  clientProfiles : Dict Key String := .empty
  networks : Dict κ Network := .empty
  networkByRound : Dict ρ (Dict κ Network) := .empty
  transport : Transport := {}
  partition : PartitionConfig := {}
  workload : Json := .obj [("source", .str "fixture"), ("model", .str "tiny"), ("samples", .int 400)]

/-- `VirtualConfig`, whose mappings have the keys that `from_dict` makes. -/
abbrev VirtualConfig := Fields String ℤ

namespace ClientPopulation

/-- `round_id in population.offline_rounds.get(str(cid), [])` -/
def offlineIn (p : ClientPopulation) (roundId : ℤ) (cid : ℕ) : Bool :=
  roundId ∈ (p.offlineRounds.get? (.str (toString cid))).getD []

/-- The number of clients for which `offlineIn` holds. -/
def offlineCount (p : ClientPopulation) (roundId : ℤ) : ℕ := (List.range p.total.toNat).countP (p.offlineIn roundId ·)

/-- `range(1, rounds + 1)` -/
def roundRange (rounds : ℤ) : List ℤ := (List.range rounds.toNat).map fun r : ℕ ↦ (r : ℤ) + 1

/-- `online_max` -/
def onlineMax (p : ClientPopulation) (rounds : ℤ) : Except PyError ℤ :=
  if p.offlineRounds.entries = [] then .ok p.total
  else if (roundRange rounds).any (· ∉ p.offlineRounds.values.flatten) then .ok p.total
  else
    match (roundRange rounds).map fun roundId ↦ p.total - offlineCount p roundId with
    | [] => .error (.valueError "max() arg is an empty sequence")
    | online :: rest => .ok (rest.foldl max online)

end ClientPopulation

namespace Fields

def maxSingleRoundParticipants (c : VirtualConfig) : Except PyError ℤ := do
  let online ← c.virtualClients.onlineMax c.rounds
  return min c.virtualClients.total (max 1 ⌈(online : ℚ) * c.virtualClients.participationFraction.value⌉)

def profile (c : VirtualConfig) (partitionId : ℕ) : Except PyError Profile :=
  match c.profiles.keys with
  | [] => .error (.raised "StopIteration" "")
  | first :: _ =>
    let name := (c.clientProfiles.get? (.str (toString partitionId))).getD first
    match c.profiles.get? name with
    | some p => .ok p
    | none => .error (.keyError name)

def network (c : VirtualConfig) (partitionId : ℕ) (roundId : ℤ) : Network :=
  let cid := toString partitionId
  let value := (c.networks.get? cid).getD ((c.networks.get? "default").getD {})
  (sortedBy id c.networkByRound.keys).foldl (fun value roundKey ↦
    if roundKey ≤ roundId then
      let change := (c.networkByRound.get? roundKey).getD .empty
      (change.get? cid).getD ((change.get? "default").getD value)
    else value) value

/-- The requested capacity, and the CPUs of a worker where they are given. -/
def deriveEffective (host : Host) (c : VirtualConfig) (target : ℤ) : Except PyError ℤ := do
  let resources := c.resources
  let maxThreads := (c.profiles.values.map Profile.torchThreads).foldl max 1
  let byThreads := if maxThreads > 1 then min target (max 1 (host.available / maxThreads)) else target
  let byCpus :=
    match resources.clientCpusPerWorker with
    | some cpus =>
      if resources.strictWorkerCapacity then byThreads else min byThreads (max 1 ⌊(host.available : ℚ) / cpus.value⌋)
    | none => byThreads
  let byHost := if given resources.rayAddress then target else byCpus
  let byGpus :=
    if resources.clientGpusPerWorker.above 0 ∧ orElse resources.clientGpuPoolSize 0 ≠ 0 then
      min byHost (max 1 ⌊(orElse resources.clientGpuPoolSize 0 : ℚ) / resources.clientGpusPerWorker.value⌋)
    else byHost
  match resources.clientMemoryBudgetMb, host.memAvailableMb with
  | some budget, some availableMb =>
    if given resources.rayAddress then return byGpus
    else
      let workers ← Number.floorDiv availableMb budget
      return min byGpus (max 1 workers)
  | _, _ => return byGpus

/-- The capacity of the workers: what is wanted, what is admitted, and the CPUs of each. -/
def admitted (host : Host) (c : VirtualConfig) : Except PyError (ℤ × ℤ × Number) := do
  let resources := c.resources
  let participantTarget ← c.maxSingleRoundParticipants
  require (¬ (given resources.rayAddress = true ∧ resources.clientCpusPerWorker = none))
    (.valueError "A remote Ray pool requires explicit client_cpus_per_worker")
  require (¬ (resources.strictWorkerCapacity = true ∧ ∃ n ∈ resources.maxConcurrentClients, participantTarget < n))
    (.valueError "fixed worker capacity cannot exceed the maximum participating client count")
  let target := min participantTarget (orElse resources.maxConcurrentClients participantTarget)
  require (1 ≤ target) (.valueError "No worker capacity is available for the selected clients")
  let derived ← c.deriveEffective host target
  let effective := if resources.strictWorkerCapacity then target else derived
  require (1 ≤ effective) (.valueError "No worker capacity is available for the selected clients")
  let cpus := resources.clientCpusPerWorker.getD (.finite (min (host.available : ℚ) effective / effective))
  return (target, effective, cpus)

/-- The requested cap is written down where it is left out. -/
def materialize (r : Resources ℤ) (target : ℤ) : Except PyError (Resources ℤ) :=
  match r.maxConcurrentClients with
  | some _ => .ok r
  | none => { r with maxConcurrentClients := some target }.replace

/-- One suffix model for each client, where no number of replicas is given. -/
def perClient (r : Resources ℤ) (total target effective : ℤ) : Except PyError (Resources ℤ) :=
  if r.perClientSuffixModels = true ∧ r.maxSuffixReplicas = none then
    { r with maxSuffixReplicas := some total }.withCapacity target effective
  else .ok r

/-- The resources with the admitted capacity. -/
def frozenResources (host : Host) (c : VirtualConfig) : Except PyError (Resources ℤ) := do
  let (target, effective, cpus) ← c.admitted host
  let resources ← materialize c.resources target
  let resources ← resources.withCapacity target effective
  require (cpus.atMost 0 = false ∧ cpus.isFinite = true)
    (.valueError "Unable to derive a positive client CPU reservation")
  let resources ← { resources with clientCpusPerWorker := some cpus }.withCapacity target effective
  let resources ← perClient resources c.virtualClients.total target effective
  require (∀ n ∈ resources.maxResidentSuffixReplicas, n ≤ effective)
    (.valueError "max_resident_suffix_replicas cannot exceed effective worker capacity")
  require (∀ n ∈ resources.maxSuffixReplicas, ∀ resident ∈ resources.maxResidentSuffixReplicas, resident ≤ n)
    (.valueError "max_resident_suffix_replicas cannot exceed max_suffix_replicas")
  require (resources.residentSuffixCapacity ≤ resources.effectiveSuffixSlots)
    (.valueError "Resident suffix capacity cannot exceed physical suffix slots")
  require (∀ n ∈ resources.serverConcurrency, n ≤ resources.residentSuffixCapacity)
    (.valueError "server_concurrency cannot exceed resident suffix capacity")
  require (∀ capacity ∈ resources.serverConcurrencyByRound.values, capacity ≤ resources.residentSuffixCapacity)
    (.valueError "server_concurrency_by_round cannot exceed resident suffix capacity")
  require (¬ (resources.perClientSuffixModels = true ∧ resources.suffixCapacity ≠ some c.virtualClients.total))
    (.valueError "Per-client suffix model count must equal the logical client population")
  let models := if resources.perClientSuffixModels then c.virtualClients.total
    else orElse resources.maxSuffixReplicas 1
  return { resources with logicalSuffixModelCount := some models }

/-- The check of one profile against the resources. -/
def checkProfile (resources : Resources ℤ) (profile : Profile) : Except PyError Unit := do
  require (¬ (resources.mode = "scheduling" ∧ (profile.cpuLimit ≠ none ∨ profile.affinity ≠ none)))
    (.valueError "CPU affinity/limits require resources.mode=emulation")
  require (¬ (profile.device.startsWith "cuda" = true ∧ resources.clientGpusPerWorker.atMost 0 = true))
    (.valueError "CUDA clients require a Flower/Ray GPU reservation")
  require (∀ x ∈ profile.gpuFraction, x = resources.clientGpusPerWorker)
    (.valueError ("The native Flower RayBackend uses one resource quota per pool; " ++
      "gpu_fraction must match client_gpus_per_worker"))

/-- The check of one entry of `client_profiles`. -/
def checkAssignment (c : VirtualConfig) (cid : Key) (name : String) : Except PyError Unit := do
  let invalid := PyError.valueError s!"Invalid client profile assignment {cid.repr}: {pyRepr name}"
  require (name ∈ c.profiles.keys) invalid
  let text ← cid.text
  require (isDigit text = true) invalid
  let partition ← cid.toInt
  require (partition < c.virtualClients.total) invalid

/-- The hosts and certificates of a remote pool. -/
def checkCluster (host : Host) (c : VirtualConfig) : Except PyError Unit := do
  require (¬ (given c.resources.rayAddress = true ∧
      c.transport.advertiseHost ∈ [none, some "localhost", some "127.0.0.1"]))
    (.valueError "Ray cluster mode requires an explicit remote advertise_host and mutual TLS")
  require (¬ (given c.resources.rayAddress = true ∧ c.transport.caCert = none))
    (.valueError "Ray cluster mode requires mutual TLS for suffix RPC")
  require (¬ (given c.resources.rayAddress = true ∧
      (host.loopback c.transport.bindHost = true ∨ host.loopback (c.transport.advertiseHost.getD "") = true)))
    (.valueError "Ray cluster mode requires worker-reachable bind/advertise hosts, not loopback")

/-- `VirtualConfig.__post_init__` -/
def postInit (host : Host) (c : VirtualConfig) : Except PyError VirtualConfig := do
  let resources ← c.frozenResources host
  positiveInteger c.rounds "rounds"
  positiveInteger c.batchSize "batch_size"
  positiveInteger c.localEpochs "local_epochs"
  positiveInteger c.seed "seed" 0
  require (c.seed < 2 ^ 32 ∧ c.learningRate.isFinite = true)
    (.valueError "seed must fit uint32 and learning_rate must be finite")
  require (1 ≤ c.rounds ∧ 1 ≤ c.batchSize ∧ 1 ≤ c.localEpochs ∧ c.learningRate.atMost 0 = false)
    (.valueError "rounds, batch_size, local_epochs and learning_rate must be positive")
  require (c.optimizer ∈ ["sgd", "adam"] ∧ c.placement ∈ ["static", "greedy"])
    (.valueError "Use optimizer sgd/adam and placement static/greedy")
  require (c.profiles.entries ≠ []) (.valueError "At least one client profile is required")
  c.clientProfiles.entries.forM fun entry ↦ checkAssignment c entry.1 entry.2
  c.profiles.values.forM (checkProfile resources)
  checkCluster host { c with resources := resources }
  return { c with resources := resources }

/-- `VirtualConfig(...)`, after the constructors of its sections. -/
def construct (host : Host) (f : VirtualConfig) : Except PyError VirtualConfig := do
  f.virtualClients.postInit
  let resources ← f.resources.replace
  f.transport.postInit
  f.partition.postInit
  f.profiles.values.forM Profile.postInit
  f.networks.values.forM Network.postInit
  f.networkByRound.values.forM fun change ↦ change.values.forM Network.postInit
  { f with resources := resources }.postInit host

end Fields

/-! ### Reading a configuration -/

/-- What `from_dict` is given. The fields that are left out have their defaults. -/
abbrev Input := Fields Key Key

/-- `{int(key): value for key, value in d.items()}` -/
def intKeys {υ : Type} (d : Dict Key υ) : Except PyError (Dict ℤ υ) := do
  let entries ← d.entries.mapM fun entry ↦ do
    let key ← entry.1.toInt
    return (key, entry.2)
  return .ofList entries

/-- `{str(key): target(**value) for key, value in d.items()}` -/
def textKeys {υ : Type} (postInit : υ → Except PyError Unit) (d : Dict Key υ) : Except PyError (Dict String υ) := do
  let entries ← d.entries.mapM fun entry ↦ do
    let key ← entry.1.text
    postInit entry.2
    return (key, entry.2)
  return .ofList entries

/-- The recorded admission, which `from_dict` puts back where it is there. -/
def Resources.restore (r derived : Resources ℤ) : Resources ℤ :=
  { r with
    workerTargetCount := derived.workerTargetCount.or r.workerTargetCount
    effectiveWorkerCapacity := derived.effectiveWorkerCapacity.or r.effectiveWorkerCapacity
    capacityObservation :=
      if derived.capacityObservation = [] then r.capacityObservation else derived.capacityObservation
    logicalSuffixModelCount := derived.logicalSuffixModelCount.or r.logicalSuffixModelCount }

/-- `VirtualConfig.from_dict` -/
def fromDict (host : Host) (v : Input) : Except PyError VirtualConfig := do
  v.virtualClients.postInit
  let byRound ← intKeys v.resources.serverConcurrencyByRound
  let derived : Resources ℤ := { v.resources with serverConcurrencyByRound := byRound }
  let resources ← derived.replace
  v.transport.postInit
  v.partition.postInit
  let profiles ← textKeys Profile.postInit v.profiles
  let networks ← textKeys Network.postInit v.networks
  let changes ← v.networkByRound.entries.mapM fun entry ↦ do
    let round ← entry.1.toInt
    let networks ← textKeys Network.postInit entry.2
    return (round, networks)
  let fields : VirtualConfig := { v with
    resources := resources
    profiles := profiles
    networks := networks
    networkByRound := .ofList changes }
  let config ← fields.postInit host
  return { config with resources := config.resources.restore derived }

/-- A configuration that the constructor or `from_dict` has returned. -/
inductive Accepted (c : VirtualConfig) : Prop
  | construct (host : Host) (f : VirtualConfig) (h : Fields.construct host f = .ok c)
  | fromDict (host : Host) (v : Input) (h : fromDict host v = .ok c)

end SplitFleet.Virtual
