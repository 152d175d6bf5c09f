import Mathlib.Data.Nat.Digits.Defs
import SplitFleet.Lib.Coupling

set_option autoImplicit false

namespace SplitFleet.VirtualClient

open Lib

/-! ### Random number generators of a worker process -/

inductive Generator
  | python
  | numpy
  | torch
  | cuda (index : ℕ)
  deriving DecidableEq

inductive Device
  | cpu
  | cuda (index : Option ℕ)

/-- The states of the generators. -/
abbrev Streams (ρ : Type) := Generator → ρ

/-- The framework of a client, the device of its profile and `torch.cuda.current_device()`. -/
structure Scope where
  torch : Bool
  device : Device
  current : ℕ

/-- What `capture_rng` pickles, for Torch and for the other backends. -/
inductive Saved (ρ : Type)
  | torch (python numpy torch : ρ) (cuda : Option ρ)
  | host (python numpy : ρ)

namespace Scope

/-- The generator that `torch.cuda` finds for the device. -/
def cudaIndex (o : Scope) : ℕ :=
  match o.device with
  | .cpu => o.current
  | .cuda index => index.getD o.current

def isCuda (o : Scope) : Bool :=
  match o.device with
  | .cpu => false
  | .cuda _ => true

/-- The generators that a task of the client works with. -/
def owned (o : Scope) : Generator → Bool
  | .python => true
  | .numpy => true
  | .torch => o.torch
  | .cuda index => o.torch && o.isCuda && index = o.cudaIndex

end Scope

section Rng

variable {ρ : Type} (seeded : Generator → ℕ → ρ) (o : Scope)

def captureRng (s : Streams ρ) : Saved ρ :=
  if o.torch then
    .torch (s .python) (s .numpy) (s .torch) (if o.isCuda then some (s (.cuda o.cudaIndex)) else none)
  else .host (s .python) (s .numpy)

def setHost (python numpy : ρ) (s : Streams ρ) : Streams ρ :=
  Function.update (Function.update s .python python) .numpy numpy

/-- `restore_rng`, and `restore` of the other backends. -/
def restoreRng (saved : Saved ρ) (s : Streams ρ) : Except PyError (Streams ρ) :=
  match saved with
  | .torch python numpy torch cuda =>
    if o.torch then
      let s := Function.update (setHost python numpy s) .torch torch
      .ok (cuda.elim s fun c ↦ Function.update s (.cuda o.cudaIndex) c)
    else .error (.valueError "too many values to unpack (expected 3)")
  | .host python numpy =>
    if o.torch then .error (.valueError "not enough values to unpack (expected 4, got 3)")
    else .ok (setHost python numpy s)

/-- What `rng_scope` seeds where nothing was saved. -/
def seedRng (seed : ℕ) (s : Streams ρ) : Streams ρ :=
  fun g ↦ if o.owned g then seeded g seed else s g

end Rng

/-- `client_seed`, where `sha256` gives the bytes of a digest. -/
def clientSeed (sha256 : String → List ℕ) (seed : ℤ) (partition : ℕ) (purpose : String) : ℕ :=
  Nat.ofDigits 256 ((sha256 s!"{seed}:{partition}:{purpose}").take 4)

/-! ### A task -/

/-- The record of a logical client in its Flower context. -/
structure Record (ρ : Type) where
  logicalClientId : String
  partitionId : ℕ
  partitionHash : String
  nodeId : String
  lastRound : ℤ
  completedBatches : ℤ
  lastBoundary : String
  lastPlanId : Option String
  rng : Option (Saved ρ)

inductive Rpc
  | acquire
  | downloadState
  | trainTail
  | uploadState
  | commit
  | abort
  deriving DecidableEq

/-- An RPC that was sent, and whether it returned to the client. -/
structure Sent where
  rpc : Rpc
  returned : Bool
  deriving DecidableEq

/-- What a task can see and change: the generators of its worker, the context of its client and the suffix service. -/
structure Task (ρ : Type) where
  streams : Streams ρ
  record : Option (Record ρ)
  sent : List Sent

/-- Code of a model, of its data or of its training: it draws from the generators of the scope and from no others. -/
structure Draw (ρ : Type) (o : Scope) (α : Type) where
  run : Streams ρ → Except PyError α × Streams ρ
  frame : ∀ s g, o.owned g = false → (run s).2 g = s g
  value_eq : ∀ s t, (∀ g, o.owned g = true → s g = t g) → (run s).1 = (run t).1
  streams_eq : ∀ s t, (∀ g, o.owned g = true → s g = t g) → ∀ g, o.owned g = true → (run s).2 g = (run t).2 g

section Task

variable {ρ α : Type} {o : Scope}

def draw (d : Draw ρ o α) : Method (Task ρ) α := do
  let s ← get
  set { s with streams := (d.run s.streams).2 }
  liftM (d.run s.streams).1

def rpc (method : Rpc) (answer : Except PyError α) : Method (Task ρ) α := do
  modify fun s ↦ { s with sent := s.sent ++ [⟨method, answer.isOk⟩] }
  answer

/-- An RPC for which the network has to be constrained. -/
def rpcIf (constrained : Bool) (method : Rpc) (answer : Except PyError Unit) : Method (Task ρ) Unit :=
  if constrained then rpc method answer else return ()

variable (seeded : Generator → ℕ → ρ)

/-- How `rng_scope` starts. -/
def enterRng (o : Scope) (seed : ℕ) (saved : Option (Saved ρ)) : Method (Task ρ) Unit :=
  match saved with
  | none => modify fun s ↦ { s with streams := seedRng seeded o seed s.streams }
  | some saved => do
    let s ← get
    let streams ← restoreRng o saved s.streams
    set { s with streams := streams }

def rngScope (o : Scope) (seed : ℕ) (saved : Option (Saved ρ)) (body : Method (Task ρ) α) : Method (Task ρ) α := do
  let previous ← Method.read fun s : Task ρ ↦ captureRng o s.streams
  tryFinally
    (do
      enterRng seeded o seed saved
      body)
    (do
      let s ← get
      let streams ← restoreRng o previous s.streams
      set { s with streams := streams })

end Task

/-! ### The adapter of a client -/

/-- What the run gives a client. -/
structure Factory (ρ : Type) where
  seeded : Generator → ℕ → ρ
  sha256 : String → List ℕ
  seed : ℤ
  scope : Scope
  partitionId : ℕ
  partitionHash : String
  nodeId : String

/-- What the libraries do around a call: `data` reads the partition, `construct` builds the model under its own seed. -/
structure Surroundings (ρ : Type) (o : Scope) where
  admitted : Except PyError Unit
  resources : Except PyError Unit
  data : Draw ρ o Unit
  construct : Draw ρ o Unit
  pendingContexts : Bool
  closed : Except PyError Unit
  released : Except PyError Unit

/-- What `client.fit` returns: the values of the prefix, the examples, the batches, whether every value is finite, and
the boundary. -/
structure Trained (υ : Type) where
  values : υ
  count : ℕ
  numBatches : ℤ
  finite : Bool
  boundary : String

/-- How the call of `virtual_abort` ends: it returns, raises one of `grpc_error_types`, or raises another exception. -/
inductive Aborted
  | returned
  | refused
  | raised (e : PyError)

structure FitConfig where
  round : ℤ
  clientId : String
  partitionId : ℕ
  globalModelHash : String
  planId : String

/-- What the network, the suffix service and the training do in one `fit`. The training gives for each
of its RPCs whether it returned. -/
structure FitAnswers (ρ : Type) (o : Scope) (υ : Type) where
  network : Except PyError Unit
  path : Except PyError Unit
  connect : Except PyError Unit
  acquire : Except PyError Unit
  metadata : Except PyError Unit
  constrained : Bool
  download : Except PyError Unit
  load : Except PyError String
  ownership : Except PyError Unit
  training : Draw ρ o (List Bool × Except PyError (Trained υ))
  late : Bool
  declared : ℤ
  device : Except PyError Unit
  upload : Except PyError Unit
  commit : Except PyError Unit
  abort : Aborted
  disconnected : Except PyError Unit
  pathMetrics : Except PyError Unit
  pathClosed : Except PyError Unit
  report : Except PyError Unit

/-- What `fit` returns: the values that go with the reply, the examples, and the record behind its metrics. -/
structure Reply (ρ υ : Type) where
  values : Option υ
  count : ℕ
  record : Option (Record ρ)

section Adapter

variable {ρ υ α : Type} (F : Factory ρ)

/-- The record of a client that has none yet. -/
def Factory.newRecord : Record ρ :=
  ⟨s!"virtual-{F.partitionId}", F.partitionId, F.partitionHash, F.nodeId, 0, 0, "", none, none⟩

/-- The record that a context stands for. -/
def Factory.recordOf (record : Option (Record ρ)) : Record ρ := record.getD F.newRecord

/-- The record is that of the client, its partition and its node. -/
def Factory.Owns (r : Record ρ) : Prop :=
  r.logicalClientId = s!"virtual-{F.partitionId}" ∧ r.partitionHash = F.partitionHash ∧ r.nodeId = F.nodeId

instance (r : Record ρ) : Decidable (F.Owns r) := inferInstanceAs (Decidable (_ ∧ _))

/-- `logical_state` -/
def logicalState : Method (Task ρ) (Record ρ) := do
  let record ← Method.read Task.record
  modify fun s ↦ { s with record := some (F.recordOf record) }
  require (F.Owns (F.recordOf record))
    (.runtimeError "Flower Context identity/partition changed for a logical client")
  return F.recordOf record

def buildClient (w : Surroundings ρ F.scope) : Method (Task ρ) Unit := do
  draw w.data
  rngScope F.seeded F.scope (clientSeed F.sha256 F.seed F.partitionId "model") none (draw w.construct)

/-- `_client_scope` -/
def clientScope (w : Surroundings ρ F.scope) (body : Method (Task ρ) α) : Method (Task ρ) α := do
  buildClient F w
  tryFinally
    (do
      let a ← body
      require (w.pendingContexts = false)
        (.runtimeError "A completed client execution retains an unconsumed prefix context")
      return a)
    (liftM w.closed)

/-- The body of a call with the resources, the random numbers and the executor of its client. -/
def taskScope (w : Surroundings ρ F.scope) (saved : Option (Saved ρ)) (body : Method (Task ρ) α) :
    Method (Task ρ) α := do
  w.resources
  tryFinally
    (rngScope F.seeded F.scope (clientSeed F.sha256 F.seed F.partitionId "training") saved (clientScope F w body))
    (liftM w.released)

/-- The RPCs and the training between the lease and the commit. -/
def trainUnderLease (w : FitAnswers ρ F.scope υ) (config : FitConfig) : Method (Task ρ) (Trained υ) := do
  w.metadata
  rpcIf w.constrained .downloadState w.download
  let received ← w.load
  require (received = config.globalModelHash)
    (.runtimeError "Client did not receive the current global model state")
  w.ownership
  let trained ← draw w.training
  modify fun s ↦ { s with sent := s.sent ++ trained.1.map fun returned ↦ ⟨.trainTail, returned⟩ }
  let t ← trained.2
  require (w.late = false) (.raised "TimeoutError" "Virtual client exceeded its training deadline")
  require (t.numBatches = w.declared)
    (.runtimeError "Virtual client failed to execute every declared minibatch")
  require (t.finite = true) (.raised "FloatingPointError" "Prefix update contains nonfinite model state")
  w.device
  rpcIf w.constrained .uploadState w.upload
  rpc .commit w.commit
  return t

/-- `virtual_abort`, where an error of gRPC is ignored. -/
def abortLease (w : FitAnswers ρ F.scope υ) : Method (Task ρ) Unit :=
  match w.abort with
  | .returned => rpc .abort (.ok ())
  | .refused => modify fun s ↦ { s with sent := s.sent ++ [⟨.abort, false⟩] }
  | .raised e => rpc .abort (.error e)

/-- What is written to the context of the client behind the commit. -/
def Record.advance (r : Record ρ) (config : FitConfig) (t : Trained υ) (rng : Saved ρ) : Record ρ :=
  { r with
    lastRound := config.round
    completedBatches := r.completedBatches + t.numBatches
    lastBoundary := t.boundary
    lastPlanId := some config.planId
    rng := some rng }

/-- The lease of a suffix replica, from `virtual_acquire` to `virtual_commit` or `virtual_abort`. -/
def leased (w : FitAnswers ρ F.scope υ) (config : FitConfig) : Method (Task ρ) (Trained υ) := do
  rpc .acquire w.acquire
  let t ← tryCatch (trainUnderLease F w config) fun e ↦ do
    abortLease F w
    throw e
  modify fun s ↦ { s with
    record := s.record.map fun r ↦ r.advance config t (captureRng F.scope s.streams) }
  return t

/-- The body of `fit` inside its scopes. -/
def fitBody (w : FitAnswers ρ F.scope υ) (config : FitConfig) : Method (Task ρ) (Reply ρ υ) := do
  w.path
  let t ← tryFinally
    (do
      w.connect
      let t ← tryFinally (leased F w config) (liftM w.disconnected)
      w.pathMetrics
      return t)
    (liftM w.pathClosed)
  w.report
  let record ← Method.read Task.record
  return ⟨if w.constrained then none else some t.values, t.count, record⟩

def fit (around : Surroundings ρ F.scope) (w : FitAnswers ρ F.scope υ) (config : FitConfig) (state : Record ρ) :
    Method (Task ρ) (Reply ρ υ) := do
  require (state.lastRound < config.round) (.runtimeError "Logical client round replay is forbidden")
  require (config.clientId = F.nodeId) (.runtimeError "Flower node and split RPC client identities differ")
  require (config.partitionId = F.partitionId) (.runtimeError "Dispatch was assigned to the wrong data partition")
  w.network
  taskScope F around state.rng (fitBody F w config)

/-- `get_properties`: `identity` is for a configuration that asks for the identity alone. -/
def getProperties (around : Surroundings ρ F.scope) (identity : Bool) (work : Draw ρ F.scope Unit) (state : Record ρ) :
    Method (Task ρ) Unit :=
  if identity then return () else taskScope F around state.rng (draw work)

/-- `get_parameters`, which has no scope of random numbers. -/
def getParameters (around : Surroundings ρ F.scope) (work : Draw ρ F.scope υ) : Method (Task ρ) υ := do
  around.resources
  tryFinally (clientScope F around (draw work)) (liftM around.released)

end Adapter

/-! ### Workers and clients -/

/-- A call of the adapter of a client. -/
inductive Call (ρ υ : Type) (F : Factory ρ)
  | fit (around : Surroundings ρ F.scope) (w : FitAnswers ρ F.scope υ) (config : FitConfig)
  | getProperties (around : Surroundings ρ F.scope) (identity : Bool) (work : Draw ρ F.scope Unit)
  | getParameters (around : Surroundings ρ F.scope) (work : Draw ρ F.scope υ)

/-- What a client sends back. -/
inductive Answer (ρ υ : Type)
  | fit (reply : Reply ρ υ)
  | properties
  | parameters (values : υ)

section Run

variable {ρ υ : Type}

section Call

variable {F : Factory ρ}

/-- Whether the profile of the client can be admitted. -/
def Call.admitted : Call ρ υ F → Except PyError Unit
  | .fit around _ _ => around.admitted
  | .getProperties around _ _ => around.admitted
  | .getParameters around _ => around.admitted

/-- Whether the call has a scope of random numbers. -/
def Call.scoped : Call ρ υ F → Bool
  | .getParameters _ _ => false
  | _ => true

/-- The call of an adapter that has read the record of its client. -/
def Call.answer (state : Record ρ) : Call ρ υ F → Method (Task ρ) (Answer ρ υ)
  | .fit around w config => do return .fit (← VirtualClient.fit F around w config state)
  | .getProperties around identity work => do
    VirtualClient.getProperties F around identity work state
    return .properties
  | .getParameters around work => do return .parameters (← VirtualClient.getParameters F around work)

/-- The adapter is made for one message. -/
def Call.run (call : Call ρ υ F) : Method (Task ρ) (Answer ρ υ) := do
  let state ← logicalState F
  call.admitted
  call.answer state

end Call

/-- A message to a client that a worker handles. Whether the context of a call that raises is `kept` is up to Flower. -/
structure Event (ρ υ : Type) (F : ℕ → Factory ρ) where
  client : ℕ
  worker : ℕ
  call : Call ρ υ (F client)
  kept : Bool

/-- The generators of the workers, the contexts of the clients, and what the clients have answered to `fit` and
`get_properties`, with the RPCs that they have sent for it. -/
structure World (ρ υ : Type) where
  streams : ℕ → Streams ρ
  records : ℕ → Option (Record ρ)
  answers : ℕ → List (Except PyError (Answer ρ υ) × List Sent)

section World

/-- No client has a context yet. -/
def World.start (streams : ℕ → Streams ρ) : World ρ υ := ⟨streams, fun _ ↦ none, fun _ ↦ []⟩

variable {F : ℕ → Factory ρ}

def Event.task (event : Event ρ υ F) (w : World ρ υ) : Task ρ :=
  ⟨w.streams event.worker, w.records event.client, []⟩

/-- The context that the next message to a client finds. -/
def contextAfter {α : Type} (kept : Bool) (before : Option (Record ρ)) :
    EStateM.Result PyError (Task ρ) α → Option (Record ρ)
  | .ok _ t => t.record
  | .error _ t => if kept then t.record else before

def Event.recordAfter (event : Event ρ υ F) (w : World ρ υ) : Option (Record ρ) :=
  contextAfter event.kept (w.records event.client) (event.call.run.run (event.task w))

def World.step (w : World ρ υ) (event : Event ρ υ F) : World ρ υ where
  streams := Function.update w.streams event.worker (event.call.run.after (event.task w)).streams
  records := Function.update w.records event.client (event.recordAfter w)
  answers := Function.update w.answers event.client (w.answers event.client ++
    if event.call.scoped then
      [(event.call.run.value (event.task w), (event.call.run.after (event.task w)).sent)]
    else [])

def World.runAll (w : World ρ υ) (events : List (Event ρ υ F)) : World ρ υ := events.foldl World.step w

end World

end Run

end SplitFleet.VirtualClient
