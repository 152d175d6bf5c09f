import SplitFleet.RequestGroup
import Mathlib.Data.Finset.Card

set_option autoImplicit false

namespace SplitFleet.SuffixService

open Lib RequestGroup

/-! ### Requests -/

abbrev Token := ℕ

inductive Method
  | probe
  | trainTail
  | evaluateTail
  | virtualAcquire
  | virtualCommit
  | virtualAbort
  | virtualDownloadState
  | virtualUploadState
  | other (name : String)
  deriving DecidableEq

def Method.name : Method → String
  | probe => "splitfleet_transport_probe"
  | trainTail => "train_tail"
  | evaluateTail => "evaluate_tail"
  | virtualAcquire => "virtual_acquire"
  | virtualCommit => "virtual_commit"
  | virtualAbort => "virtual_abort"
  | virtualDownloadState => "virtual_download_state"
  | virtualUploadState => "virtual_upload_state"
  | other name => name

/-- An RPC: the bearer token, the identity of the boundary and the decoded upload are absent where
there is none or it cannot be decoded. -/
structure Request (π : Type) where
  cid : Cid
  method : Method
  token : Option Token
  probeRound : ℕ
  boundary : Option (Cid × ℕ)
  upload : Option π

/-! ### Coroutines -/

/-- What a call of `execute` is for. -/
inductive Context
  | acquire
  | cleanup
  | finish (success : Bool)
  | compute (g : ℕ) (callback : Option Callback)

/-- The two awaits of `execute`: for a slot of the lane, and for the shielded future. -/
inductive Exec
  | slots
  | shield (job : ℕ) (cancelled : Bool)

/-- The await that a request is at while it holds the lock of its replica. -/
inductive Inside
  | abort
  | waitLease
  | leaseAbort
  | waitSlot (semaphore : ℕ)
  | exec (context : Context) (e : Exec)
  | joining
  | waitReady (g : ℕ) (callback : Option Callback)
  | waitEvent

/-- The await that a request is at. -/
inductive Pc
  | new
  | abort
  | waitLock (sid : Sid) (lock : ℕ)
  | inside (sid : Sid) (lock : ℕ) (i : Inside)
  | done

/-- The function that an executor is given. -/
inductive Work
  | acquireReplica (sid : Sid)
  | finishReplica (sid : Sid) (success : Bool)
  | computeGroup (sid : Sid) (g : ℕ)
  deriving DecidableEq

inductive Phase
  | queued
  | running
  | admitted
  | effected
  | done (ok : Bool)
  deriving DecidableEq

/-- A future of an executor. `reconcile` owns those without an owner. -/
structure Job where
  owner : Option ℕ
  work : Work
  phase : Phase

inductive Reconcile
  | idle
  | gather (requests : Finset ℕ)
  | drain (computations : Finset ℕ)
  | loop (rest : Finset Sid)
  | slots (sid : Sid) (rest : Finset Sid)
  | shield (job : ℕ) (sid : Sid) (rest : Finset Sid)

/-! ### The service -/

inductive Act
  | takeSlot (sid : Sid)
  | acquireReplica (sid : Sid)
  | finishReplica (sid : Sid) (success : Bool)
  | computeGroup (sid : Sid) (cids : List Cid)
  | upload (cid : Cid)

/-- What was done for a request, and the state of the rounds at that time. -/
structure Effect where
  token : Option Token
  act : Act
  epoch : ℕ
  openRound : Bool
  mapping : Dict Cid Sid

/-- A `LeasedSuffixServicer` with its manager, its strategy and the coroutines of its requests, which
are named by number. Locks and semaphores are objects, named by number as well. -/
structure World (π : Type) where
  capacity : ℕ
  tokens : Dict Cid Token
  networkProbeTokens : Dict Cid Token
  networkProbeRound : ℕ
  roundId : ℕ
  /-- The semaphore that `_replica_slots` refers to. -/
  replicaSlots : ℕ
  slots : ℕ → ℕ
  leases : Finset Sid
  leaseLock : Option ℕ
  replicaLocks : Dict Sid ℕ
  locks : ℕ → Option ℕ
  lockCount : ℕ
  requests : Finset ℕ
  prefixUploads : Dict Cid π
  controlSlots : ℕ
  executionSlots : ℕ
  computations : Finset ℕ
  /-- The requests whose event is set. -/
  answered : Finset ℕ
  routing : Routing (Request π)
  live : Finset Sid
  attempted : Finset Sid
  pcs : ℕ → Pc
  jobs : ℕ → Option Job
  jobCount : ℕ
  reconcile : Reconcile
  /-- The sids that have been granted a slot and have not given it back. -/
  holders : Finset Sid
  /-- The client and the round that a token was issued to. -/
  issuedTo : Token → Option (Cid × ℕ)
  nextToken : ℕ
  epoch : ℕ
  /-- From `prepare_round` until `reconcile` returns. -/
  openRound : Bool
  effects : List Effect

variable {π : Type}

namespace World

def start (capacity concurrency : ℕ) (batch : Bool) : World π where
  capacity := capacity
  tokens := .empty
  networkProbeTokens := .empty
  networkProbeRound := 0
  roundId := 0
  replicaSlots := 0
  slots := fun _ ↦ capacity
  leases := ∅
  leaseLock := none
  replicaLocks := .empty
  locks := fun _ ↦ none
  lockCount := 0
  requests := ∅
  prefixUploads := .empty
  controlSlots := capacity
  executionSlots := concurrency
  computations := ∅
  answered := ∅
  routing := .start batch .empty []
  live := ∅
  attempted := ∅
  pcs := fun _ ↦ .new
  jobs := fun _ ↦ none
  jobCount := 0
  reconcile := .idle
  holders := ∅
  issuedTo := fun _ ↦ none
  nextToken := 0
  epoch := 0
  openRound := false
  effects := []

/-- The free slots for replicas. -/
def free (w : World π) : ℕ := w.slots w.replicaSlots

def setPc (w : World π) (t : ℕ) (pc : Pc) : World π := { w with pcs := Function.update w.pcs t pc }

def enter (w : World π) (t : ℕ) (sid : Sid) (l : ℕ) (i : Inside) : World π := w.setPc t (.inside sid l i)

/-- The end of a request that waits for the lock of its replica. -/
def unregister (w : World π) (t : ℕ) : World π := { w.setPc t .done with requests := w.requests.erase t }

def setLock (w : World π) (l : ℕ) (holder : Option ℕ) : World π :=
  { w with locks := Function.update w.locks l holder }

/-- The end of a request that holds the lock of its replica. -/
def leave (w : World π) (t l : ℕ) : World π := (w.unregister t).setLock l none

def log (w : World π) (token : Option Token) (act : Act) : World π :=
  { w with effects := ⟨token, act, w.epoch, w.openRound, w.routing.cidToSidMapping⟩ :: w.effects }

def setLeases (w : World π) (leases : Finset Sid) : World π := { w with leases := leases }

def setLeaseLock (w : World π) (holder : Option ℕ) : World π := { w with leaseLock := holder }

def setRouting (w : World π) (r : Routing (Request π)) : World π := { w with routing := r }

def storeUpload (w : World π) (cid : Cid) (parameters : π) : World π :=
  { w with prefixUploads := w.prefixUploads.insert cid parameters }

def setReconcile (w : World π) (r : Reconcile) : World π := { w with reconcile := r }

/-- `_replica_slots.acquire` returns. -/
def takeSlot (w : World π) (s : ℕ) (sid : Sid) : World π :=
  { w with
    slots := Function.update w.slots s (w.slots s - 1)
    holders := insert sid w.holders }

/-- `_release_replica_slot`. -/
def releaseReplicaSlot (w : World π) (sid : Sid) : World π :=
  if sid ∉ w.live ∧ sid ∈ w.leases then
    { w with
      leases := w.leases.erase sid
      holders := w.holders.erase sid
      slots := Function.update w.slots w.replicaSlots (w.slots w.replicaSlots + 1) }
  else w

/-- `self._replica_locks.setdefault(sid, asyncio.Lock())`. -/
def replicaLock (w : World π) (sid : Sid) : World π × ℕ :=
  match w.replicaLocks.get? sid with
  | some l => (w, l)
  | none => ({ w with
      replicaLocks := w.replicaLocks.insert sid w.lockCount
      locks := Function.update w.locks w.lockCount none
      lockCount := w.lockCount + 1 }, w.lockCount)

def register (w : World π) (t : ℕ) (sid : Sid) (l : ℕ) : World π :=
  { w.setPc t (.waitLock sid l) with requests := insert t w.requests }

/-- All events of a group are set and the callback of its leader runs. -/
def settleGroup (w : World π) (g : ℕ) (callback : Option Callback) : World π :=
  { w with
    answered := w.answered ∪ (w.routing.groups g).events.toFinset
    routing := w.routing.runCallback callback }

end World

/-! ### `execute` -/

def Context.isControl : Context → Bool
  | compute _ _ => false
  | _ => true

/-- The function that `execute` submits for a request on `sid`. -/
def Context.work (sid : Sid) (r : Routing (Request π)) : Context → Work
  | acquire => .acquireReplica sid
  | cleanup => .finishReplica sid false
  | finish success => .finishReplica sid success
  | compute g _ => .computeGroup (r.groups g).sid g

namespace World

def lane (w : World π) (control : Bool) : ℕ := if control then w.controlSlots else w.executionSlots

def setLane (w : World π) (control : Bool) (n : ℕ) : World π :=
  { w with
    controlSlots := if control then n else w.controlSlots
    executionSlots := if control then w.executionSlots else n }

/-- A slot of the lane is taken and the executor gets the function. -/
def submit (w : World π) (owner : Option ℕ) (control : Bool) (work : Work) : World π :=
  { w.setLane control (w.lane control - 1) with
    jobs := Function.update w.jobs w.jobCount (some ⟨owner, work, .queued⟩)
    jobCount := w.jobCount + 1
    computations := insert w.jobCount w.computations }

/-- The `finally` blocks of `execute`. -/
def retire (w : World π) (control : Bool) (j : ℕ) : World π :=
  { w.setLane control (w.lane control + 1) with computations := w.computations.erase j }

/-- What the caller of `execute` does when it returns or, if not `ok`, raises. -/
def afterExecute (w : World π) (t : ℕ) (sid : Sid) (l : ℕ) (ok : Bool) : Context → World π
  | .acquire => if ok then w.leave t l else w.enter t sid l (.exec .cleanup .slots)
  | .cleanup | .finish _ => (w.releaseReplicaSlot sid).leave t l
  | .compute g callback =>
    if ok then (w.settleGroup g callback).enter t sid l .waitEvent
    else (w.settleGroup g callback).leave t l

/-! ### `UnaryRequest` -/

/-- The request queues for the lock of the replica that its client has in this round. -/
def enqueue (w : World π) (t : ℕ) (r : Request π) : World π :=
  match w.routing.cidToSidMapping.get? r.cid with
  | none => w.setPc t .abort
  | some sid => (w.replicaLock sid).1.register t sid (w.replicaLock sid).2

/-- Until the request waits for the lock of its replica. -/
def begin (w : World π) (t : ℕ) (r : Request π) : World π :=
  if r.method = .probe then
    if w.networkProbeTokens.get? r.cid = none ∨ w.networkProbeTokens.get? r.cid ≠ r.token ∨
      r.probeRound ≠ w.networkProbeRound then w.setPc t .abort else w.setPc t .done
  else if w.tokens.get? r.cid = none ∨ w.tokens.get? r.cid ≠ r.token then w.setPc t .abort
  else
    match r.method with
    | .other _ => w.setPc t .abort
    | _ => w.enqueue t r

/-- A split step is computed only for the boundary of the client's own task in this round. -/
def checkBoundary (w : World π) (t : ℕ) (r : Request π) (sid : Sid) (l : ℕ) : World π :=
  match r.boundary with
  | none => w.leave t l
  | some boundary =>
    if boundary = (r.cid, w.roundId) then w.enter t sid l .joining else w.enter t sid l .abort

/-- `_replica_request` up to its first await. -/
def replicaRequest (w : World π) (t : ℕ) (r : Request π) (sid : Sid) (l : ℕ) : World π :=
  if r.method = .virtualAcquire then w.enter t sid l .waitLease
  else if sid ∉ w.live then w.enter t sid l .abort
  else
    match r.method with
    | .virtualCommit => w.enter t sid l (.exec (.finish true) .slots)
    | .virtualAbort => w.enter t sid l (.exec (.finish false) .slots)
    | .virtualUploadState =>
      match r.upload with
      | none => w.leave t l
      | some parameters => ((w.log r.token (.upload r.cid)).storeUpload r.cid parameters).leave t l
    | .trainTail | .evaluateTail => w.checkBoundary t r sid l
    | _ => w.leave t l

/-- The lock of the replica is acquired. -/
def locked (w : World π) (t : ℕ) (r : Request π) (sid : Sid) (l : ℕ) : World π :=
  if w.tokens.get? r.cid ≠ r.token then (w.setLock l (some t)).enter t sid l .abort
  else (w.setLock l (some t)).replicaRequest t r sid l

/-- The locked section of `_compute_response`; `requestId` is what `uuid4` gives. -/
def join (w : World π) (t : ℕ) (r : Request π) (sid : Sid) (l : ℕ) (requestId : String) : World π :=
  match w.routing.join t r.cid r.method.name requestId r with
  | none => w.leave t l
  | some (routing, g, callback, isNew) =>
    (w.setRouting routing).enter t sid l (if isNew then .waitReady g callback else .waitEvent)

/-- What a request does when its await inside the lock is over; no answer if it is not. -/
def resumeInside (w : World π) (t : ℕ) (r : Request π) (sid : Sid) (l : ℕ) (requestId : String) :
    Inside → Option (World π)
  | .abort => some (w.leave t l)
  | .waitLease =>
    if w.leaseLock ≠ none then none
    else if sid ∈ w.leases ∨ sid ∈ w.attempted then
      some ((w.setLeaseLock (some t)).enter t sid l .leaseAbort)
    else some ((w.setLeases (insert sid w.leases)).enter t sid l (.waitSlot w.replicaSlots))
  | .leaseAbort => some ((w.setLeaseLock none).leave t l)
  | .waitSlot s =>
    if w.slots s = 0 then none
    else some (((w.log r.token (.takeSlot sid)).takeSlot s sid).enter t sid l (.exec .acquire .slots))
  | .exec context .slots =>
    if w.lane context.isControl = 0 then none
    else some ((w.submit (some t) context.isControl (context.work sid w.routing)).enter t sid l
      (.exec context (.shield w.jobCount false)))
  | .exec context (.shield j cancelled) =>
    match w.jobs j with
    | some ⟨_, _, .done ok⟩ =>
      some ((w.retire context.isControl j).afterExecute t sid l (ok && !cancelled) context)
    | _ => none
  | .joining => some (w.join t r sid l requestId)
  | .waitReady g callback =>
    if (w.routing.groups g).ready then some (w.enter t sid l (.exec (.compute g callback) .slots))
    else none
  | .waitEvent => if t ∈ w.answered then some (w.leave t l) else none

def resume (w : World π) (t : ℕ) (r : Request π) (requestId : String) : Option (World π) :=
  match w.pcs t with
  | .new => some (w.begin t r)
  | .abort => some (w.setPc t .done)
  | .waitLock sid l => if w.locks l = none then some (w.locked t r sid l) else none
  | .inside sid l i => w.resumeInside t r sid l requestId i
  | .done => none

/-- A `CancelledError` is raised at the await inside the lock. -/
def cancelInside (w : World π) (t : ℕ) (sid : Sid) (l : ℕ) : Inside → World π
  | .abort | .waitLease | .joining | .waitEvent => w.leave t l
  | .leaseAbort => (w.setLeaseLock none).leave t l
  | .waitSlot _ => (w.setLeases (w.leases.erase sid)).leave t l
  | .exec context .slots => w.afterExecute t sid l false context
  | .exec context (.shield j _) => w.enter t sid l (.exec context (.shield j true))
  | .waitReady g callback => (w.settleGroup g callback).leave t l

def cancel (w : World π) (t : ℕ) : Option (World π) :=
  match w.pcs t with
  | .new | .abort => some (w.setPc t .done)
  | .waitLock _ _ => some (w.unregister t)
  | .inside sid l i => some (w.cancelInside t sid l i)
  | .done => none

/-! ### Executors -/

def setPhase (w : World π) (j : ℕ) (job : Job) (phase : Phase) : World π :=
  { w with jobs := Function.update w.jobs j (some { job with phase := phase }) }

/-- Only what is done for a request is logged. -/
def logFor (w : World π) (req : ℕ → Request π) (owner : Option ℕ) (act : Act) : World π :=
  match owner with
  | none => w
  | some t => w.log (req t).token act

def setLive (w : World π) (live : Finset Sid) : World π := { w with live := live }

def setAttempted (w : World π) (attempted : Finset Sid) : World π := { w with attempted := attempted }

/-- The next step of a submitted function, which raises if not `ok`. Calls of the manager change what
its event loop can see in one place each: `acquire_replica` where it admits the sid and where it
enters it in `live`, `finish_replica` where it takes it out. -/
def work (w : World π) (req : ℕ → Request π) (j : ℕ) (ok : Bool) : Option (World π) :=
  match w.jobs j with
  | none => none
  | some job =>
    match job.phase, job.work with
    | .done _, _ => none
    | .queued, .computeGroup sid g =>
      some ((w.logFor req job.owner (.computeGroup sid (w.routing.groups g).cids)).setPhase j job .running)
    | .queued, _ => some (w.setPhase j job .running)
    | .running, .acquireReplica sid =>
      if ok ∧ sid ∉ w.attempted then
        some (((w.logFor req job.owner (.acquireReplica sid)).setAttempted (insert sid w.attempted)).setPhase
          j job .admitted)
      else some (w.setPhase j job (.done false))
    | .running, .finishReplica sid success =>
      if sid ∉ w.live then some (w.setPhase j job (.done true))
      else if ok then
        some (((w.logFor req job.owner (.finishReplica sid success)).setLive (w.live.erase sid)).setPhase
          j job .effected)
      else some (w.setPhase j job (.done false))
    | .admitted, .acquireReplica sid =>
      if ok then
        some (((w.logFor req job.owner (.acquireReplica sid)).setLive (insert sid w.live)).setPhase
          j job .effected)
      else some (w.setPhase j job (.done false))
    | _, _ => some (w.setPhase j job (.done ok))

/-! ### Rounds -/

def prepareRound (w : World π) (cids : List Cid) (roundId : ℕ) (mapping : Dict Cid Sid) : World π :=
  { w with
    networkProbeTokens := .empty
    tokens := .ofList (cids.zipIdx w.nextToken)
    nextToken := w.nextToken + cids.length
    issuedTo := fun token ↦ if token < w.nextToken then w.issuedTo token
      else cids[token - w.nextToken]?.map fun cid ↦ (cid, w.epoch + 1)
    epoch := w.epoch + 1
    openRound := true
    roundId := roundId
    prefixUploads := .empty
    routing := { w.routing with
      cidToSidMapping := mapping
      roundActiveClients := cids
      requestsState := .empty }
    live := ∅
    attempted := ∅ }

def prepareNetworkProbes (w : World π) (cids : List Cid) (roundId : ℕ) : World π :=
  { w with
    networkProbeTokens := .ofList (cids.zipIdx w.nextToken)
    nextToken := w.nextToken + cids.length
    networkProbeRound := roundId }

/-- The last statements of `reconcile`. -/
def closeRound (w : World π) : World π :=
  { w with
    leases := ∅
    holders := ∅
    replicaLocks := .empty
    slots := Function.update w.slots (w.replicaSlots + 1) w.capacity
    replicaSlots := w.replicaSlots + 1
    openRound := false
    reconcile := .idle }

def isDone (w : World π) (t : ℕ) : Bool :=
  match w.pcs t with
  | .done => true
  | _ => false

def jobDone (w : World π) (j : ℕ) : Bool :=
  match w.jobs j with
  | some ⟨_, _, .done _⟩ => true
  | _ => false

/-- The next step of `reconcile`; `sid` is what its loop comes to next. -/
def reconcileStep (w : World π) (sid : Sid) : Option (World π) :=
  match w.reconcile with
  | .idle => some { w with
      tokens := .empty
      networkProbeTokens := .empty
      reconcile := .gather w.requests }
  | .gather requests =>
    if ∀ t ∈ requests, w.isDone t then some (w.setReconcile (.drain w.computations)) else none
  | .drain computations =>
    if ∀ j ∈ computations, w.jobDone j then some (w.setReconcile (.loop w.live)) else none
  | .loop rest =>
    if rest = ∅ then some w.closeRound
    else if sid ∈ rest then some (w.setReconcile (.slots sid (rest.erase sid))) else none
  | .slots sid rest =>
    if w.lane true = 0 then none
    else some ((w.submit none true (.finishReplica sid false)).setReconcile (.shield w.jobCount sid rest))
  | .shield j _ rest =>
    match w.jobs j with
    | some ⟨_, _, .done ok⟩ =>
      some ((w.retire true j).setReconcile (if ok then .loop rest else .idle))
    | _ => none

end World

inductive Action
  | resume (t : ℕ) (requestId : String)
  | cancel (t : ℕ)
  | work (j : ℕ) (ok : Bool)
  | reconcile (sid : Sid)
  | prepareRound (cids : List Cid) (roundId : ℕ) (mapping : Dict Cid Sid)
  | prepareNetworkProbes (cids : List Cid) (roundId : ℕ)

/-- One atomic step; `req` gives the requests that ever come, by number. A round is prepared after the
last one's `reconcile` has returned. -/
def step (req : ℕ → Request π) (w : World π) : Action → Option (World π)
  | .resume t requestId => w.resume t (req t) requestId
  | .cancel t => w.cancel t
  | .work j ok => w.work req j ok
  | .reconcile sid => w.reconcileStep sid
  | .prepareRound cids roundId mapping =>
    match w.reconcile, w.openRound with
    | .idle, false => some (w.prepareRound cids roundId mapping)
    | _, _ => none
  | .prepareNetworkProbes cids roundId => some (w.prepareNetworkProbes cids roundId)

inductive Reachable (req : ℕ → Request π) : World π → Prop
  | start (capacity concurrency : ℕ) (batch : Bool) : Reachable req (.start capacity concurrency batch)
  | step {w w' : World π} (a : Action) (h : Reachable req w) (hs : step req w a = some w') :
      Reachable req w'

end SplitFleet.SuffixService
