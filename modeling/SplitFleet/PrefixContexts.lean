import SplitFleet.ClientRuntime
import SplitFleet.Lib.Hoare

set_option autoImplicit false

namespace SplitFleet.SplitClient

open Lib

/-- The identity and the version that a gradient carries. -/
structure Gradient where
  key : PrefixContextKey
  modelVersion : ℤ
  deriving DecidableEq

/-- What the store was asked for, with the gradient in hand when a context is taken out. -/
inductive StoreEvent
  | put (key : PrefixContextKey) (context : ℕ)
  | pop (key : PrefixContextKey) (context : ℕ) (gradient : Gradient)

/-- A client in a process, with the text of the identity of its proxy. -/
structure Execution where
  client : Client
  serverModelProxy : Option String
  /-- The number of step ids drawn so far. -/
  drawn : ℕ
  log : List StoreEvent

/-- What the model, the data and the server do with one batch. -/
structure BatchAnswers where
  accepted : Except PyError Bool
  boundary : Except PyError ℕ
  gradient : Except PyError Gradient
  backward : ℕ → Except PyError Unit

structure EvaluationAnswers where
  accepted : Except PyError Bool
  boundary : Except PyError ℕ
  response : Except PyError Unit

namespace Execution

def contexts (s : Execution) : Dict PrefixContextKey ℕ := s.client.contexts

/-- The contexts after an event. -/
def store (contexts : Dict PrefixContextKey ℕ) (event : StoreEvent) (s : Execution) : Execution :=
  { s with client := { s.client with contexts := contexts }, log := s.log ++ [event] }

end Execution

section Store

def PrefixContextKey.repr (key : PrefixContextKey) : String :=
  s!"PrefixContextKey(round_id={key.roundId}, client_id={pyRepr key.clientId}, step_id={pyRepr key.stepId})"

/-- `PrefixContextStore.put` -/
def put (key : PrefixContextKey) (context : ℕ) : Method Execution Unit := do
  let s ← get
  require (s.contexts.get? key = none) (.keyError s!"Prefix context already exists for {key.repr}")
  modify fun s ↦ s.store (s.contexts.insert key context) (.put key context)

/-- `PrefixContextStore.pop`, for a gradient. -/
def pop (key : PrefixContextKey) (gradient : Gradient) : Method Execution ℕ := do
  let s ← get
  match s.contexts.get? key with
  | none => throw (.keyError s!"No pending prefix context for {key.repr}")
  | some context => do
    modify fun s ↦ s.store (s.contexts.erase key) (.pop key context gradient)
    return context

end Store

section Client

variable (env : Env) (uuid : ℕ → String)

/-- `uuid.uuid4().hex` -/
def newStep : Method Execution String := do
  let s ← get
  modify fun s ↦ { s with drawn := s.drawn + 1 }
  return uuid s.drawn

def onClient {α : Type} (x : Method Client α) : Method Execution α :=
  Method.within Execution.client (fun s c ↦ { s with client := c }) x

/-- `str(config.get("__hidden_client_id__", getattr(proxy, "cid", "")))` -/
def clientIdOf (config : Config) : Method Execution String := do
  let s ← get
  match s.serverModelProxy with
  | none => throw (.runtimeError "AutoSplitSplitLearningClient requires a server_model_proxy.")
  | some cid => return textOf env.builtins config "__hidden_client_id__" cid

/-- An accepted batch of `fit`. -/
def trainBatch (round : ℤ) (clientId : String) (w : BatchAnswers) : Method Execution Unit := do
  let boundary ← w.boundary
  let step ← newStep uuid
  put ⟨round, clientId, step⟩ boundary
  let gradient ← w.gradient
  require (gradient.key = ⟨round, clientId, step⟩) (.runtimeError "Gradient response step identity mismatch")
  require (gradient.modelVersion = round) (.runtimeError "Gradient response model version mismatch")
  let context ← pop ⟨round, clientId, step⟩ gradient
  liftM (w.backward context)

def fitBatch (round : ℤ) (clientId : String) (w : BatchAnswers) : Method Execution Unit := do
  let accepted ← w.accepted
  if accepted then trainBatch uuid round clientId w else return ()

def evaluateBatch (w : EvaluationAnswers) : Method Execution Unit := do
  let accepted ← w.accepted
  if accepted then do
    let _ ← w.boundary
    let _ ← newStep uuid
    liftM w.response
  else return ()

/-- `fit`: what is negotiated before the batches, the batches, and the report after them. -/
def fit (w : Answers) (negotiated : Except PyError Unit) (batches : List BatchAnswers) (reported : Except PyError Unit)
    (config : Config) : Method Execution Unit := do
  let _ ← onClient (prepareRound env w config true)
  negotiated
  let round ← modelVersion env config 0
  let clientId ← clientIdOf env config
  let _ ← planIdOf env.builtins config
  batches.forM (fitBatch uuid round clientId)
  liftM reported

def evaluate (w : Answers) (batches : List EvaluationAnswers) (reported : Except PyError Unit) (config : Config) :
    Method Execution Unit := do
  let _ ← onClient (prepareRound env w config false)
  let _ ← modelVersion env config 0
  let _ ← clientIdOf env config
  let _ ← planIdOf env.builtins config
  batches.forM (evaluateBatch uuid)
  liftM reported

/-- A call that is made inside a binding. -/
inductive TaskCall
  | fit (w : Answers) (negotiated : Except PyError Unit) (batches : List BatchAnswers) (reported : Except PyError Unit)
      (config : Config)
  | evaluate (w : Answers) (batches : List EvaluationAnswers) (reported : Except PyError Unit) (config : Config)

def TaskCall.run : TaskCall → Method Execution Unit
  | .fit w negotiated batches reported config => SplitClient.fit env uuid w negotiated batches reported config
  | .evaluate w batches reported config => SplitClient.evaluate env uuid w batches reported config

/-! ### The lifecycle of an execution -/

/-- `current_round_id` -/
def currentRoundId : Method Execution ℤ := do
  let s ← get
  liftM (modelVersion env s.client.roundConfig 0)

def setServerModelProxy (proxy : Option String) : Method Execution Unit :=
  modify fun s ↦ { s with serverModelProxy := proxy }

/-- `discard(core.current_round_id)`, and the previous proxy again. -/
def leaveBinding (previous : Option String) : Method Execution Unit := do
  let round ← currentRoundId env
  modify fun s ↦ { s with client := s.client.discardRound round }
  setServerModelProxy previous

/-- `server_model_binding`: an exception of a call leaves it. -/
def serverModelBinding (cid : String) (calls : List TaskCall) (closed cancelled : Except PyError Unit) :
    Method Execution Unit := do
  let s ← get
  setServerModelProxy (some cid)
  tryFinally
    (tryCatch
      (do
        calls.forM (TaskCall.run env uuid)
        liftM closed)
      fun e ↦ do
        cancelled
        throw e)
    (leaveBinding env s.serverModelProxy)

def bindExecutionContext : Method Execution Unit := do
  let s ← get
  require (s.contexts.size = 0) (.runtimeError "Cannot bind a new task with an unconsumed prefix context")
  modify fun s ↦ { s with
    serverModelProxy := none
    client := { s.client with roundConfig := .empty, receipt := none } }

def retireExecution : Method Execution Unit := do
  let s ← get
  require (s.contexts.size = 0) (.runtimeError "A completed execution retains an unconsumed prefix context")
  modify fun s ↦ { s with
    serverModelProxy := none
    client := { s.client with roundConfig := .empty, receipt := none, hasCalibrationTargets := false } }

def closeExecution : Method Execution Unit := do
  retireExecution
  modify fun s ↦ { s with client := s.client.dropPrewarmed.clearRuntimes }

def setPreviousPlanHint (planId : String) : Method Execution Unit :=
  modify fun s ↦ { s with
    client := { s.client with roundConfig := s.client.roundConfig.insert "autosplit_plan_id" (.str planId) } }

/-- What may happen to an executor in its process. -/
inductive Event
  | binding (cid : String) (calls : List TaskCall) (closed cancelled : Except PyError Unit)
  | bindExecutionContext
  | retireExecution
  | closeExecution
  | setPreviousPlanHint (planId : String)

def Event.run : Event → Method Execution Unit
  | .binding cid calls closed cancelled => serverModelBinding env uuid cid calls closed cancelled
  | .bindExecutionContext => SplitClient.bindExecutionContext
  | .retireExecution => SplitClient.retireExecution
  | .closeExecution => SplitClient.closeExecution
  | .setPreviousPlanHint planId => SplitClient.setPreviousPlanHint planId

/-- The executor after the events, whether they returned or raised. -/
def history (events : List Event) (s : Execution) : Execution :=
  events.foldl (fun s event ↦ (event.run env uuid).after s) s

def newExecutor (maxCachedRuntimes : Option ℕ) (hasCalibrationTargets : Bool) : Execution :=
  ⟨fresh maxCachedRuntimes hasCalibrationTargets, none, 0, []⟩

/-- `pending_context_count` -/
def pendingContextCount (s : Execution) : ℕ := s.contexts.size

end Client

end SplitFleet.SplitClient
