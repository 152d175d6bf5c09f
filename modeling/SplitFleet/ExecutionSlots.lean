import SplitFleet.Lib.Semaphore
import Mathlib.Data.Finset.Basic

set_option autoImplicit false

namespace SplitFleet.ExecutionSlots

open Lib

/-! ### Telemetry -/

structure LiveServerTelemetry where
  active : ℤ
  queued : ℤ
  deriving DecidableEq

namespace LiveServerTelemetry

def enqueued (m : LiveServerTelemetry) : LiveServerTelemetry := { m with queued := m.queued + 1 }

def cancelQueued (m : LiveServerTelemetry) : LiveServerTelemetry := { m with queued := m.queued - 1 }

def started (m : LiveServerTelemetry) : LiveServerTelemetry :=
  { m with queued := m.queued - 1, active := m.active + 1 }

def finished (m : LiveServerTelemetry) : LiveServerTelemetry := { m with active := m.active - 1 }

end LiveServerTelemetry

/-! ### Calls -/

/-- What the handlers of `execute` tell apart: a `CancelledError`, an `Exception`, and the rest of
`BaseException`. -/
inductive Raised
  | cancelledError
  | exception
  | baseException
  deriving DecidableEq

variable {ρ : Type}

/-- The future of `run_in_executor`: first where the executor is with it, and last what the event loop
has been told. -/
inductive Future (ρ : Type)
  | queued
  | running
  | ended (outcome : Except Raised ρ)
  | dropped
  | done (outcome : Except Raised ρ)
  | cancelled

def Future.finished : Future ρ → Bool
  | done _ | cancelled => true
  | _ => false

/-- The await that a call of `execute` is at. `interrupted` means that its task is to run next with a
`CancelledError`, and `cancelled` that one was kept for later. -/
inductive Pc (ρ : Type)
  | acquiring (interrupted : Bool)
  | shielding (interrupted cancelled : Bool)
  /-- The loop goes round without an await. -/
  | spinning
  | done (result : Except Raised ρ)

structure Call (ρ : Type) where
  control : Bool
  pc : Pc ρ
  future : Option (Future ρ)

def Call.new (control : Bool) : Call ρ := ⟨control, .acquiring false, none⟩

/-- `cancel_futures`, for a lane. -/
def Call.drop (lane : Bool) : Call ρ → Call ρ
  | ⟨control, pc, some .queued⟩ => ⟨control, pc, some (if control = lane then .dropped else .queued)⟩
  | c => c

/-! ### The servicer -/

/-- A `ServerModelServicer`, its two lanes and the calls of `execute`, which are named by their numbers.
A lane is the control lane or not. The times that are measured on the way are left out. -/
structure Servicer (ρ : Type) where
  slots : Bool → Semaphore ℕ
  /-- The executors that have been shut down. -/
  closed : Bool → Bool
  /-- The calls whose futures are in `_computations`. -/
  computations : Finset ℕ
  queuedExecutions : ℤ
  activeExecutions : ℤ
  peakExecutions : ℤ
  telemetry : Option LiveServerTelemetry
  calls : List (Call ρ)

namespace Servicer

def start (concurrency : Bool → ℕ) (telemetry : Bool) : Servicer ρ where
  slots control := ⟨concurrency control, []⟩
  closed _ := false
  computations := ∅
  queuedExecutions := 0
  activeExecutions := 0
  peakExecutions := 0
  telemetry := if telemetry then some ⟨0, 0⟩ else none
  calls := []

variable (w : Servicer ρ)

def setSlots (control : Bool) (s : Semaphore ℕ) : Servicer ρ :=
  { w with slots := Function.update w.slots control s }

@[simp] theorem slots_setSlots_self (control : Bool) (s : Semaphore ℕ) : (w.setSlots control s).slots control = s :=
  Function.update_self ..

theorem slots_setSlots_of_ne {lane control : Bool} (h : lane ≠ control) (s : Semaphore ℕ) :
    (w.setSlots control s).slots lane = w.slots lane := Function.update_of_ne h ..

def setCall (t : ℕ) (c : Call ρ) : Servicer ρ := { w with calls := w.calls.set t c }

def addCall (c : Call ρ) : Servicer ρ := { w with calls := w.calls ++ [c] }

/-- `execute` up to `slots.acquire()`. -/
def enqueue (control : Bool) : Servicer ρ :=
  if control then w
  else { w with
    queuedExecutions := w.queuedExecutions + 1
    telemetry := w.telemetry.map .enqueued }

/-- `slots.acquire()` raises. -/
def acquireFailed (t : ℕ) (control : Bool) : Servicer ρ :=
  let w := w.setCall t ⟨control, .done (.error .cancelledError), none⟩
  if control then w
  else { w with
    telemetry := w.telemetry.map .cancelQueued
    queuedExecutions := w.queuedExecutions - 1 }

/-- From the return of `slots.acquire()` to `run_in_executor`. -/
def started (control : Bool) : Servicer ρ :=
  if control then w
  else { w with
    queuedExecutions := w.queuedExecutions - 1
    telemetry := w.telemetry.map .started
    activeExecutions := w.activeExecutions + 1
    peakExecutions := max w.peakExecutions (w.activeExecutions + 1) }

/-- The `finally` blocks after the computation. -/
def leave (t : ℕ) (control : Bool) (future : Option (Future ρ)) (result : Except Raised ρ) : Servicer ρ :=
  let w := { w with computations := w.computations.erase t }
  let w := if control then w
    else { w with
      activeExecutions := w.activeExecutions - 1
      telemetry := w.telemetry.map .finished }
  (w.setSlots control (w.slots control).release).setCall t ⟨control, .done result, future⟩

/-- What follows the return of `slots.acquire()`. An executor that was shut down refuses the function. -/
def acquired (t : ℕ) (control : Bool) : Servicer ρ :=
  let w := w.started control
  if w.closed control then w.leave t control none (.error .exception)
  else { w with
    computations := insert t w.computations
    calls := w.calls.set t ⟨control, .shielding false false, some .queued⟩ }

/-- `await asyncio.shield(future)` and what follows, with what `cancelled` is. -/
def awaitShield (t : ℕ) (control : Bool) (future : Future ρ) (cancelled : Bool) : Servicer ρ :=
  match future with
  | .done (.ok result) =>
    w.leave t control future (if cancelled then .error .cancelledError else .ok result)
  | .done (.error .exception) =>
    w.leave t control future (.error (if cancelled then .cancelledError else .exception))
  | .done (.error .baseException) => w.leave t control future (.error .baseException)
  -- `future.cancelled()` is false for a function that raised `CancelledError`, on every round of the loop
  | .done (.error .cancelledError) => w.setCall t ⟨control, .spinning, future⟩
  | .cancelled => w.leave t control future (.error .cancelledError)
  | .queued | .running | .ended _ | .dropped => w.setCall t ⟨control, .shielding false cancelled, future⟩

/-- The task of a call that waits for a slot runs. -/
def resumeAcquire (t : ℕ) (control interrupted : Bool) : Option (Servicer ρ) :=
  match (w.slots control).turn t with
  | some .granted =>
    if interrupted then some ((w.setSlots control ((w.slots control).giveBack t)).acquireFailed t control)
    else some ((w.setSlots control ((w.slots control).proceed t)).acquired t control)
  | some .cancelled => some ((w.setSlots control ((w.slots control).remove t)).acquireFailed t control)
  | some .pending | none => none

/-- The task of a call that waits for its future runs. -/
def resumeShield (t : ℕ) (control : Bool) (future : Future ρ) (interrupted cancelled : Bool) :
    Option (Servicer ρ) :=
  if interrupted then
    match future with
    | .cancelled => some (w.leave t control future (.error .cancelledError))
    | _ => some (w.awaitShield t control future true)
  else if future.finished then some (w.awaitShield t control future cancelled)
  else none

def resume (t : ℕ) : Option (Servicer ρ) :=
  match w.calls[t]? with
  | some ⟨control, .acquiring interrupted, _⟩ => w.resumeAcquire t control interrupted
  | some ⟨control, .shielding interrupted cancelled, some future⟩ =>
    w.resumeShield t control future interrupted cancelled
  | _ => none

/-- A new call runs up to its first await. -/
def call (control : Bool) : Servicer ρ :=
  let t := w.calls.length
  let w := (w.enqueue control).addCall (.new control)
  match (w.slots control).tryAcquire with
  | some s => (w.setSlots control s).acquired t control
  | none => w.setSlots control ((w.slots control).wait t)

/-- The task of a call is cancelled. -/
def cancel (t : ℕ) : Option (Servicer ρ) :=
  match w.calls[t]? with
  | some ⟨control, .acquiring interrupted, future⟩ =>
    match (w.slots control).turn t with
    | some .pending => some (w.setSlots control ((w.slots control).cancel t))
    | some .granted => some (w.setCall t ⟨control, .acquiring true, future⟩)
    | some .cancelled => some (w.setCall t ⟨control, .acquiring interrupted, future⟩)
    | none => none
  | some ⟨control, .shielding _ cancelled, future⟩ =>
    some (w.setCall t ⟨control, .shielding true cancelled, future⟩)
  | _ => none

/-- The future of a call goes from one state to another. -/
def setFuture (t : ℕ) (next : Future ρ → Option (Future ρ)) : Option (Servicer ρ) :=
  match w.calls[t]? with
  | some ⟨control, pc, some future⟩ => (next future).map fun f ↦ w.setCall t ⟨control, pc, some f⟩
  | _ => none

/-- `shutdown` of an executor, which drops what no thread has taken. -/
def shutdown (control : Bool) : Servicer ρ :=
  { w with
    closed := Function.update w.closed control true
    calls := w.calls.map (Call.drop control) }

/-- Nothing else runs on the event loop. -/
def stuck : Bool := w.calls.any fun c ↦ match c.pc with
  | .spinning => true
  | _ => false

end Servicer

/-! ### Steps -/

/-- What happens to a call, on the event loop or (`take`, `finish`, `shutdown`) elsewhere. -/
inductive Action (ρ : Type)
  | call (control : Bool)
  | cancel (t : ℕ)
  | resume (t : ℕ)
  | take (t : ℕ)
  | finish (t : ℕ) (outcome : Except Raised ρ)
  /-- The event loop is told how a computation ended. -/
  | deliver (t : ℕ)
  | shutdown (control : Bool)

def Future.take : Future ρ → Option (Future ρ)
  | queued => some running
  | _ => none

def Future.finish (outcome : Except Raised ρ) : Future ρ → Option (Future ρ)
  | running => some (ended outcome)
  | _ => none

def Future.deliver : Future ρ → Option (Future ρ)
  | ended outcome => some (done outcome)
  | dropped => some cancelled
  | _ => none

def step (w : Servicer ρ) : Action ρ → Option (Servicer ρ)
  | .call control => if w.stuck then none else some (w.call control)
  | .cancel t => if w.stuck then none else w.cancel t
  | .resume t => if w.stuck then none else w.resume t
  | .deliver t => if w.stuck then none else w.setFuture t Future.deliver
  | .take t => w.setFuture t Future.take
  | .finish t outcome => w.setFuture t (Future.finish outcome)
  | .shutdown control => some (w.shutdown control)

end SplitFleet.ExecutionSlots
