import SplitFleet.Lib.Monitor
import SplitFleet.Lib.Python
import SplitFleet.Lib.Runs

set_option autoImplicit false

namespace SplitFleet.NativeCapture

open Lib

inductive Scope
  | execution
  | capture
  deriving DecidableEq

variable {T : Type} [DecidableEq T]

structure NativeCaptureGate (T : Type) where
  readers : Dict T ℤ
  writer : Option T
  writeDepth : ℤ
  waitingWriters : ℤ

namespace NativeCaptureGate

variable (g : NativeCaptureGate T)

def start : NativeCaptureGate T := ⟨.empty, none, 0, 0⟩

/-- What `wait_for` waits for in each scope. -/
def admits : Scope → Prop
  | .execution => g.writer = none ∧ g.waitingWriters = 0
  | .capture => g.writer = none ∧ g.readers.entries = []

instance (s : Scope) : Decidable (g.admits s) := by
  cases s <;> unfold admits <;> infer_instance

def read (t : T) : NativeCaptureGate T := { g with readers := g.readers.insert t ((g.readers.get? t).getD 0 + 1) }

def write (t : T) : NativeCaptureGate T := { g with writer := some t, writeDepth := 1 }

/-- The end of `execution`. -/
def endRead (t : T) (n : ℤ) : NativeCaptureGate T :=
  { g with readers := if n - 1 = 0 then g.readers.erase t else g.readers.insert t (n - 1) }

/-- The end of `capture`. -/
def endWrite : NativeCaptureGate T :=
  { g with
    writeDepth := g.writeDepth - 1
    writer := if g.writeDepth - 1 = 0 then none else g.writer }

end NativeCaptureGate

/-- The gate with the threads: the scopes whose bodies each is in, the innermost first, and those that
wait. -/
structure World (T : Type) where
  gate : NativeCaptureGate T
  room : Room T Scope
  scopes : T → List Scope

namespace World

variable (w : World T)

def start : World T := ⟨.start, .empty, fun _ ↦ []⟩

def push (t : T) (s : Scope) : World T := { w with scopes := Function.update w.scopes t (s :: w.scopes t) }

def wait (t : T) (s : Scope) : World T := { w with room := Function.update w.room t (some (s, false)) }

def stopWaiting (t : T) : World T := { w with room := Function.update w.room t none }

def notifyAll : World T := { w with room := w.room.notifyAll }

def setGate (g : NativeCaptureGate T) : World T := { w with gate := g }

/-- The rest of `with self.condition` of `execution`, once the thread need not wait. -/
def beginExecution (t : T) : World T := (w.setGate (w.gate.read t)).push t .execution

def execution (t : T) : World T :=
  if w.gate.readers.get? t = none ∧ w.gate.writer ≠ some t ∧ ¬ w.gate.admits .execution then w.wait t .execution
  else w.beginExecution t

/-- The `finally` block of a `capture` that has waited. -/
def endWait : World T :=
  (w.setGate { w.gate with waitingWriters := w.gate.waitingWriters - 1 }).notifyAll

def beginCapture (t : T) : World T := ((w.setGate (w.gate.write t)).endWait).push t .capture

def capture (t : T) : Except String (World T) :=
  if w.gate.writer = some t then
    .ok ((w.setGate { w.gate with writeDepth := w.gate.writeDepth + 1 }).push t .capture)
  else if (w.gate.readers.get? t).isSome then
    .error "Cannot capture native operations inside an active execution scope"
  else
    let w := w.setGate { w.gate with waitingWriters := w.gate.waitingWriters + 1 }
    .ok (if w.gate.admits .capture then w.beginCapture t else w.wait t .capture)

/-- A notified thread has the lock again. -/
def wake (t : T) : Option (World T) :=
  match w.room t with
  | some (s, true) =>
    if w.gate.admits s then
      match s with
      | .execution => some ((w.stopWaiting t).beginExecution t)
      | .capture => some ((w.stopWaiting t).beginCapture t)
    else some (w.wait t s)
  | _ => none

/-- `wait_for` raises. -/
def interrupt (t : T) : Option (World T) :=
  match w.room t with
  | some (.execution, _) => some (w.stopWaiting t)
  | some (.capture, _) => some (w.stopWaiting t).endWait
  | none => none

/-- The innermost body ends, with or without an exception. -/
def leave (t : T) : Option (World T) :=
  match w.scopes t with
  | [] => none
  | .execution :: scopes =>
    (w.gate.readers.get? t).map fun n ↦
      ({ w with scopes := Function.update w.scopes t scopes }.setGate (w.gate.endRead t n)).notifyAll
  | .capture :: scopes =>
    some ({ w with scopes := Function.update w.scopes t scopes }.setGate w.gate.endWrite).notifyAll

end World

inductive Action (T : Type)
  | execution (t : T)
  | capture (t : T)
  | leave (t : T)
  | wake (t : T)
  | interrupt (t : T)

/-- A thread that waits does nothing else. -/
def step (w : World T) : Action T → Option (World T)
  | .execution t => if w.room t = none then some (w.execution t) else none
  | .capture t =>
    if w.room t = none then
      match w.capture t with
      | .ok w' => some w'
      | .error _ => some w
    else none
  | .leave t => if w.room t = none then w.leave t else none
  | .wake t => w.wake t
  | .interrupt t => w.interrupt t

end SplitFleet.NativeCapture
