import SplitFleet.Lib.Monitor
import SplitFleet.Lib.Python
import SplitFleet.Lib.Runs

set_option autoImplicit false

namespace SplitFleet.PaddleDevice

open Lib

variable {T δ : Type} [DecidableEq T] [DecidableEq δ]

/-- A scope that counts as a reader, or a switch in one to another device. -/
inductive Frame (δ : Type)
  | shared (device : δ)
  | switched (device : δ) (previous : Option δ)

def Frame.device : Frame δ → δ
  | shared device => device
  | switched device _ => device

/-- What `scope` raises of its own, and what the guard of a device raises. -/
inductive Raised
  | runtimeError (message : String)
  | guard

structure PaddleDeviceGate (T δ : Type) where
  device : Option δ
  readers : Dict T ℤ
  /-- The device whose guard is kept. -/
  guard : Option δ
  waiting : ℤ

/-- An `RLock`: the thread that has it, and how many times. -/
abbrev RLock (T : Type) := Option (T × ℕ)

def RLock.acquire (t : T) : RLock T → RLock T
  | none => some (t, 1)
  | some (_, n) => some (t, n + 1)

def RLock.release : RLock T → RLock T
  | some (t, n + 2) => some (t, n + 1)
  | _ => none

/-- The gate with the threads: the lock of its condition, those that wait on it and the scopes whose bodies
each thread is in, the innermost first. A thread that switches keeps the lock, once for each switch. -/
structure World (T δ : Type) where
  gate : PaddleDeviceGate T δ
  lock : RLock T
  room : Room T δ
  frames : T → List (Frame δ)

namespace PaddleDeviceGate

variable (g : PaddleDeviceGate T δ)

def start : PaddleDeviceGate T δ := ⟨none, .empty, none, 0⟩

/-- `self.device in {None, device}`. -/
def admits (device : δ) : Prop := g.device = none ∨ g.device = some device

instance (device : δ) : Decidable (g.admits device) := by unfold admits; infer_instance

/-- A thread becomes a reader, or one more time. -/
def read (t : T) (device : δ) : PaddleDeviceGate T δ :=
  { g with
    guard := if g.device = none then some device else g.guard
    device := if g.device = none then some device else g.device
    readers := g.readers.insert t ((g.readers.get? t).getD 0 + 1) }

def endRead (t : T) (n : ℤ) : PaddleDeviceGate T δ :=
  { g with readers := if n - 1 = 0 then g.readers.erase t else g.readers.insert t (n - 1) }

def release : PaddleDeviceGate T δ := { g with guard := none, device := none }

end PaddleDeviceGate

namespace World

variable (w : World T δ)

def start : World T δ := ⟨.start, none, .empty, fun _ ↦ []⟩

/-- The thread has the lock or can take it. -/
def unlocked (t : T) : Prop := ∀ u n, w.lock = some (u, n) → u = t

instance (t : T) : Decidable (w.unlocked t) :=
  match h : w.lock with
  | none => .isTrue fun u n hu ↦ by cases h.symm.trans hu
  | some (u, n) =>
    if hut : u = t then .isTrue fun v m hv ↦ by cases h.symm.trans hv; exact hut
    else .isFalse fun hall ↦ hut (hall u n h)

def push (t : T) (f : Frame δ) : World T δ := { w with frames := Function.update w.frames t (f :: w.frames t) }

def pop (t : T) (rest : List (Frame δ)) : World T δ := { w with frames := Function.update w.frames t rest }

def setGate (g : PaddleDeviceGate T δ) : World T δ := { w with gate := g }

def setRoom (t : T) (x : Option (δ × Bool)) : World T δ := { w with room := Function.update w.room t x }

def notifyAll : World T δ := { w with room := w.room.notifyAll }

def countWaiting (n : ℤ) : World T δ := w.setGate { w.gate with waiting := w.gate.waiting + n }

def acquireLock (t : T) : World T δ := { w with lock := w.lock.acquire t }

def releaseLock : World T δ := { w with lock := w.lock.release }

/-- What follows `wait_for`: the first reader enters the guard of its device. -/
def proceed (t : T) (device : δ) (guardEnters : Bool) : World T δ × Option Raised :=
  if w.gate.device = none ∧ ¬ guardEnters then (w.countWaiting (-1), some .guard)
  else (((w.setGate (w.gate.read t device)).countWaiting (-1)).push t (.shared device), none)

/-- The nested branch: the sole reader switches with the lock in its hands. -/
def switchTo (t : T) (device : δ) (guardEnters : Bool) : World T δ × Option Raised :=
  if w.gate.readers.size ≠ 1 then
    (w, some (.runtimeError "Cannot switch Paddle device while other native operations are active"))
  else if guardEnters then
    (((w.setGate { w.gate with device := some device }).acquireLock t).push t (.switched device w.gate.device), none)
  -- the `finally` block puts the device back that was there
  else (w, some .guard)

/-- `scope` up to its body. -/
def scope (t : T) (device : δ) (guardEnters : Bool) : World T δ × Option Raised :=
  if (w.gate.readers.get? t).isSome ∧ w.gate.device ≠ some device then w.switchTo t device guardEnters
  else
    let w := w.countWaiting 1
    if w.gate.admits device then w.proceed t device guardEnters
    else (w.setRoom t (some (device, false)), none)

/-- A notified thread has the lock again. -/
def wake (t : T) (guardEnters : Bool) : Option (World T δ × Option Raised) :=
  match w.room t with
  | some (device, true) =>
    if w.gate.admits device then some ((w.setRoom t none).proceed t device guardEnters)
    else some (w.setRoom t (some (device, false)), none)
  | _ => none

/-- The innermost body ends, with or without an exception. -/
def leave (t : T) (guardExits : Bool) : Option (World T δ) :=
  match w.frames t with
  | [] => none
  | .switched _ previous :: rest =>
    some (((w.setGate { w.gate with device := previous }).pop t rest).releaseLock)
  | .shared _ :: rest =>
    (w.gate.readers.get? t).map fun n ↦
      let w := (w.setGate (w.gate.endRead t n)).pop t rest
      if w.gate.readers.entries = [] then
        -- an exception of the guard leaves the section before `notify_all`
        if guardExits then (w.setGate w.gate.release).notifyAll else w.setGate w.gate.release
      else w.notifyAll

end World

/-- What a thread does, and whether the guard of a device enters and exits when it is asked to. -/
inductive Action (T δ : Type)
  | scope (t : T) (device : δ) (guardEnters : Bool)
  | leave (t : T) (guardExits : Bool)
  | wake (t : T) (guardEnters : Bool)

/-- A thread that waits does nothing else, and a section of a thread needs the lock. -/
def step (w : World T δ) : Action T δ → Option (World T δ)
  | .scope t device guardEnters =>
    if w.room t = none ∧ w.unlocked t then some (w.scope t device guardEnters).1 else none
  | .leave t guardExits => if w.room t = none ∧ w.unlocked t then w.leave t guardExits else none
  | .wake t guardEnters => if w.unlocked t then (w.wake t guardEnters).map Prod.fst else none

end SplitFleet.PaddleDevice
