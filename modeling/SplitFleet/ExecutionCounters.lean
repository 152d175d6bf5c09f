import SplitFleet.ExecutionSlots
import SplitFleet.Lib.Runs

set_option autoImplicit false

namespace SplitFleet.ExecutionSlots

open Lib

variable {ρ : Type} {k : Bool → ℕ} {w w' : Servicer ρ} {t : ℕ} {control : Bool} {c c' : Call ρ}

/-! ### What is counted -/

def Pc.waits : Pc ρ → Bool
  | acquiring _ => true
  | _ => false

/-- From the return of `slots.acquire()` to `slots.release()`. -/
def Pc.admitted : Pc ρ → Bool
  | shielding _ _ | spinning => true
  | _ => false

theorem waits_of_admitted {pc : Pc ρ} (h : pc.admitted = true) : pc.waits = false := by
  cases pc <;> cases h <;> rfl

namespace Call

def waitsOn (c : Call ρ) (lane : Bool) : Bool := c.control == lane && c.pc.waits

def admittedOn (c : Call ρ) (lane : Bool) : Bool := c.control == lane && c.pc.admitted

def computing (c : Call ρ) : Bool := c.future.any fun f ↦ !f.finished

def computesOn (c : Call ρ) (lane : Bool) : Bool := c.control == lane && c.computing

/-- Its future is finished, and it has not run since. -/
def lingersOn (c : Call ρ) (lane : Bool) : Bool := c.admittedOn lane && !c.computing

end Call

namespace Servicer

variable (w)

def waiting (lane : Bool) : ℕ := w.calls.countP (·.waitsOn lane)

def admitted (lane : Bool) : ℕ := w.calls.countP (·.admittedOn lane)

def computing (lane : Bool) : ℕ := w.calls.countP (·.computesOn lane)

def lingering (lane : Bool) : ℕ := w.calls.countP (·.lingersOn lane)

/-- No call is outstanding. -/
def Idle : Prop := ∀ c ∈ w.calls, ∃ result, c.pc = .done result

end Servicer

theorem countP_setCall (p : Call ρ → Bool) (hc : w.calls[t]? = some c) (c' : Call ρ) :
    (w.calls.set t c').countP p + (p c).toNat = w.calls.countP p + (p c').toNat := by
  obtain ⟨ht, rfl⟩ := List.getElem?_eq_some_iff.mp hc
  have hle : (if p w.calls[t] then 1 else 0) ≤ w.calls.countP p := List.boole_getElem_le_countP ht
  rw [List.countP_set ht]
  cases hp : p w.calls[t] <;> rw [hp] at hle <;> cases p c' <;>
    simp only [Bool.toNat_true, Bool.toNat_false, Bool.false_eq_true, ↓reduceIte] at hle ⊢ <;> omega

theorem waiting_set (hc : w.calls[t]? = some c) (h : w'.calls = w.calls.set t c') (lane : Bool) :
    w'.waiting lane + (c.waitsOn lane).toNat = w.waiting lane + (c'.waitsOn lane).toNat := by
  unfold Servicer.waiting
  rw [h]
  exact countP_setCall (·.waitsOn lane) hc c'

theorem admitted_set (hc : w.calls[t]? = some c) (h : w'.calls = w.calls.set t c') (lane : Bool) :
    w'.admitted lane + (c.admittedOn lane).toNat = w.admitted lane + (c'.admittedOn lane).toNat := by
  unfold Servicer.admitted
  rw [h]
  exact countP_setCall (·.admittedOn lane) hc c'

section Calls

variable (w t control)

theorem calls_acquireFailed : (w.acquireFailed t control).calls =
    w.calls.set t ⟨control, .done (.error .cancelledError), none⟩ := by
  cases control <;> rfl

theorem calls_leave (future : Option (Future ρ)) (result : Except Raised ρ) :
    (w.leave t control future result).calls = w.calls.set t ⟨control, .done result, future⟩ := by
  cases control <;> rfl

theorem slots_leave (future : Option (Future ρ)) (result : Except Raised ρ) :
    (w.leave t control future result).slots = Function.update w.slots control (w.slots control).release := by
  cases control <;> rfl

end Calls

/-! ### The counters -/

/-- The slots and the counters agree with the calls. -/
structure Balanced (k : Bool → ℕ) (w : Servicer ρ) : Prop where
  slots : ∀ lane, (w.slots lane).free + w.admitted lane = k lane
  queued : w.queuedExecutions = w.waiting false
  active : w.activeExecutions = w.admitted false
  telemetry : ∀ m ∈ w.telemetry, m = ⟨w.activeExecutions, w.queuedExecutions⟩
  peak : w.activeExecutions ≤ w.peakExecutions ∧ w.peakExecutions ≤ k false

namespace Balanced

theorem start (telemetry : Bool) : Balanced k (.start k telemetry : Servicer ρ) where
  slots _ := rfl
  queued := rfl
  active := rfl
  telemetry m hm := by
    cases telemetry with
    | false => cases hm
    | true =>
      cases hm
      rfl
  peak := ⟨le_refl _, Int.natCast_nonneg _⟩

theorem setCall (h : Balanced k w) (hc : w.calls[t]? = some c) (hw : ∀ lane, c'.waitsOn lane = c.waitsOn lane)
    (ha : ∀ lane, c'.admittedOn lane = c.admittedOn lane) : Balanced k (w.setCall t c') := by
  have hwaiting := waiting_set hc (rfl : (w.setCall t c').calls = _)
  have hadmitted := admitted_set hc (rfl : (w.setCall t c').calls = _)
  simp only [hw, ha, Nat.add_right_cancel_iff] at hwaiting hadmitted
  constructor
  · intro lane
    rw [hadmitted]
    exact h.slots lane
  · rw [hwaiting]
    exact h.queued
  · rw [hadmitted]
    exact h.active
  · exact h.telemetry
  · exact h.peak

theorem setSlots (h : Balanced k w) {s : Semaphore ℕ} (hs : s.free = (w.slots control).free) :
    Balanced k (w.setSlots control s) := by
  refine ⟨fun lane ↦ ?_, h.queued, h.active, h.telemetry, h.peak⟩
  have hlane := h.slots lane
  by_cases hl : lane = control
  · subst hl
    rw [w.slots_setSlots_self, hs]
    exact hlane
  · rw [w.slots_setSlots_of_ne hl]
    exact hlane

theorem enqueue (h : Balanced k w) (control : Bool) : Balanced k ((w.enqueue control).addCall (.new control)) := by
  have hadmitted (lane : Bool) : ((w.enqueue control).addCall (.new control)).admitted lane = w.admitted lane := by
    cases control <;>
      simp [Servicer.admitted, Servicer.enqueue, Servicer.addCall, Call.new, Call.admittedOn, Pc.admitted]
  have hwaiting (lane : Bool) : ((w.enqueue control).addCall (.new control)).waiting lane =
      w.waiting lane + (control == lane).toNat := by
    cases control <;> cases lane <;>
      simp [Servicer.waiting, Servicer.enqueue, Servicer.addCall, Call.new, Call.waitsOn, Pc.waits]
  cases control with
  | true =>
    refine ⟨fun lane ↦ ?_, ?_, ?_, h.telemetry, h.peak⟩
    · rw [hadmitted]
      exact h.slots lane
    · rw [hwaiting]
      exact h.queued
    · rw [hadmitted]
      exact h.active
  | false =>
    refine ⟨fun lane ↦ ?_, ?_, ?_, fun m hm ↦ ?_, h.peak⟩
    · rw [hadmitted]
      exact h.slots lane
    · rw [hwaiting]
      exact congrArg (· + 1) h.queued
    · rw [hadmitted]
      exact h.active
    · obtain ⟨m', hm', rfl⟩ := Option.map_eq_some_iff.mp hm
      rw [h.telemetry m' hm']
      rfl

/-- A call that waited goes on without a slot. -/
theorem acquireFailed (h : Balanced k w) {interrupted : Bool} {future : Option (Future ρ)}
    (hc : w.calls[t]? = some ⟨control, .acquiring interrupted, future⟩) : Balanced k (w.acquireFailed t control) := by
  have hwaiting := waiting_set hc (calls_acquireFailed w t control)
  have hadmitted := admitted_set hc (calls_acquireFailed w t control)
  simp only [Call.waitsOn, Call.admittedOn, Pc.waits, Pc.admitted, Bool.and_true, Bool.and_false, Bool.toNat_false,
    Nat.add_zero] at hwaiting hadmitted
  cases control with
  | true =>
    refine ⟨fun lane ↦ ?_, ?_, ?_, h.telemetry, h.peak⟩
    · rw [hadmitted]
      exact h.slots lane
    · exact h.queued.trans (congrArg _ (hwaiting false).symm)
    · rw [hadmitted]
      exact h.active
  | false =>
    refine ⟨fun lane ↦ ?_, ?_, ?_, fun m hm ↦ ?_, h.peak⟩
    · rw [hadmitted]
      exact h.slots lane
    · have hqueued := h.queued
      have hcount : _ + 1 = _ := hwaiting false
      change w.queuedExecutions - 1 = _
      omega
    · rw [hadmitted]
      exact h.active
    · obtain ⟨m', hm', rfl⟩ := Option.map_eq_some_iff.mp hm
      rw [h.telemetry m' hm']
      rfl

/-- An admitted call gives its slot back. -/
theorem leave (h : Balanced k w) {pc : Pc ρ} {future₀ : Option (Future ρ)}
    (hc : w.calls[t]? = some ⟨control, pc, future₀⟩) (hadm : pc.admitted = true) (future : Option (Future ρ))
    (result : Except Raised ρ) : Balanced k (w.leave t control future result) := by
  have hwaiting := waiting_set hc (calls_leave w t control future result)
  have hadmitted := admitted_set hc (calls_leave w t control future result)
  have hslots := slots_leave w t control future result
  simp only [Call.waitsOn, Call.admittedOn, waits_of_admitted hadm, hadm] at hwaiting hadmitted
  simp only [Pc.waits, Pc.admitted, Bool.and_true, Bool.and_false, Bool.toNat_false, Nat.add_zero]
    at hwaiting hadmitted
  have hfree (lane : Bool) : ((w.leave t control future result).slots lane).free =
      (w.slots lane).free + (control == lane).toNat := by
    rw [hslots]
    by_cases hl : lane = control
    · subst hl
      simp
    · rw [Function.update_of_ne hl, beq_false_of_ne (Ne.symm hl)]
      rfl
  have hbalance (lane : Bool) : ((w.leave t control future result).slots lane).free +
      (w.leave t control future result).admitted lane = k lane := by
    have hlane := h.slots lane
    have hadm := hadmitted lane
    have hfr := hfree lane
    omega
  cases control with
  | true =>
    refine ⟨hbalance, ?_, ?_, h.telemetry, h.peak⟩
    · rw [hwaiting]
      exact h.queued
    · exact h.active.trans (congrArg _ (hadmitted false).symm)
  | false =>
    have hactive : w.activeExecutions - 1 = (w.leave t false future result).admitted false := by
      have hcount : _ + 1 = _ := hadmitted false
      have hactive := h.active
      omega
    refine ⟨hbalance, ?_, hactive, fun m hm ↦ ?_, ?_⟩
    · rw [hwaiting]
      exact h.queued
    · obtain ⟨m', hm', rfl⟩ := Option.map_eq_some_iff.mp hm
      rw [h.telemetry m' hm']
      rfl
    · have hpeak := h.peak
      exact ⟨by change w.activeExecutions - 1 ≤ w.peakExecutions; omega, hpeak.2⟩

/-- A call that waited has a slot, and its function is with the executor. -/
theorem submit (h : Balanced k w) {s : Semaphore ℕ} {interrupted : Bool}
    (hc : w.calls[t]? = some ⟨control, .acquiring interrupted, none⟩) (hs : s.free + 1 = (w.slots control).free)
    (computations : Finset ℕ) :
    Balanced k { (w.setSlots control s).started control with
      computations := computations
      calls := w.calls.set t ⟨control, .shielding false false, some .queued⟩ } := by
  generalize hw' : ({ (w.setSlots control s).started control with
      computations := computations
      calls := w.calls.set t ⟨control, .shielding false false, some .queued⟩ } : Servicer ρ) = w'
  have hcalls : w'.calls = w.calls.set t ⟨control, .shielding false false, some .queued⟩ := hw' ▸ rfl
  have hslots : w'.slots = Function.update w.slots control s := by
    subst hw'
    cases control <;> rfl
  have hwaiting := waiting_set hc hcalls
  have hadmitted := admitted_set hc hcalls
  simp only [Call.waitsOn, Call.admittedOn, Pc.waits, Pc.admitted, Bool.and_true, Bool.and_false, Bool.toNat_false,
    Nat.add_zero] at hwaiting hadmitted
  have hbalance (lane : Bool) : (w'.slots lane).free + w'.admitted lane = k lane := by
    have hlane := h.slots lane
    have hadm := hadmitted lane
    rw [hslots]
    by_cases hl : lane = control
    · subst hl
      simp only [Function.update_self, beq_self_eq_true, Bool.toNat_true] at hadm ⊢
      omega
    · simp only [Function.update_of_ne hl, beq_false_of_ne (Ne.symm hl), Bool.toNat_false] at hadm ⊢
      omega
  have hw := hwaiting false
  have ha := hadmitted false
  cases control with
  | true =>
    subst hw'
    exact ⟨hbalance, h.queued.trans (congrArg _ hw.symm), h.active.trans (congrArg _ ha.symm), h.telemetry, h.peak⟩
  | false =>
    have hqueued := h.queued
    have hactive := h.active
    have hpeak := h.peak
    have hk := hbalance false
    have hqueued' : w'.queuedExecutions = w.queuedExecutions - 1 := hw' ▸ rfl
    have hactive' : w'.activeExecutions = w.activeExecutions + 1 := hw' ▸ rfl
    have hpeak' : w'.peakExecutions = max w.peakExecutions (w.activeExecutions + 1) := hw' ▸ rfl
    have htelemetry' : w'.telemetry = w.telemetry.map .started := hw' ▸ rfl
    change _ + 1 = _ at hw
    change _ = _ + 1 at ha
    refine ⟨hbalance, by omega, by omega, fun m hm ↦ ?_, by omega⟩
    rw [htelemetry'] at hm
    obtain ⟨m', hm', rfl⟩ := Option.map_eq_some_iff.mp hm
    rw [h.telemetry m' hm', hqueued', hactive']
    rfl

theorem acquired (h : Balanced k w) {s : Semaphore ℕ} {interrupted : Bool}
    (hc : w.calls[t]? = some ⟨control, .acquiring interrupted, none⟩) (hs : s.free + 1 = (w.slots control).free) :
    Balanced k ((w.setSlots control s).acquired t control) := by
  have hcalls : ((w.setSlots control s).started control).calls = w.calls := by
    cases control <;> rfl
  have hsubmit := h.submit hc hs ((w.setSlots control s).started control).computations
  unfold Servicer.acquired
  dsimp only
  split_ifs
  · have ht : t < w.calls.length := (List.getElem?_eq_some_iff.mp hc).1
    have hleave := hsubmit.leave (List.getElem?_set_self ht) rfl none (.error .exception)
    have he (w₁ : Servicer ρ) (c : Call ρ) (r : Except Raised ρ) :
        ({ w₁ with calls := w₁.calls.set t c } : Servicer ρ).leave t control none r = w₁.leave t control none r := by
      cases control <;> simp [Servicer.leave, Servicer.setCall, Servicer.setSlots, List.set_set]
    rw [← hcalls, he] at hleave
    exact hleave
  · rw [hcalls]
    exact h.submit hc hs _

theorem awaitShield (h : Balanced k w) {interrupted cancelled : Bool} {future : Future ρ}
    (hc : w.calls[t]? = some ⟨control, .shielding interrupted cancelled, future⟩) (cancelled' : Bool) :
    Balanced k (w.awaitShield t control future cancelled') := by
  have hset {pc : Pc ρ} (hpc : pc.admitted = true) : Balanced k (w.setCall t ⟨control, pc, future⟩) := by
    refine h.setCall hc (fun lane ↦ ?_) fun lane ↦ ?_
    · unfold Call.waitsOn
      rw [waits_of_admitted hpc]
      rfl
    · unfold Call.admittedOn
      rw [hpc]
      rfl
  unfold Servicer.awaitShield
  cases future with
  | done outcome =>
    cases outcome with
    | ok result => exact h.leave hc rfl _ _
    | error e =>
      cases e with
      | cancelledError => exact hset rfl
      | exception => exact h.leave hc rfl _ _
      | baseException => exact h.leave hc rfl _ _
  | cancelled => exact h.leave hc rfl _ _
  | queued => exact hset rfl
  | running => exact hset rfl
  | ended outcome => exact hset rfl
  | dropped => exact hset rfl

end Balanced

/-! ### The calls -/

/-- What the code keeps of a call: a future from the time it has a slot, which is finished when the slot
goes back. -/
inductive Call.Ok : Call ρ → Prop
  | acquiring (control interrupted : Bool) : Ok ⟨control, .acquiring interrupted, none⟩
  | shielding (control interrupted cancelled : Bool) (future : Future ρ) :
      Ok ⟨control, .shielding interrupted cancelled, future⟩
  | spinning (control : Bool) (future : Future ρ) (hf : future.finished = true) : Ok ⟨control, .spinning, future⟩
  | refused (control : Bool) (result : Except Raised ρ) : Ok ⟨control, .done result, none⟩
  | done (control : Bool) (result : Except Raised ρ) (future : Future ρ) (hf : future.finished = true) :
      Ok ⟨control, .done result, future⟩

theorem Call.Ok.admitted_of_computing (h : c.Ok) (hc : c.computing = true) : c.pc.admitted = true := by
  cases h with
  | shielding control interrupted cancelled future => rfl
  | spinning control future hf => rfl
  | acquiring control interrupted => cases hc
  | refused control result => cases hc
  | done control result future hf =>
    rw [Call.computing, Option.any_some, hf] at hc
    cases hc

def Servicer.waitsAt (w : Servicer ρ) (lane : Bool) (t : ℕ) : Prop :=
  ∃ c, w.calls[t]? = some c ∧ c.waitsOn lane = true

/-- Those that wait for a slot are those in the queue of its lane. -/
structure Queued (w : Servicer ρ) : Prop where
  mem_iff : ∀ lane t, t ∈ (w.slots lane).waiting ↔ w.waitsAt lane t
  nodup : ∀ lane, (w.slots lane).waiting.Nodup
  ok : ∀ c ∈ w.calls, c.Ok

theorem waitsAt_set (hc : w.calls[t]? = some c) (h : w'.calls = w.calls.set t c') (lane : Bool) (u : ℕ) :
    w'.waitsAt lane u ↔ if u = t then c'.waitsOn lane = true else w.waitsAt lane u := by
  have ht : t < w.calls.length := (List.getElem?_eq_some_iff.mp hc).1
  unfold Servicer.waitsAt
  rw [h]
  split_ifs with hu
  · subst hu
    rw [List.getElem?_set_self ht]
    simp
  · rw [List.getElem?_set_ne (Ne.symm hu)]

namespace Queued

theorem ok_set (h : Queued w) (hc' : c'.Ok) : ∀ c ∈ w.calls.set t c', c.Ok := by
  intro c hc
  rcases List.mem_or_eq_of_mem_set hc with hc | rfl
  · exact h.ok c hc
  · exact hc'

theorem ok_at (h : Queued w) (hc : w.calls[t]? = some c) : c.Ok := h.ok c (List.mem_of_getElem? hc)

theorem congr (h : Queued w) (hcalls : w'.calls = w.calls)
    (hslots : ∀ lane, (w'.slots lane).waiting = (w.slots lane).waiting) : Queued w' := by
  refine ⟨fun lane u ↦ ?_, fun lane ↦ ?_, ?_⟩
  · rw [hslots, h.mem_iff, Servicer.waitsAt, Servicer.waitsAt, hcalls]
  · rw [hslots]
    exact h.nodup lane
  · rw [hcalls]
    exact h.ok

theorem append (h : Queued w) (hcalls : w'.calls = w.calls ++ [c'])
    (hslots : ∀ lane, (w'.slots lane).waiting =
      (w.slots lane).waiting ++ if c'.waitsOn lane then [w.calls.length] else []) (hok : c'.Ok) : Queued w' := by
  have hnotMem (lane : Bool) : w.calls.length ∉ (w.slots lane).waiting := by
    rw [h.mem_iff]
    rintro ⟨c, hc, -⟩
    exact absurd (List.getElem?_eq_some_iff.mp hc).1 (lt_irrefl _)
  refine ⟨fun lane u ↦ ?_, fun lane ↦ ?_, ?_⟩
  · have hnew : u ∈ (if c'.waitsOn lane then [w.calls.length] else []) ↔
        c'.waitsOn lane = true ∧ u = w.calls.length := by
      split_ifs with hw <;> simp [hw]
    rw [hslots, List.mem_append, h.mem_iff, hnew, Servicer.waitsAt, Servicer.waitsAt, hcalls]
    rcases lt_trichotomy u w.calls.length with hu | hu | hu
    · rw [List.getElem?_append_left hu]
      simp [hu.ne]
    · subst hu
      simp
    · rw [List.getElem?_eq_none hu.le, List.getElem?_eq_none (by simpa [Nat.succ_le_iff] using hu)]
      simp [hu.ne']
  · rw [hslots]
    split_ifs
    · exact (h.nodup lane).append (List.nodup_singleton _) (by simpa using hnotMem lane)
    · rw [List.append_nil]
      exact h.nodup lane
  · rw [hcalls]
    intro c hc
    rcases List.mem_append.mp hc with hc | hc
    · exact h.ok c hc
    · obtain rfl := List.mem_singleton.mp hc
      exact hok

theorem keep (h : Queued w) (hc : w.calls[t]? = some c) (hcalls : w'.calls = w.calls.set t c')
    (hslots : ∀ lane, (w'.slots lane).waiting = (w.slots lane).waiting)
    (hw : ∀ lane, c'.waitsOn lane = c.waitsOn lane) (hok : c'.Ok) : Queued w' := by
  refine ⟨fun lane u ↦ ?_, fun lane ↦ ?_, ?_⟩
  · rw [hslots, h.mem_iff, waitsAt_set hc hcalls]
    split_ifs with hu
    · rw [hu, hw, Servicer.waitsAt, hc]
      simp
    · exact Iff.rfl
  · rw [hslots]
    exact h.nodup lane
  · rw [hcalls]
    exact h.ok_set hok

/-- A call leaves the queue. -/
theorem depart (h : Queued w) (hc : w.calls[t]? = some c) (hcalls : w'.calls = w.calls.set t c')
    (hslots : ∀ lane, (w'.slots lane).waiting = (w.slots lane).waiting.erase t)
    (hw : ∀ lane, c'.waitsOn lane = false) (hok : c'.Ok) : Queued w' := by
  refine ⟨fun lane u ↦ ?_, fun lane ↦ ?_, ?_⟩
  · rw [hslots, (h.nodup lane).mem_erase_iff, h.mem_iff, waitsAt_set hc hcalls, hw]
    split_ifs with hu
    · simp [hu]
    · simp [hu]
  · rw [hslots]
    exact (h.nodup lane).erase t
  · rw [hcalls]
    exact h.ok_set hok

end Queued

/-- A call runs on from where it has left the queue. -/
structure Advances (w w' : Servicer ρ) (t : ℕ) : Prop where
  calls : ∃ c', w'.calls = w.calls.set t c' ∧ (∀ lane, c'.waitsOn lane = false) ∧ c'.Ok
  slots : ∀ lane, (w'.slots lane).waiting = (w.slots lane).waiting

namespace Advances

variable (w t control)

theorem acquireFailed : Advances w (w.acquireFailed t control) t := by
  refine ⟨⟨_, calls_acquireFailed w t control, fun lane ↦ Bool.and_false _, .refused control _⟩, fun lane ↦ ?_⟩
  cases control <;> rfl

theorem leave {future : Option (Future ρ)} (hf : ∀ f ∈ future, f.finished = true) (result : Except Raised ρ) :
    Advances w (w.leave t control future result) t := by
  refine ⟨⟨_, calls_leave w t control future result, fun lane ↦ Bool.and_false _, ?_⟩, fun lane ↦ ?_⟩
  · cases future with
    | none => exact .refused control result
    | some f => exact .done control result f (hf f rfl)
  · rw [slots_leave]
    by_cases hl : lane = control
    · subst hl
      rw [Function.update_self, Semaphore.waiting_release]
    · rw [Function.update_of_ne hl]

theorem acquired : Advances w (w.acquired t control) t := by
  have hcalls : (w.started control).calls = w.calls := by
    cases control <;> rfl
  have hslots : (w.started control).slots = w.slots := by
    cases control <;> rfl
  unfold Servicer.acquired
  dsimp only
  split_ifs
  · have hleave : Advances (w.started control) ((w.started control).leave t control none (.error .exception)) t :=
      leave _ t control (by simp) _
    exact ⟨hcalls ▸ hleave.calls, hslots ▸ hleave.slots⟩
  · refine ⟨⟨⟨control, .shielding false false, some .queued⟩, hcalls ▸ rfl, fun lane ↦ Bool.and_false _,
      .shielding control false false .queued⟩, fun lane ↦ ?_⟩
    rw [hslots]

theorem awaitShield (future : Future ρ) (cancelled : Bool) : Advances w (w.awaitShield t control future cancelled) t := by
  have hset {pc : Pc ρ} (hpc : pc.waits = false) (hok : Call.Ok ⟨control, pc, some future⟩) :
      Advances w (w.setCall t ⟨control, pc, future⟩) t :=
    ⟨⟨_, rfl, fun lane ↦ by simp [Call.waitsOn, hpc], hok⟩, fun lane ↦ rfl⟩
  have hleave (hf : future.finished = true) (result : Except Raised ρ) :
      Advances w (w.leave t control future result) t := leave w t control (by simpa using hf) result
  unfold Servicer.awaitShield
  cases future with
  | done outcome =>
    cases outcome with
    | ok result => exact hleave rfl _
    | error e =>
      cases e with
      | cancelledError => exact hset rfl (.spinning control _ rfl)
      | exception => exact hleave rfl _
      | baseException => exact hleave rfl _
  | cancelled => exact hleave rfl _
  | queued => exact hset rfl (.shielding control false cancelled _)
  | running => exact hset rfl (.shielding control false cancelled _)
  | ended outcome => exact hset rfl (.shielding control false cancelled _)
  | dropped => exact hset rfl (.shielding control false cancelled _)

end Advances

/-! ### Runs -/

structure Inv (k : Bool → ℕ) (w : Servicer ρ) : Prop where
  balanced : Balanced k w
  queued : Queued w

namespace Inv

/-- A call that waits finds its turn, and another queue of its lane without it. -/
theorem depart (h : Inv k w) {interrupted : Bool} {future : Option (Future ρ)} {s : Semaphore ℕ}
    (hc : w.calls[t]? = some ⟨control, .acquiring interrupted, future⟩)
    (hs : s.waiting = (w.slots control).waiting.erase t) (hadv : Advances (w.setSlots control s) w' t) : Queued w' := by
  obtain ⟨⟨c', hcalls, hw, hok⟩, hslots⟩ := hadv
  refine h.queued.depart hc hcalls (fun lane ↦ ?_) hw hok
  rw [hslots]
  by_cases hl : lane = control
  · rw [hl, w.slots_setSlots_self, hs]
  · rw [w.slots_setSlots_of_ne hl, List.erase_of_not_mem]
    rw [h.queued.mem_iff]
    rintro ⟨c, hct, hwaits⟩
    obtain rfl := Option.some.inj (hc.symm.trans hct)
    rw [Call.waitsOn, Bool.and_eq_true, beq_iff_eq] at hwaits
    exact hl hwaits.1.symm

theorem resumeAcquire (h : Inv k w) {interrupted : Bool} {future : Option (Future ρ)}
    (hc : w.calls[t]? = some ⟨control, .acquiring interrupted, future⟩)
    (hs : w.resumeAcquire t control interrupted = some w') : Inv k w' := by
  have hbalanced := h.balanced
  obtain rfl : future = none := by
    cases h.queued.ok_at hc
    rfl
  unfold Servicer.resumeAcquire at hs
  cases hturn : (w.slots control).turn t with
  | none =>
    rw [hturn] at hs
    cases hs
  | some turn =>
    rw [hturn] at hs
    cases turn with
    | pending => cases hs
    | granted =>
      dsimp only at hs
      split_ifs at hs
      · cases hs
        exact ⟨(hbalanced.setSlots (Semaphore.free_giveBack hturn)).acquireFailed hc,
          h.depart hc (Semaphore.waiting_giveBack ..) (.acquireFailed ..)⟩
      · cases hs
        exact ⟨hbalanced.acquired hc (Semaphore.free_proceed hturn),
          h.depart hc (Semaphore.waiting_proceed ..) (.acquired ..)⟩
    | cancelled =>
      cases hs
      exact ⟨(hbalanced.setSlots (Semaphore.free_remove_of_cancelled hturn)).acquireFailed hc,
        h.depart hc (Semaphore.waiting_remove ..) (.acquireFailed ..)⟩

theorem advance (h : Inv k w) {interrupted cancelled : Bool} {future : Option (Future ρ)}
    (hc : w.calls[t]? = some ⟨control, .shielding interrupted cancelled, future⟩) (hb : Balanced k w')
    (hadv : Advances w w' t) : Inv k w' := by
  obtain ⟨⟨c', hcalls, hw, hok⟩, hslots⟩ := hadv
  refine ⟨hb, h.queued.keep hc hcalls hslots (fun lane ↦ ?_) hok⟩
  rw [hw]
  exact (Bool.and_false _).symm

theorem resumeShield (h : Inv k w) {interrupted cancelled : Bool} {future : Future ρ}
    (hc : w.calls[t]? = some ⟨control, .shielding interrupted cancelled, future⟩)
    (hs : w.resumeShield t control future interrupted cancelled = some w') : Inv k w' := by
  have hawait (cancelled' : Bool) : Inv k (w.awaitShield t control future cancelled') :=
    h.advance hc (h.balanced.awaitShield hc cancelled') (.awaitShield ..)
  unfold Servicer.resumeShield at hs
  split_ifs at hs
  · split at hs
    · cases hs
      exact h.advance hc (h.balanced.leave hc rfl _ _) (.leave _ _ _ (by simp [Future.finished]) _)
    · cases hs
      exact hawait true
  · cases hs
    exact hawait cancelled

theorem resume (h : Inv k w) (hs : w.resume t = some w') : Inv k w' := by
  unfold Servicer.resume at hs
  split at hs
  · next hc => exact h.resumeAcquire hc hs
  · next hc => exact h.resumeShield hc hs
  · cases hs

theorem cancel (h : Inv k w) (hs : w.cancel t = some w') : Inv k w' := by
  have hset {control interrupted interrupted' : Bool} {future : Option (Future ρ)}
      (hc : w.calls[t]? = some ⟨control, .acquiring interrupted, future⟩) :
      Inv k (w.setCall t ⟨control, .acquiring interrupted', future⟩) := by
    obtain rfl : future = none := by
      cases h.queued.ok_at hc
      rfl
    exact ⟨h.balanced.setCall hc (fun _ ↦ rfl) fun _ ↦ rfl,
      h.queued.keep hc rfl (fun _ ↦ rfl) (fun _ ↦ rfl) (.acquiring control interrupted')⟩
  unfold Servicer.cancel at hs
  split at hs
  · next control interrupted future hc =>
    split at hs
    · cases hs
      refine ⟨h.balanced.setSlots (Semaphore.free_cancel ..), h.queued.congr rfl fun lane ↦ ?_⟩
      by_cases hl : lane = control
      · rw [hl, w.slots_setSlots_self, Semaphore.waiting_cancel]
      · rw [w.slots_setSlots_of_ne hl]
    · cases hs
      exact hset hc
    · cases hs
      exact hset hc
    · cases hs
  · next control interrupted cancelled future hc =>
    cases hs
    have hok : Call.Ok (⟨control, .shielding true cancelled, future⟩ : Call ρ) := by
      cases h.queued.ok_at hc
      exact .shielding ..
    exact ⟨h.balanced.setCall hc (fun _ ↦ rfl) fun _ ↦ rfl,
      h.queued.keep hc rfl (fun _ ↦ rfl) (fun _ ↦ rfl) hok⟩
  · cases hs

theorem setFuture (h : Inv k w) {next : Future ρ → Option (Future ρ)}
    (hnext : ∀ f, f.finished = true → next f = none) (hs : w.setFuture t next = some w') : Inv k w' := by
  unfold Servicer.setFuture at hs
  split at hs
  · next control pc future hc =>
    obtain ⟨f, hf, rfl⟩ := Option.map_eq_some_iff.mp hs
    have hok : Call.Ok (⟨control, pc, some f⟩ : Call ρ) := by
      cases h.queued.ok_at hc with
      | shielding control interrupted cancelled future => exact .shielding ..
      | spinning control future hfin => cases (hnext future hfin).symm.trans hf
      | done control result future hfin => cases (hnext future hfin).symm.trans hf
    exact ⟨h.balanced.setCall hc (fun _ ↦ rfl) fun _ ↦ rfl,
      h.queued.keep hc rfl (fun _ ↦ rfl) (fun _ ↦ rfl) hok⟩
  · cases hs

theorem call (h : Inv k w) (control : Bool) : Inv k (w.call control) := by
  have hslots : ((w.enqueue control).addCall (.new control)).slots = w.slots := by
    cases control <;> rfl
  have hcalls : ((w.enqueue control).addCall (.new control)).calls = w.calls ++ [.new control] := by
    cases control <;> rfl
  have hbalanced := h.balanced.enqueue control
  have hc : ((w.enqueue control).addCall (.new control)).calls[w.calls.length]? = some (.new control) := by
    rw [hcalls]
    simp
  unfold Servicer.call
  generalize (w.enqueue control).addCall (.new control) = w₁ at hslots hcalls hbalanced hc
  dsimp only
  cases hs : (w₁.slots control).tryAcquire with
  | some s =>
    obtain ⟨hfree, hwaiting⟩ := Semaphore.tryAcquire_spec hs
    obtain ⟨⟨c', hcalls', hw, hok⟩, hslots'⟩ :=
      Advances.acquired (w₁.setSlots control s) w.calls.length control
    have hlast : ((w₁.setSlots control s).acquired w.calls.length control).calls = w.calls ++ [c'] := by
      rw [hcalls']
      change w₁.calls.set _ _ = _
      rw [hcalls, List.set_append_right _ _ le_rfl]
      simp
    refine ⟨hbalanced.acquired hc hfree, h.queued.append hlast (fun lane ↦ ?_) hok⟩
    dsimp only
    rw [hslots', hw, if_neg Bool.false_ne_true, List.append_nil]
    by_cases hl : lane = control
    · rw [hl, w₁.slots_setSlots_self, hwaiting, hslots]
    · rw [w₁.slots_setSlots_of_ne hl, hslots]
  | none =>
    refine ⟨hbalanced.setSlots (Semaphore.free_wait ..),
      h.queued.append hcalls (fun lane ↦ ?_) (.acquiring control false)⟩
    dsimp only
    by_cases hl : lane = control
    · subst hl
      rw [w₁.slots_setSlots_self, Semaphore.waiting_wait, hslots, if_pos (by simp [Call.new, Call.waitsOn, Pc.waits])]
    · rw [w₁.slots_setSlots_of_ne hl, hslots, if_neg (by simp [Call.new, Call.waitsOn, Ne.symm hl]), List.append_nil]

theorem shutdown (h : Inv k w) (control : Bool) : Inv k (w.shutdown control) := by
  have hdrop (c : Call ρ) : (c.drop control).control = c.control ∧ (c.drop control).pc = c.pc := by
    unfold Call.drop
    split <;> exact ⟨rfl, rfl⟩
  have hwaits (c : Call ρ) (lane : Bool) : (c.drop control).waitsOn lane = c.waitsOn lane := by
    rw [Call.waitsOn, (hdrop c).1, (hdrop c).2, Call.waitsOn]
  have hadmitted (lane : Bool) : (w.shutdown control).admitted lane = w.admitted lane := by
    refine (List.countP_map ..).trans (List.countP_congr fun c _ ↦ ?_)
    rw [Function.comp_apply, Call.admittedOn, (hdrop c).1, (hdrop c).2, Call.admittedOn]
  have hwaiting (lane : Bool) : (w.shutdown control).waiting lane = w.waiting lane := by
    refine (List.countP_map ..).trans (List.countP_congr fun c _ ↦ ?_)
    rw [Function.comp_apply, hwaits]
  obtain ⟨hb, hq⟩ := h
  refine ⟨⟨fun lane ↦ ?_, ?_, ?_, hb.telemetry, hb.peak⟩, ⟨fun lane u ↦ (hq.mem_iff lane u).trans ?_, hq.nodup, ?_⟩⟩
  · rw [hadmitted]
    exact hb.slots lane
  · rw [hwaiting]
    exact hb.queued
  · rw [hadmitted]
    exact hb.active
  · unfold Servicer.waitsAt Servicer.shutdown
    simp [List.getElem?_map, Option.map_eq_some_iff, hwaits]
  · intro c hc
    obtain ⟨c₀, hc₀, rfl⟩ := List.mem_map.mp hc
    cases hq.ok c₀ hc₀ with
    | acquiring control' interrupted => exact .acquiring ..
    | shielding control' interrupted cancelled future => cases future <;> exact .shielding ..
    | spinning control' future hf => cases future <;> cases hf <;> exact .spinning _ _ rfl
    | refused control' result => exact .refused ..
    | done control' result future hf => cases future <;> cases hf <;> exact .done _ _ _ rfl

theorem step (h : Inv k w) {a : Action ρ} (hs : step w a = some w') : Inv k w' := by
  cases a with
  | call control =>
    unfold ExecutionSlots.step at hs
    split_ifs at hs
    cases hs
    exact h.call control
  | cancel t =>
    unfold ExecutionSlots.step at hs
    split_ifs at hs
    exact h.cancel hs
  | resume t =>
    unfold ExecutionSlots.step at hs
    split_ifs at hs
    exact h.resume hs
  | deliver t =>
    unfold ExecutionSlots.step at hs
    split_ifs at hs
    refine h.setFuture (fun f hf ↦ ?_) hs
    cases f <;> cases hf <;> rfl
  | take t =>
    refine h.setFuture (fun f hf ↦ ?_) hs
    cases f <;> cases hf <;> rfl
  | finish t outcome =>
    refine h.setFuture (fun f hf ↦ ?_) hs
    cases f <;> cases hf <;> rfl
  | shutdown control =>
    cases hs
    exact h.shutdown control

theorem of_reaches {telemetry : Bool} (h : Reaches ExecutionSlots.step (fun _ _ ↦ True) (.start k telemetry) w) :
    Inv k w := by
  refine h.invariant ⟨.start telemetry, fun lane u ↦ ?_, fun lane ↦ .nil, fun c hc ↦ ?_⟩
    fun _ _ _ hi _ hs ↦ hi.step hs
  · simp [Servicer.start, Semaphore.waiting, Servicer.waitsAt]
  · cases hc

end Inv

theorem admitted_eq (hok : ∀ c ∈ w.calls, c.Ok) (lane : Bool) :
    w.admitted lane = w.computing lane + w.lingering lane := by
  unfold Servicer.admitted Servicer.computing Servicer.lingering
  generalize w.calls = calls at hok ⊢
  induction calls with
  | nil => rfl
  | cons c calls ih =>
    obtain ⟨hc, hcalls⟩ := List.forall_mem_cons.mp hok
    have hcount : (if c.admittedOn lane = true then 1 else 0) =
        (if c.computesOn lane = true then 1 else 0) + if c.lingersOn lane = true then 1 else 0 := by
      unfold Call.lingersOn Call.admittedOn Call.computesOn
      by_cases hcomp : c.computing = true
      · simp [hcomp, hc.admitted_of_computing hcomp]
      · simp [hcomp]
    rw [List.countP_cons, List.countP_cons, List.countP_cons, ih hcalls, hcount]
    omega

/-- What the counters of a servicer with `k` slots say about its calls. -/
structure Counted (k : Bool → ℕ) (w : Servicer ρ) : Prop where
  active : w.activeExecutions = w.computing false + w.lingering false
  active_le : w.activeExecutions ≤ k false
  queued : w.queuedExecutions = w.waiting false
  queued_nonneg : 0 ≤ w.queuedExecutions
  telemetry : ∀ m ∈ w.telemetry, m.queued = w.queuedExecutions ∧ m.active = w.activeExecutions
  /-- A slot is with an admitted call, or it is free. -/
  slots : ∀ lane, (w.slots lane).free + w.admitted lane = k lane
  /-- A call stays admitted as long as its computation has not ended, cancelled or not. -/
  keeps : ∀ c ∈ w.calls, c.computing = true → c.pc.admitted = true
  idle : w.Idle → w.activeExecutions = 0 ∧ w.queuedExecutions = 0 ∧ (∀ m ∈ w.telemetry, m = ⟨0, 0⟩) ∧
    ∀ lane, (w.slots lane).value = k lane

theorem Inv.idle (h : Inv k w) (hidle : w.Idle) : w.activeExecutions = 0 ∧ w.queuedExecutions = 0 ∧
    (∀ m ∈ w.telemetry, m = ⟨0, 0⟩) ∧ ∀ lane, (w.slots lane).value = k lane := by
  obtain ⟨hb, hq⟩ := h
  have hnone {p : Call ρ → Bool} (hp : ∀ control result future, p ⟨control, .done result, future⟩ = false) :
      w.calls.countP p = 0 := by
    refine List.countP_eq_zero.mpr fun c hc ↦ ?_
    obtain ⟨result, hpc⟩ := hidle c hc
    obtain ⟨control, pc, future⟩ := c
    cases hpc
    simp [hp]
  have hadmitted (lane : Bool) : w.admitted lane = 0 := hnone fun _ _ _ ↦ Bool.and_false _
  have hwaiting (lane : Bool) : w.waiting lane = 0 := hnone fun _ _ _ ↦ Bool.and_false _
  have hactive : w.activeExecutions = 0 := hb.active.trans (congrArg _ (hadmitted false))
  have hqueued : w.queuedExecutions = 0 := hb.queued.trans (congrArg _ (hwaiting false))
  refine ⟨hactive, hqueued, fun m hm ↦ ?_, fun lane ↦ ?_⟩
  · rw [hb.telemetry m hm, hactive, hqueued]
  · have hempty : (w.slots lane).waiting = [] := by
      refine List.eq_nil_iff_forall_not_mem.mpr fun t ht ↦ ?_
      obtain ⟨c, hc, hwaits⟩ := (hq.mem_iff lane t).mp ht
      have hpos : 0 < w.waiting lane := List.countP_pos_iff.mpr ⟨c, List.mem_of_getElem? hc, hwaits⟩
      exact absurd (hwaiting lane) hpos.ne'
    have hslots := hb.slots lane
    rwa [hadmitted, Nat.add_zero, Semaphore.free, List.map_eq_nil_iff.mp hempty, List.countP_nil, Nat.add_zero]
      at hslots

/-- Whatever calls there are, however their functions end and whenever they are cancelled, the counters say
which of them wait for a slot and which have one. -/
theorem counted_of_reaches {telemetry : Bool} (h : Reaches step (fun _ _ ↦ True) (.start k telemetry) w) :
    Counted k w := by
  have hinv := Inv.of_reaches h
  have hactive := hinv.balanced.active
  have hslots := hinv.balanced.slots
  constructor
  · rw [hactive, admitted_eq hinv.queued.ok]
    exact Int.natCast_add _ _
  · have hfree := hslots false
    omega
  · exact hinv.balanced.queued
  · rw [hinv.balanced.queued]
    exact Int.natCast_nonneg _
  · intro m hm
    rw [hinv.balanced.telemetry m hm]
    exact ⟨rfl, rfl⟩
  · exact hslots
  · exact fun c hc ↦ (hinv.queued.ok c hc).admitted_of_computing
  · exact hinv.idle

/-- One slot, a call that was cancelled while its function runs and one that waits. -/
theorem counted_of_cancelled_call : ∃ w : Servicer Unit, w.activeExecutions = 1 ∧ w.queuedExecutions = 1 ∧
    Counted (fun _ ↦ 1) w := by
  have h : Reaches step (fun _ _ ↦ True) (.start (fun _ ↦ 1) true : Servicer Unit) _ :=
    .next (.resume 0) (.next (.cancel 0) (.next (.call false) (.next (.take 0) (.next (.call false) .start trivial rfl)
      trivial rfl) trivial rfl) trivial rfl) trivial rfl
  exact ⟨_, rfl, rfl, counted_of_reaches h⟩

/-- The future of a call is finished, and its task has not run since. -/
theorem finished_future_is_active : ∃ w : Servicer Unit,
    Reaches step (fun _ _ ↦ True) (.start (fun _ ↦ 1) true) w ∧ w.activeExecutions ≠ w.computing false := by
  refine ⟨_, .next (.deliver 0) (.next (.finish 0 (.ok ())) (.next (.take 0) (.next (.call false) .start trivial rfl)
    trivial rfl) trivial rfl) trivial rfl, ?_⟩
  decide

end SplitFleet.ExecutionSlots
