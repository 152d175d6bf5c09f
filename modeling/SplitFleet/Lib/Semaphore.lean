import Mathlib.Data.List.Nodup

set_option autoImplicit false

namespace SplitFleet.Lib

variable {α : Type}

/-- The future that somebody waits on for a semaphore. -/
inductive Turn
  | pending
  | granted
  | cancelled
  deriving DecidableEq

/-- A counting semaphore that serves those who wait for it in their order. A permit is taken off the
value when it is granted, and whoever waits runs only later. -/
structure Semaphore (α : Type) where
  value : ℕ
  waiters : List (α × Turn)

namespace Semaphore

def grantFirst : List (α × Turn) → Option (List (α × Turn))
  | [] => none
  | (a, .pending) :: ws => some ((a, .granted) :: ws)
  | w :: ws => (grantFirst ws).map (w :: ·)

def wakeUpNext (s : Semaphore α) : Semaphore α :=
  match grantFirst s.waiters with
  | none => s
  | some ws => ⟨s.value - 1, ws⟩

def release (s : Semaphore α) : Semaphore α := wakeUpNext ⟨s.value + 1, s.waiters⟩

def locked (s : Semaphore α) : Bool := s.value == 0 || s.waiters.any fun w ↦ w.2 ≠ .cancelled

/-- The permit of somebody who does not have to wait. -/
def tryAcquire (s : Semaphore α) : Option (Semaphore α) :=
  if s.locked then none else some ⟨s.value - 1, s.waiters⟩

def wait (s : Semaphore α) (a : α) : Semaphore α := ⟨s.value, s.waiters ++ [(a, .pending)]⟩

variable [DecidableEq α]

def turn (s : Semaphore α) (a : α) : Option Turn := s.waiters.lookup a

def cancel (s : Semaphore α) (a : α) : Semaphore α :=
  ⟨s.value, s.waiters.map fun w ↦ if w = (a, .pending) then (a, .cancelled) else w⟩

def remove (s : Semaphore α) (a : α) : Semaphore α := ⟨s.value, s.waiters.eraseP (·.1 == a)⟩

/-- Somebody who was granted a permit runs. -/
def proceed (s : Semaphore α) (a : α) : Semaphore α :=
  if 0 < s.value then (s.remove a).wakeUpNext else s.remove a

/-- Somebody who was granted a permit runs with an exception. -/
def giveBack (s : Semaphore α) (a : α) : Semaphore α := (s.remove a).release

end Semaphore

/-! ### Conservation -/

namespace Semaphore

/-- The permits that nobody holds who has run since. -/
def free (s : Semaphore α) : ℕ := s.value + s.waiters.countP (·.2 = .granted)

def waiting (s : Semaphore α) : List α := s.waiters.map Prod.fst

theorem grantFirst_spec {ws ws' : List (α × Turn)} (h : grantFirst ws = some ws') :
    ws'.map Prod.fst = ws.map Prod.fst ∧ ws'.countP (·.2 = .granted) = ws.countP (·.2 = .granted) + 1 := by
  fun_induction grantFirst ws generalizing ws' with
  | case1 => cases h
  | case2 a ws =>
    cases h
    simp
  | case3 w ws hw ih =>
    obtain ⟨us, hus, rfl⟩ := Option.map_eq_some_iff.mp h
    obtain ⟨hfst, hcount⟩ := ih hus
    rw [List.map_cons, List.map_cons, hfst, List.countP_cons, List.countP_cons, hcount]
    exact ⟨rfl, by omega⟩

@[simp] theorem waiting_wakeUpNext (s : Semaphore α) : s.wakeUpNext.waiting = s.waiting := by
  unfold wakeUpNext
  cases h : grantFirst s.waiters with
  | none => rfl
  | some ws => exact (grantFirst_spec h).1

@[simp] theorem waiting_release (s : Semaphore α) : s.release.waiting = s.waiting := waiting_wakeUpNext _

theorem free_wakeUpNext {s : Semaphore α} (hs : 0 < s.value) : s.wakeUpNext.free = s.free := by
  unfold wakeUpNext
  cases h : grantFirst s.waiters with
  | none => rfl
  | some ws =>
    have hcount := (grantFirst_spec h).2
    unfold free
    dsimp only
    omega

@[simp] theorem free_release (s : Semaphore α) : s.release.free = s.free + 1 := by
  have h : (wakeUpNext ⟨s.value + 1, s.waiters⟩).free = free ⟨s.value + 1, s.waiters⟩ :=
    free_wakeUpNext s.value.succ_pos
  have hfree : free ⟨s.value + 1, s.waiters⟩ = s.free + 1 := Nat.add_right_comm ..
  exact h.trans hfree

theorem tryAcquire_spec {s s' : Semaphore α} (h : s.tryAcquire = some s') :
    s'.free + 1 = s.free ∧ s'.waiting = s.waiting := by
  unfold tryAcquire at h
  split_ifs at h with hl
  cases h
  have hpos : s.value ≠ 0 := by
    intro h0
    exact hl (by simp [locked, h0])
  refine ⟨?_, rfl⟩
  unfold free
  dsimp only
  omega

@[simp] theorem free_wait (s : Semaphore α) (a : α) : (s.wait a).free = s.free := by
  simp [wait, free]

@[simp] theorem waiting_wait (s : Semaphore α) (a : α) : (s.wait a).waiting = s.waiting ++ [a] := by
  simp [wait, waiting]

variable [DecidableEq α]

@[simp] theorem waiting_cancel (s : Semaphore α) (a : α) : (s.cancel a).waiting = s.waiting := by
  unfold waiting cancel
  rw [List.map_map]
  refine List.map_congr_left fun w _ ↦ ?_
  rw [Function.comp_apply]
  split_ifs with hw
  · rw [hw]
  · rfl

@[simp] theorem free_cancel (s : Semaphore α) (a : α) : (s.cancel a).free = s.free := by
  unfold free cancel
  rw [List.countP_map]
  refine congrArg (s.value + ·) (List.countP_congr fun w _ ↦ ?_)
  rw [Function.comp_apply]
  split_ifs with hw
  · simp [hw]
  · rfl

@[simp] theorem waiting_remove (s : Semaphore α) (a : α) : (s.remove a).waiting = s.waiting.erase a := by
  unfold waiting remove
  rw [List.erase_eq_eraseP', List.eraseP_map]
  rfl

theorem countP_waiters_remove {s : Semaphore α} {a : α} {u : Turn} (h : s.turn a = some u) :
    (s.remove a).waiters.countP (·.2 = .granted) + (if u = .granted then 1 else 0) =
      s.waiters.countP (·.2 = .granted) := by
  obtain ⟨l₁, l₂, hl, hne⟩ := List.lookup_eq_some_iff.mp h
  have herase : (s.remove a).waiters = l₁ ++ l₂ := by
    unfold remove
    have hl₁ : ∀ p ∈ l₁, ¬ (p.1 == a) = true := by
      intro p hp hpa
      obtain rfl := eq_of_beq hpa
      simpa using hne p hp
    dsimp only
    rw [hl, List.eraseP_append_right _ hl₁]
    simp
  rw [herase, hl, List.countP_append, List.countP_append, List.countP_cons]
  simp only [decide_eq_true_eq]
  omega

theorem free_remove_of_granted {s : Semaphore α} {a : α} (h : s.turn a = some .granted) :
    (s.remove a).free + 1 = s.free := by
  have hcount := countP_waiters_remove h
  have hvalue : (s.remove a).value = s.value := rfl
  rw [if_pos rfl] at hcount
  unfold free
  omega

theorem free_remove_of_cancelled {s : Semaphore α} {a : α} (h : s.turn a = some .cancelled) :
    (s.remove a).free = s.free := by
  have hcount := countP_waiters_remove h
  have hvalue : (s.remove a).value = s.value := rfl
  rw [if_neg (by decide)] at hcount
  unfold free
  omega

theorem free_proceed {s : Semaphore α} {a : α} (h : s.turn a = some .granted) : (s.proceed a).free + 1 = s.free := by
  have hremove := free_remove_of_granted h
  unfold proceed
  split_ifs with hs
  · have hwake : (s.remove a).wakeUpNext.free = (s.remove a).free := free_wakeUpNext hs
    omega
  · exact hremove

theorem free_giveBack {s : Semaphore α} {a : α} (h : s.turn a = some .granted) : (s.giveBack a).free = s.free := by
  unfold giveBack
  rw [free_release, free_remove_of_granted h]

@[simp] theorem waiting_proceed (s : Semaphore α) (a : α) : (s.proceed a).waiting = s.waiting.erase a := by
  unfold proceed
  split_ifs <;> simp

@[simp] theorem waiting_giveBack (s : Semaphore α) (a : α) : (s.giveBack a).waiting = s.waiting.erase a := by
  simp [giveBack]

end Semaphore

end SplitFleet.Lib
