import SplitFleet.SuffixRuns
import SplitFleet.Lib.Permits

set_option autoImplicit false

namespace SplitFleet.SlotConservation

open Lib RequestGroup SuffixService SuffixInvariant SuffixRuns

variable {π : Type} {req : ℕ → Request π} {w w' : World π} {t : ℕ} {sid : Sid} {l : ℕ}

def permits (w : World π) : Permits Sid := ⟨w.capacity, w.free, w.holders⟩

/-- A step moves the slots as permits, and only those of sids that are not live go back. -/
def Moved (w w' : World π) : Prop := (permits w).Move (fun sid ↦ sid ∉ w.live) (permits w')

theorem Moved.keep (hp : permits w' = permits w) : Moved w w' := by
  unfold Moved
  rw [hp]
  exact .keep

theorem Moved.andKeep {w'' : World π} (h : Moved w w') (hp : permits w'' = permits w') : Moved w w'' := by
  unfold Moved
  rw [hp]
  exact h

section Keep

variable (w)

@[simp] theorem permits_setPc (t : ℕ) (pc : Pc) : permits (w.setPc t pc) = permits w := rfl

@[simp] theorem permits_enter (t : ℕ) (sid : Sid) (l : ℕ) (i : Inside) :
    permits (w.enter t sid l i) = permits w := rfl

@[simp] theorem permits_unregister (t : ℕ) : permits (w.unregister t) = permits w := rfl

@[simp] theorem permits_setLock (l : ℕ) (holder : Option ℕ) : permits (w.setLock l holder) = permits w := rfl

@[simp] theorem permits_leave (t l : ℕ) : permits (w.leave t l) = permits w := rfl

@[simp] theorem permits_log (token : Option Token) (act : Act) : permits (w.log token act) = permits w := rfl

@[simp] theorem permits_setLeases (leases : Finset Sid) : permits (w.setLeases leases) = permits w := rfl

@[simp] theorem permits_setLeaseLock (holder : Option ℕ) : permits (w.setLeaseLock holder) = permits w := rfl

@[simp] theorem permits_setRouting (r : Routing (Request π)) : permits (w.setRouting r) = permits w := rfl

@[simp] theorem permits_setReconcile (r : Reconcile) : permits (w.setReconcile r) = permits w := rfl

@[simp] theorem permits_storeUpload (cid : Cid) (parameters : π) :
    permits (w.storeUpload cid parameters) = permits w := rfl

@[simp] theorem permits_register (t : ℕ) (sid : Sid) (l : ℕ) : permits (w.register t sid l) = permits w := rfl

@[simp] theorem permits_settleGroup (g : ℕ) (callback : Option Callback) :
    permits (w.settleGroup g callback) = permits w := rfl

@[simp] theorem permits_submit (owner : Option ℕ) (control : Bool) (work : Work) :
    permits (w.submit owner control work) = permits w := rfl

@[simp] theorem permits_retire (control : Bool) (j : ℕ) : permits (w.retire control j) = permits w := rfl

@[simp] theorem permits_setPhase (j : ℕ) (job : Job) (phase : Phase) :
    permits (w.setPhase j job phase) = permits w := rfl

@[simp] theorem permits_setLive (live : Finset Sid) : permits (w.setLive live) = permits w := rfl

@[simp] theorem permits_setAttempted (attempted : Finset Sid) :
    permits (w.setAttempted attempted) = permits w := rfl

@[simp] theorem permits_logFor (owner : Option ℕ) (act : Act) :
    permits (w.logFor req owner act) = permits w := by
  cases owner <;> rfl

@[simp] theorem permits_replicaLock (sid : Sid) : permits (w.replicaLock sid).1 = permits w := by
  unfold World.replicaLock
  cases w.replicaLocks.get? sid <;> rfl

end Keep

/-! ### One step -/

theorem moved_releaseReplicaSlot (hm : sid ∈ w.holders) : Moved w (w.releaseReplicaSlot sid) := by
  unfold World.releaseReplicaSlot
  split_ifs with hc
  · have hfree : permits { w with
        leases := w.leases.erase sid
        holders := w.holders.erase sid
        slots := Function.update w.slots w.replicaSlots (w.slots w.replicaSlots + 1) } =
        ⟨w.capacity, w.free + 1, w.holders.erase sid⟩ :=
      congrArg (Permits.mk w.capacity · (w.holders.erase sid)) (Function.update_self ..)
    unfold Moved
    rw [hfree]
    exact .giveBack sid hm hc.1
  · exact .keep rfl

theorem moved_afterExecute {c : Cid} {context : Context} (hc : ContextOk w c sid context) (ok : Bool) :
    Moved w (w.afterExecute t sid l ok context) := by
  cases context with
  | acquire => cases ok <;> exact .keep rfl
  | cleanup => exact (moved_releaseReplicaSlot hc).andKeep (permits_leave _ t l)
  | finish success => exact (moved_releaseReplicaSlot hc).andKeep (permits_leave _ t l)
  | compute g callback => cases ok <;> exact .keep rfl

theorem moved_resumeInside (h : Inv req w) {i : Inside} (ht : w.pcs t = .inside sid l i)
    {requestId : String} (hs : w.resumeInside t (req t) sid l requestId i = some w') : Moved w w' := by
  have hawait := h.awaitOk ht
  cases i with
  | abort =>
    cases hs
    exact .keep (by simp)
  | waitLease =>
    unfold World.resumeInside at hs
    simp only at hs
    split_ifs at hs
    · cases hs
      exact .keep (by simp)
    · cases hs
      exact .keep (by simp)
  | leaseAbort =>
    cases hs
    exact .keep (by simp)
  | waitSlot s =>
    unfold World.resumeInside at hs
    simp only at hs
    split_ifs at hs with hfree
    cases hs
    obtain ⟨rfl, -, hn⟩ := hawait
    have hpermits : permits (((w.log (req t).token (.takeSlot sid)).takeSlot w.replicaSlots sid).enter t sid l
        (.exec .acquire .slots)) = ⟨w.capacity, w.free - 1, insert sid w.holders⟩ :=
      congrArg (Permits.mk w.capacity · (insert sid w.holders)) (Function.update_self ..)
    unfold Moved
    rw [hpermits]
    exact .grant sid hn hfree
  | exec context e =>
    cases e with
    | slots =>
      unfold World.resumeInside at hs
      simp only at hs
      split_ifs at hs
      cases hs
      exact .keep (by simp)
    | shield j cancelled =>
      obtain ⟨hc, phase, hj⟩ := hawait
      unfold World.resumeInside at hs
      simp only [hj] at hs
      cases phase with
      | done ok =>
        cases hs
        have hc' : ContextOk (w.retire context.isControl j) (req t).cid sid context := hc
        exact moved_afterExecute hc' _
      | queued => cases hs
      | running => cases hs
      | admitted => cases hs
      | effected => cases hs
  | joining =>
    cases hs
    unfold World.join
    cases w.routing.join t (req t).cid (req t).method.name requestId (req t) <;> exact .keep (by simp)
  | waitReady g callback =>
    unfold World.resumeInside at hs
    simp only at hs
    split_ifs at hs
    cases hs
    exact .keep (by simp)
  | waitEvent =>
    unfold World.resumeInside at hs
    simp only at hs
    split_ifs at hs
    cases hs
    exact .keep (by simp)

theorem moved_enqueue (w : World π) (t : ℕ) (r : Request π) : Moved w (w.enqueue t r) := by
  unfold World.enqueue
  cases w.routing.cidToSidMapping.get? r.cid with
  | none => exact .keep rfl
  | some sid => exact .keep (by simp)

theorem moved_begin (w : World π) (t : ℕ) (r : Request π) : Moved w (w.begin t r) := by
  have habort : Moved w (w.setPc t .abort) := .keep rfl
  have hregister := moved_enqueue w t r
  unfold World.begin
  split_ifs
  · exact habort
  · exact .keep (by simp)
  · exact habort
  · cases r.method with
    | other name => exact habort
    | probe => exact hregister
    | trainTail => exact hregister
    | evaluateTail => exact hregister
    | virtualAcquire => exact hregister
    | virtualCommit => exact hregister
    | virtualAbort => exact hregister
    | virtualDownloadState => exact hregister
    | virtualUploadState => exact hregister

theorem moved_checkBoundary (w : World π) (t : ℕ) (r : Request π) (sid : Sid) (l : ℕ) :
    Moved w (w.checkBoundary t r sid l) := by
  unfold World.checkBoundary
  cases r.boundary with
  | none => exact .keep rfl
  | some boundary =>
    simp only
    split_ifs <;> exact .keep rfl

theorem moved_replicaRequest (w : World π) (t : ℕ) (r : Request π) (sid : Sid) (l : ℕ) :
    Moved w (w.replicaRequest t r sid l) := by
  unfold World.replicaRequest
  by_cases hacquire : r.method = .virtualAcquire
  · rw [if_pos hacquire]
    exact .keep (by simp)
  rw [if_neg hacquire]
  by_cases hlive : sid ∈ w.live
  · rw [if_neg (not_not.mpr hlive)]
    cases r.method with
    | virtualUploadState => cases r.upload <;> exact .keep (by simp)
    | trainTail => exact moved_checkBoundary w t r sid l
    | evaluateTail => exact moved_checkBoundary w t r sid l
    | virtualCommit => exact .keep (by simp)
    | virtualAbort => exact .keep (by simp)
    | probe => exact .keep (by simp)
    | virtualAcquire => exact .keep (by simp)
    | virtualDownloadState => exact .keep (by simp)
    | other name => exact .keep (by simp)
  · rw [if_pos hlive]
    exact .keep (by simp)

theorem moved_resume (h : Inv req w) {requestId : String}
    (hs : w.resume t (req t) requestId = some w') : Moved w w' := by
  unfold World.resume at hs
  cases ht : w.pcs t with
  | new =>
    simp only [ht, Option.some.injEq] at hs
    exact hs ▸ moved_begin w t (req t)
  | abort =>
    simp only [ht, Option.some.injEq] at hs
    subst hs
    exact .keep (by simp)
  | waitLock sid l =>
    simp only [ht] at hs
    split_ifs at hs with hl
    cases hs
    unfold World.locked
    split_ifs
    · exact .keep (by simp)
    · exact moved_replicaRequest (w.setLock l (some t)) t (req t) sid l
  | inside sid l i =>
    simp only [ht] at hs
    exact moved_resumeInside h ht hs
  | done => simp [ht] at hs

theorem moved_cancel (h : Inv req w) (hs : w.cancel t = some w') : Moved w w' := by
  unfold World.cancel at hs
  cases ht : w.pcs t with
  | new =>
    simp only [ht, Option.some.injEq] at hs
    subst hs
    exact .keep (by simp)
  | abort =>
    simp only [ht, Option.some.injEq] at hs
    subst hs
    exact .keep (by simp)
  | waitLock sid l =>
    simp only [ht, Option.some.injEq] at hs
    subst hs
    exact .keep (by simp)
  | inside sid l i =>
    simp only [ht, Option.some.injEq] at hs
    subst hs
    have hawait := h.awaitOk ht
    cases i with
    | exec context e =>
      cases e with
      | slots => exact moved_afterExecute hawait false
      | shield j cancelled => exact .keep rfl
    | abort => exact .keep rfl
    | waitLease => exact .keep rfl
    | leaseAbort => exact .keep rfl
    | waitSlot s => exact .keep rfl
    | joining => exact .keep rfl
    | waitReady g callback => exact .keep rfl
    | waitEvent => exact .keep rfl
  | done => simp [ht] at hs

theorem moved_work {j : ℕ} {ok : Bool} (hs : w.work req j ok = some w') : Moved w w' := by
  unfold World.work at hs
  cases hj : w.jobs j with
  | none => simp [hj] at hs
  | some job =>
    simp only [hj] at hs
    obtain ⟨owner, work, phase⟩ := job
    cases phase with
    | done ok' => cases hs
    | queued =>
      cases work with
      | computeGroup sid g =>
        cases hs
        exact .keep (by simp)
      | acquireReplica sid =>
        cases hs
        exact .keep (by simp)
      | finishReplica sid success =>
        cases hs
        exact .keep (by simp)
    | running =>
      cases work with
      | acquireReplica sid =>
        simp only at hs
        split_ifs at hs
        · cases hs
          exact .keep (by simp)
        · cases hs
          exact .keep (by simp)
      | finishReplica sid success =>
        simp only at hs
        split_ifs at hs
        · cases hs
          exact .keep (by simp)
        · cases hs
          exact .keep (by simp)
        · cases hs
          exact .keep (by simp)
      | computeGroup sid g =>
        cases hs
        exact .keep (by simp)
    | admitted =>
      cases work with
      | acquireReplica sid =>
        simp only at hs
        split_ifs at hs
        · cases hs
          exact .keep (by simp)
        · cases hs
          exact .keep (by simp)
      | finishReplica sid success =>
        cases hs
        exact .keep (by simp)
      | computeGroup sid g =>
        cases hs
        exact .keep (by simp)
    | effected =>
      cases work <;> cases hs <;> exact .keep (by simp)

/-- The last statements of `reconcile` find no live replica. -/
theorem moved_closeRound (h : Inv req w) (hr : w.reconcile = .loop ∅) : Moved w w.closeRound := by
  have hreconcile := h.reconcile
  rw [hr] at hreconcile
  have hfree : permits w.closeRound = ⟨w.capacity, w.capacity, ∅⟩ :=
    congrArg (Permits.mk w.capacity · ∅) (Function.update_self ..)
  unfold Moved
  rw [hfree]
  exact .renew (fun sid _ hm ↦ Finset.notMem_empty sid (hreconcile.2 hm))

theorem moved_reconcileStep (h : Inv req w) (hs : w.reconcileStep sid = some w') : Moved w w' := by
  unfold World.reconcileStep at hs
  cases hr : w.reconcile with
  | idle =>
    simp only [hr, Option.some.injEq] at hs
    subst hs
    exact .keep rfl
  | gather requests =>
    simp only [hr] at hs
    split_ifs at hs
    cases hs
    exact .keep (by simp)
  | drain computations =>
    simp only [hr] at hs
    split_ifs at hs
    cases hs
    exact .keep (by simp)
  | loop rest =>
    simp only [hr] at hs
    split_ifs at hs with hrest
    · cases hs
      exact moved_closeRound h (hrest ▸ hr)
    · cases hs
      exact .keep (by simp)
  | slots sid' rest =>
    simp only [hr] at hs
    split_ifs at hs
    cases hs
    exact .keep (by simp)
  | shield j sid' rest =>
    have hreconcile := h.reconcile
    rw [hr] at hreconcile
    obtain ⟨-, -, phase, hj, -⟩ := hreconcile
    simp only [hr, hj] at hs
    cases phase with
    | done ok =>
      cases hs
      exact .keep (by simp)
    | queued => cases hs
    | running => cases hs
    | admitted => cases hs
    | effected => cases hs

theorem moved_step (h : Inv req w) {a : Action} (hs : step req w a = some w') : Moved w w' := by
  cases a with
  | resume t requestId => exact moved_resume h hs
  | cancel t => exact moved_cancel h hs
  | work j ok => exact moved_work hs
  | reconcile sid => exact moved_reconcileStep h hs
  | prepareRound cids roundId mapping =>
    have hprepare : step req w (.prepareRound cids roundId mapping) = none ∨
        step req w (.prepareRound cids roundId mapping) = some (w.prepareRound cids roundId mapping) := by
      simp only [step]
      split
      · exact .inr rfl
      · exact .inl rfl
    rcases hprepare with hnone | hsome
    · cases hs.symm.trans hnone
    · cases hs.symm.trans hsome
      exact .keep rfl
  | prepareNetworkProbes cids roundId =>
    cases hs
    exact .keep rfl

/-! ### Runs -/

theorem conserved_reachable (h : Reachable req w) : (permits w).Conserved := by
  induction h with
  | start capacity concurrency batch => simp [Permits.Conserved, permits, World.start, World.free]
  | step a h hs ih =>
    exact ih.move (moved_step (reachable_inv h) hs)

/-- The slots, the leases and the live replicas of a state, and what a step may do to the slots. -/
structure Conserved (req : ℕ → Request π) (w : World π) : Prop where
  slots : w.free + w.holders.card = w.capacity
  /-- The sids that hold a slot are those that are leased and do not wait for one. -/
  holders : ∀ sid, sid ∈ w.holders ↔ sid ∈ w.leases ∧ ∀ t l s, w.pcs t ≠ .inside sid l (.waitSlot s)
  live : w.live ⊆ w.leases
  moves : ∀ a w', step req w a = some w' → Moved w w'
  returns : ∀ sid w', w.reconcile = .loop ∅ → step req w (.reconcile sid) = some w' →
    w'.reconcile = .idle ∧ w'.live = ∅ ∧ w'.leases = ∅ ∧ w'.holders = ∅ ∧ w'.free = w'.capacity

theorem returns_closeRound (h : Inv req w) (hr : w.reconcile = .loop ∅)
    (hs : step req w (.reconcile sid) = some w') : w' = w.closeRound ∧ w.live = ∅ := by
  have hreconcile := h.reconcile
  rw [hr] at hreconcile
  unfold step World.reconcileStep at hs
  simp only [hr, if_true, Option.some.injEq] at hs
  exact ⟨hs.symm, Finset.subset_empty.mp hreconcile.2⟩

theorem conserved (h : Reachable req w) : Conserved req w := by
  have hinv := reachable_inv h
  refine ⟨conserved_reachable h, fun sid ↦ ⟨fun hm ↦ ⟨hinv.held hm, fun t l s ht ↦ ?_⟩, fun hl ↦ ?_⟩,
    hinv.live.trans hinv.held, fun a w' hs ↦ moved_step hinv hs, fun sid w' hr hs ↦ ?_⟩
  · exact (hinv.awaitOk ht).2.2 hm
  · by_contra hn
    obtain ⟨t, l, s, ht⟩ := hinv.waiting sid hl.1 hn
    exact hl.2 t l s ht
  · obtain ⟨rfl, hlive⟩ := returns_closeRound hinv hr hs
    exact ⟨rfl, hlive, rfl, rfl, Function.update_self ..⟩

def acquiring (t : ℕ) : Request ℕ := ⟨"a", .virtualAcquire, some 0, t, none, none⟩

/-- One client acquires its replica, and is cancelled while the executor works for it. -/
def acquireCancelled : List Action :=
  [.prepareRound ["a"] 1 (Dict.ofList [("a", "s")]), .resume 0 "", .resume 0 "", .resume 0 "", .resume 0 "",
    .resume 0 "", .cancel 0, .work 0 true, .work 0 true, .work 0 true, .cancel 0, .work 0 true, .resume 0 ""]

theorem acquireCancelled_conserved : ∃ w, run acquiring (.start 1 1 false) acquireCancelled = some w ∧
    w.live = {"s"} ∧ w.holders = {"s"} ∧ w.free = 0 ∧ Conserved acquiring w :=
  ⟨_, rfl, rfl, rfl, rfl, conserved (reachable_run (.start 1 1 false) acquireCancelled rfl)⟩

end SplitFleet.SlotConservation
