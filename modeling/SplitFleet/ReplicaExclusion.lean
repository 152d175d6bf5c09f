import SplitFleet.SuffixRuns

set_option autoImplicit false

namespace SplitFleet.ReplicaExclusion

open Lib RequestGroup SuffixService SuffixInvariant SuffixRuns

variable {π : Type} {req : ℕ → Request π} {w : World π}

/-- The sid of the replica that a function works on. -/
def target : Work → Sid
  | .acquireReplica sid => sid
  | .finishReplica sid _ => sid
  | .computeGroup sid _ => sid

/-- The executor has begun the function and has not ended it. -/
def Executing (job : Job) : Prop := job.phase ≠ .queued ∧ Active job.phase

/-- A future that is not over works on the replica whose lock its owner holds. -/
theorem target_of_owner (h : Inv req w) {j t : ℕ} {job : Job} (hj : w.jobs j = some job)
    (ha : Active job.phase) (ho : job.owner = some t) : ∃ l context cancelled,
      w.pcs t = .inside (target job.work) l (.exec context (.shield j cancelled)) := by
  obtain ⟨sid, l, context, cancelled, ht, -, hc, hwork⟩ := job_spec h hj ha ho
  have htarget : target job.work = sid := by
    rw [hwork]
    cases context with
    | acquire => rfl
    | cleanup => rfl
    | finish success => rfl
    | compute g callback => exact hc.2.1
  exact ⟨l, context, cancelled, htarget ▸ ht⟩

/-- A future of `reconcile` is not over only while no request is registered. -/
theorem reconcile_of_none (h : Inv req w) {j : ℕ} {job : Job} (hj : w.jobs j = some job)
    (ha : Active job.phase) (ho : job.owner = none) :
    w.requests = ∅ ∧ ∃ sid rest, w.reconcile = .shield j sid rest := by
  have howned := h.owned j job hj ha
  rw [ho] at howned
  obtain ⟨sid, rest, hr⟩ := howned
  have hreconcile := h.reconcile
  rw [hr] at hreconcile
  exact ⟨hreconcile.1, sid, rest, hr⟩

/-- At any time at most one function is submitted for a replica and not over. -/
theorem active_unique (h : Inv req w) {j j' : ℕ} {job job' : Job} (hj : w.jobs j = some job)
    (hj' : w.jobs j' = some job') (ha : Active job.phase) (ha' : Active job'.phase)
    (ht : target job.work = target job'.work) : j = j' := by
  cases ho : job.owner with
  | none =>
    obtain ⟨he, sid, rest, hr⟩ := reconcile_of_none h hj ha ho
    cases ho' : job'.owner with
    | none =>
      obtain ⟨-, sid', rest', hr'⟩ := reconcile_of_none h hj' ha' ho'
      cases hr.symm.trans hr'
      rfl
    | some t =>
      obtain ⟨_, _, _, _, _, hreg, _⟩ := job_spec h hj' ha' ho'
      exact absurd (he ▸ hreg.1) (Finset.notMem_empty t)
  | some t =>
    obtain ⟨l, context, cancelled, hpc⟩ := target_of_owner h hj ha ho
    cases ho' : job'.owner with
    | none =>
      obtain ⟨he, -⟩ := reconcile_of_none h hj' ha' ho'
      obtain ⟨_, _, _, _, _, hreg, _⟩ := job_spec h hj ha ho
      exact absurd (he ▸ hreg.1) (Finset.notMem_empty t)
    | some t' =>
      obtain ⟨l', context', cancelled', hpc'⟩ := target_of_owner h hj' ha' ho'
      cases h.inside_unique hpc (ht ▸ hpc')
      cases hpc.symm.trans (ht ▸ hpc')
      rfl

/-- Of one replica at most one suffix computation is executed, and no `finish_replica` beside it. -/
structure Exclusive (w : World π) : Prop where
  compute : ∀ sid j j' job job' g g', w.jobs j = some job → w.jobs j' = some job' →
    job.work = .computeGroup sid g → job'.work = .computeGroup sid g' →
    Executing job → Executing job' → j = j'
  finish : ∀ sid j j' job job' g success, w.jobs j = some job → w.jobs j' = some job' →
    job.work = .computeGroup sid g → job'.work = .finishReplica sid success →
    Executing job → ¬Executing job'

theorem exclusive (hw : Reachable req w) : Exclusive w := by
  have h := reachable_inv hw
  constructor
  · intro sid j j' job job' g g' hj hj' hwork hwork' hx hx'
    apply active_unique h hj hj' hx.2 hx'.2
    rw [hwork, hwork']
    rfl
  · intro sid j j' job job' g success hj hj' hwork hwork' hx hx'
    have hjj : j = j' := by
      apply active_unique h hj hj' hx.2 hx'.2
      rw [hwork, hwork']
      rfl
    subst hjj
    cases hj.symm.trans hj'
    cases hwork.symm.trans hwork'

def training (t : ℕ) : Request ℕ :=
  if t = 0 then ⟨"a", .virtualAcquire, some 0, 0, none, none⟩
  else if t = 1 then ⟨"a", .trainTail, some 0, 0, some ("a", 1), none⟩
  else ⟨"a", .virtualAbort, some 0, 0, none, none⟩

/-- While a suffix step runs whose request was cancelled, the client aborts. -/
def abortWhileTraining : List Action :=
  [.prepareRound ["a"] 1 (Dict.ofList [("a", "s")]), .resume 0 "", .resume 0 "", .resume 0 "", .resume 0 "",
    .resume 0 "", .work 0 true, .work 0 true, .work 0 true, .work 0 true, .resume 0 "",
    .resume 1 "", .resume 1 "", .resume 1 "r", .resume 1 "", .resume 1 "", .work 1 true, .cancel 1,
    .resume 2 ""]

/-- The abort still waits for the lock then, and the step is executed. -/
theorem abortWhileTraining_exclusive : ∃ w, run training (.start 1 1 false) abortWhileTraining = some w ∧
    (∃ job, w.jobs 1 = some job ∧ job.work = .computeGroup "s" 0 ∧ job.phase = .running) ∧
    w.pcs 2 = .waitLock "s" 0 ∧ w.locks 0 = some 1 ∧ Exclusive w :=
  ⟨_, rfl, ⟨_, rfl, rfl, rfl⟩, rfl, rfl,
    @exclusive ℕ training _ (reachable_run (.start 1 1 false) abortWhileTraining rfl)⟩

end SplitFleet.ReplicaExclusion
