import SplitFleet.SuffixInvariant

set_option autoImplicit false

namespace SplitFleet.SuffixRuns

open Lib RequestGroup SuffixService SuffixInvariant

variable {π : Type} {req : ℕ → Request π} {w w' : World π} {t : ℕ} {sid : Sid} {l : ℕ}

/-! ### Steps of a request -/

theorem mem_leases_releaseReplicaSlot (hs : sid ∈ w.leases → sid ∈ w.holders) :
    sid ∈ (w.releaseReplicaSlot sid).leases → sid ∈ (w.releaseReplicaSlot sid).holders := by
  unfold World.releaseReplicaSlot
  split_ifs with hc
  · intro hm
    exact absurd hm (Finset.notMem_erase sid w.leases)
  · exact hs

theorem inv_afterExecute (h : Holding req w t sid l none) {context : Context}
    (hc : ContextOk w (req t).cid sid context) (hs : sid ∈ w.leases → sid ∈ w.holders) (ok : Bool) :
    Inv req (w.afterExecute t sid l ok context) := by
  cases context with
  | acquire =>
    cases ok with
    | true => exact h.leave hs
    | false => exact h.await hc hs
  | cleanup => exact h.releaseReplicaSlot.leave (mem_leases_releaseReplicaSlot hs)
  | finish success => exact h.releaseReplicaSlot.leave (mem_leases_releaseReplicaSlot hs)
  | compute g callback =>
    cases ok with
    | true => exact (h.settleGroup g callback).await (i := .waitEvent) trivial hs
    | false => exact (h.settleGroup g callback).leave hs

theorem inv_resumeInside (h : Inv req w) {i : Inside} (ht : w.pcs t = .inside sid l i)
    {requestId : String} (hs : w.resumeInside t (req t) sid l requestId i = some w') : Inv req w' := by
  have hold := h.holding ht
  have hawait := h.awaitOk ht
  have hsid := hold.registered.2.2.2.1
  cases i with
  | abort =>
    cases hs
    exact hold.leave (h.settled ht (fun _ hi ↦ nomatch hi))
  | waitLease =>
    have hsettled := h.settled ht (fun _ hi ↦ nomatch hi)
    unfold World.resumeInside at hs
    simp only at hs
    split_ifs at hs with hfree hreplay
    · cases hs
      exact (hold.setLeaseLock (some t)).await (i := .leaseAbort) trivial hsettled
    · cases hs
      rw [not_or] at hreplay
      have hnot : sid ∉ w.holders := fun hm ↦ hreplay.1 (h.held hm)
      have hrebind := hold.rebind (insert sid w.leases) w.holders w.slots
        (fun s hne ↦ by simp [hne]) (fun s _ ↦ Iff.rfl) (h.held.trans (Finset.subset_insert ..)) h.live
      exact hrebind.enter ⟨rfl, Finset.mem_insert_self .., hnot⟩ (fun _ ho ↦ nomatch ho) (fun _ _ ↦ ⟨_, rfl⟩)
  | leaseAbort =>
    cases hs
    exact (hold.setLeaseLock none).leave (h.settled ht (fun _ hi ↦ nomatch hi))
  | waitSlot s =>
    unfold World.resumeInside at hs
    simp only at hs
    split_ifs at hs with hfree
    cases hs
    have hlog : Holding req (w.log (req t).token (.takeSlot sid)) t sid l none := hold.log hsid
    have hrebind := hlog.rebind w.leases (insert sid w.holders)
      (Function.update w.slots s (w.slots s - 1)) (fun s' _ ↦ Iff.rfl) (fun s' hne ↦ by simp [hne, World.log])
      (Finset.insert_subset hawait.2.1 h.held) (h.live.trans (Finset.subset_insert ..))
    exact hrebind.await (Finset.mem_insert_self ..) (fun _ ↦ Finset.mem_insert_self ..)
  | exec context e =>
    have hsettled := h.settled ht (fun _ hi ↦ nomatch hi)
    cases e with
    | slots =>
      unfold World.resumeInside at hs
      simp only at hs
      split_ifs at hs with hlane
      cases hs
      refine (hold.submit context.isControl (context.work sid w.routing)).enter ⟨hawait, .queued, ?_⟩
        (fun j ho ↦ ?_) (fun hl hh ↦ absurd (hsettled hl) hh)
      · exact Function.update_self ..
      · cases ho
        exact ⟨_, _, rfl⟩
    | shield j cancelled =>
      obtain ⟨hc, phase, hj⟩ := hawait
      unfold World.resumeInside at hs
      simp only [hj] at hs
      cases phase with
      | done ok =>
        cases hs
        exact inv_afterExecute ((hold.finished hj rfl).retire context.isControl j) hc hsettled _
      | queued => cases hs
      | running => cases hs
      | admitted => cases hs
      | effected => cases hs
  | joining =>
    have hsettled := h.settled ht (fun _ hi ↦ nomatch hi)
    cases hs
    unfold World.join
    cases hj : w.routing.join t (req t).cid (req t).method.name requestId (req t) with
    | none => exact hold.leave hsettled
    | some res =>
      obtain ⟨routing, g, callback, isNew⟩ := res
      refine (hold.join hj).await ?_ hsettled
      have hjoined := h.routing.joined hj hsid
      cases isNew with
      | false => trivial
      | true => exact ⟨hjoined.2.1, hjoined.1, (hjoined.2.2.2.2 rfl).2⟩
  | waitReady g callback =>
    have hsettled := h.settled ht (fun _ hi ↦ nomatch hi)
    unfold World.resumeInside at hs
    simp only at hs
    split_ifs at hs with hready
    cases hs
    exact hold.await hawait hsettled
  | waitEvent =>
    unfold World.resumeInside at hs
    simp only at hs
    split_ifs at hs with hanswered
    cases hs
    exact hold.leave (h.settled ht (fun _ hi ↦ nomatch hi))

theorem inv_cancelInside (h : Inv req w) {i : Inside} (ht : w.pcs t = .inside sid l i) :
    Inv req (w.cancelInside t sid l i) := by
  have hold := h.holding ht
  have hawait := h.awaitOk ht
  cases i with
  | abort => exact hold.leave (h.settled ht (fun _ hi ↦ nomatch hi))
  | waitLease => exact hold.leave (h.settled ht (fun _ hi ↦ nomatch hi))
  | joining => exact hold.leave (h.settled ht (fun _ hi ↦ nomatch hi))
  | waitEvent => exact hold.leave (h.settled ht (fun _ hi ↦ nomatch hi))
  | leaseAbort => exact (hold.setLeaseLock none).leave (h.settled ht (fun _ hi ↦ nomatch hi))
  | waitSlot s =>
    have hrebind := hold.rebind (w.leases.erase sid) w.holders w.slots (fun s hne ↦ by simp [hne])
      (fun s _ ↦ Iff.rfl) (Finset.subset_erase.mpr ⟨h.held, hawait.2.2⟩) h.live
    exact hrebind.leave (fun hm ↦ absurd hm (Finset.notMem_erase sid w.leases))
  | exec context e =>
    have hsettled := h.settled ht (fun _ hi ↦ nomatch hi)
    cases e with
    | slots => exact inv_afterExecute hold hawait hsettled false
    | shield j cancelled =>
      -- the request goes on waiting for the future that it owns
      refine hold.enter hawait (fun j' ho ↦ ?_) (fun hl hh ↦ absurd (hsettled hl) hh)
      cases ho
      exact ⟨context, true, rfl⟩
  | waitReady g callback =>
    exact (hold.settleGroup g callback).leave (h.settled ht (fun _ hi ↦ nomatch hi))

theorem inv_setPc (h : Inv req w) (ht : ∀ sid l i, w.pcs t ≠ .inside sid l i) {pc : Pc}
    (hpc : TaskOk req (w.setPc t pc) t pc) : Inv req (w.setPc t pc) :=
  h.move ht (fun _ _ ↦ Iff.rfl) (.inl (Finset.Subset.refl _)) hpc

theorem inv_enqueue (h : Inv req w) (ht : w.pcs t = .new) (hnot : t ∉ w.requests)
    (hsome : w.tokens.get? (req t).cid ≠ none) (htoken : w.tokens.get? (req t).cid = (req t).token) :
    Inv req (w.enqueue t (req t)) := by
  have hout : ∀ sid l i, w.pcs t ≠ .inside sid l i := by
    intro sid l i heq
    cases ht.symm.trans heq
  unfold World.enqueue
  cases hs : w.routing.cidToSidMapping.get? (req t).cid with
  | none => exact inv_setPc h hout hnot
  | some sid =>
    obtain ⟨token, hget⟩ := Option.ne_none_iff_exists'.mp hsome
    obtain ⟨hissued, hopen, hidle⟩ := h.tokens _ _ hget
    obtain ⟨hlock, hlget⟩ := h.replicaLock sid
    have hframe : ∃ locks replicaLocks lockCount, (w.replicaLock sid).1 =
        { w with locks := locks, replicaLocks := replicaLocks, lockCount := lockCount } := by
      unfold World.replicaLock
      cases w.replicaLocks.get? sid <;> exact ⟨_, _, _, rfl⟩
    obtain ⟨locks, replicaLocks, lockCount, hframe⟩ := hframe
    simp only
    rw [hframe] at hlock hlget ⊢
    refine hlock.move hout (fun t' hne ↦ by simp [hne]) (.inr ⟨hopen, hidle⟩) ?_
    exact ⟨Finset.mem_insert_self .., hlget, ⟨token, htoken.symm.trans hget, hissued⟩, hs, hopen⟩

theorem inv_begin (h : Inv req w) (ht : w.pcs t = .new) : Inv req (w.begin t (req t)) := by
  have hnot : t ∉ w.requests := by
    have htask := h.tasks t
    rwa [ht] at htask
  have hout : ∀ sid l i, w.pcs t ≠ .inside sid l i := fun _ _ _ heq ↦ nomatch ht.symm.trans heq
  have habort : Inv req (w.setPc t .abort) := inv_setPc h hout hnot
  have hdone : Inv req (w.setPc t .done) := inv_setPc h hout hnot
  unfold World.begin
  split_ifs with hprobe hp htoken
  · exact habort
  · exact hdone
  · exact habort
  · rw [not_or, not_not] at htoken
    have hregister := inv_enqueue h ht hnot htoken.1 htoken.2
    cases hm : (req t).method with
    | other name => exact habort
    | probe => exact absurd hm hprobe
    | trainTail => exact hregister
    | evaluateTail => exact hregister
    | virtualAcquire => exact hregister
    | virtualCommit => exact hregister
    | virtualAbort => exact hregister
    | virtualDownloadState => exact hregister
    | virtualUploadState => exact hregister

theorem inv_checkBoundary (h : Holding req w t sid l none) (hs : sid ∈ w.leases → sid ∈ w.holders) :
    Inv req (w.checkBoundary t (req t) sid l) := by
  unfold World.checkBoundary
  cases (req t).boundary with
  | none => exact h.leave hs
  | some boundary =>
    by_cases hb : boundary = ((req t).cid, w.roundId)
    · simpa only [if_pos hb] using h.await (i := .joining) trivial hs
    · simpa only [if_neg hb] using h.await (i := .abort) trivial hs

theorem inv_replicaRequest (h : Holding req w t sid l none) (hs : sid ∈ w.leases → sid ∈ w.holders) :
    Inv req (w.replicaRequest t (req t) sid l) := by
  unfold World.replicaRequest
  by_cases hacquire : (req t).method = .virtualAcquire
  · rw [if_pos hacquire]
    exact h.await (i := .waitLease) trivial hs
  rw [if_neg hacquire]
  by_cases hlive : sid ∈ w.live
  · rw [if_neg (not_not.mpr hlive)]
    cases hm : (req t).method with
    | virtualCommit => exact h.await (i := .exec (.finish true) .slots) (h.live hlive) hs
    | virtualAbort => exact h.await (i := .exec (.finish false) .slots) (h.live hlive) hs
    | virtualUploadState =>
      cases (req t).upload with
      | none => exact h.leave hs
      | some parameters =>
        have hlog : Holding req (w.log (req t).token (.upload (req t).cid)) t sid l none := h.log rfl
        exact (hlog.storeUpload (req t).cid parameters).leave hs
    | trainTail => exact inv_checkBoundary h hs
    | evaluateTail => exact inv_checkBoundary h hs
    | probe => exact h.leave hs
    | virtualAcquire => exact h.leave hs
    | virtualDownloadState => exact h.leave hs
    | other name => exact h.leave hs
  · rw [if_pos hlive]
    exact h.await (i := .abort) trivial hs

theorem inv_locked (h : Inv req w) (ht : w.pcs t = .waitLock sid l) (hl : w.locks l = none) :
    Inv req (w.locked t (req t) sid l) := by
  have hold := h.acquire ht hl
  -- nobody holds the lock, so nobody waits for a slot on this sid
  have hsettled : sid ∈ w.leases → sid ∈ w.holders := by
    intro hm
    by_contra hn
    obtain ⟨t', l', s, heq⟩ := h.waiting sid hm hn
    have htask := h.tasks t
    have htask' := h.tasks t'
    rw [ht] at htask
    rw [heq] at htask'
    have hll : l' = l := Option.some.inj (htask'.1.2.1.symm.trans htask.2.1)
    cases hl.symm.trans (hll ▸ htask'.2.1)
  unfold World.locked
  split_ifs with htoken
  · exact hold.await (i := .abort) trivial hsettled
  · exact inv_replicaRequest hold hsettled

theorem inv_resume (h : Inv req w) {requestId : String} (hs : w.resume t (req t) requestId = some w') :
    Inv req w' := by
  unfold World.resume at hs
  cases ht : w.pcs t with
  | new =>
    simp only [ht, Option.some.injEq] at hs
    subst hs
    exact inv_begin h ht
  | abort =>
    simp only [ht, Option.some.injEq] at hs
    subst hs
    have htask := h.tasks t
    rw [ht] at htask
    exact inv_setPc h (fun _ _ _ heq ↦ nomatch ht.symm.trans heq) htask
  | waitLock sid l =>
    simp only [ht] at hs
    split_ifs at hs with hl
    cases hs
    exact inv_locked h ht hl
  | inside sid l i =>
    simp only [ht] at hs
    exact inv_resumeInside h ht hs
  | done => simp [ht] at hs

theorem inv_cancel (h : Inv req w) (hs : w.cancel t = some w') : Inv req w' := by
  have htask := h.tasks t
  unfold World.cancel at hs
  cases ht : w.pcs t with
  | new =>
    simp only [ht, Option.some.injEq] at hs
    subst hs
    rw [ht] at htask
    exact inv_setPc h (fun _ _ _ heq ↦ nomatch ht.symm.trans heq) htask
  | abort =>
    simp only [ht, Option.some.injEq] at hs
    subst hs
    rw [ht] at htask
    exact inv_setPc h (fun _ _ _ heq ↦ nomatch ht.symm.trans heq) htask
  | waitLock sid l =>
    simp only [ht, Option.some.injEq] at hs
    subst hs
    refine h.move (fun _ _ _ heq ↦ nomatch ht.symm.trans heq) (fun t' hne ↦ by simp [hne])
      (.inl (Finset.erase_subset t w.requests)) ?_
    exact Finset.notMem_erase t w.requests
  | inside sid l i =>
    simp only [ht, Option.some.injEq] at hs
    subst hs
    exact inv_cancelInside h ht
  | done => simp [ht] at hs

/-! ### Steps of an executor -/

/-- A future that is not over belongs to a request that waits for it inside the lock. -/
theorem job_spec (h : Inv req w) {j : ℕ} {job : Job} (hj : w.jobs j = some job) (ha : Active job.phase)
    (ho : job.owner = some t) : ∃ sid l context cancelled,
      w.pcs t = .inside sid l (.exec context (.shield j cancelled)) ∧
      Registered req w t sid l ∧ ContextOk w (req t).cid sid context ∧
      job.work = context.work sid w.routing := by
  obtain ⟨sid, l, context, cancelled, ht⟩ := ho ▸ h.owned j job hj ha
  obtain ⟨hc, phase, hphase⟩ := h.awaitOk ht
  rw [hj] at hphase
  cases hphase
  exact ⟨sid, l, context, cancelled, ht, (h.holding ht).registered, hc, rfl⟩

/-- What the function of a future does. -/
def performed (w : World π) : Work → Act
  | .acquireReplica sid => .acquireReplica sid
  | .finishReplica sid success => .finishReplica sid success
  | .computeGroup sid g => .computeGroup sid (w.routing.groups g).cids

theorem inv_logFor (h : Inv req w) {j : ℕ} {job : Job} (hj : w.jobs j = some job)
    (ha : Active job.phase) : Inv req (w.logFor req job.owner (performed w job.work)) := by
  cases ho : job.owner with
  | none => exact h
  | some t =>
    obtain ⟨sid, l, context, cancelled, -, hr, hc, hwork⟩ := job_spec h hj ha ho
    have hfor : For (req t).cid w.routing.cidToSidMapping (performed w job.work) := by
      rw [hwork]
      cases context with
      | acquire => exact hr.2.2.2.1
      | cleanup => exact hr.2.2.2.1
      | finish success => exact hr.2.2.2.1
      | compute g callback => exact ⟨hc.2.1.symm ▸ hr.2.2.2.1, hc.2.2⟩
    refine { h with effects := fun e he ↦ ?_ }
    rcases List.mem_cons.mp he with rfl | he
    · obtain ⟨-, -, ⟨token, htoken, hissued⟩, -, hopen⟩ := hr
      exact ⟨token, (req t).cid, htoken, hissued, hopen, hfor⟩
    · exact h.effects e he

theorem inv_setPhase (h : Inv req w) {j : ℕ} {job : Job} (hj : w.jobs j = some job)
    (ha : Active job.phase) {phase : Phase}
    (hf : ∀ sid rest, w.reconcile = .shield j sid rest → job.work = .finishReplica sid false →
      Finishing w sid phase) : Inv req (w.setPhase j job phase) := by
  have hself : (w.setPhase j job phase).jobs j = some { job with phase := phase } := Function.update_self ..
  have hother : ∀ j' ≠ j, (w.setPhase j job phase).jobs j' = w.jobs j' :=
    fun j' hne ↦ Function.update_of_ne hne ..
  have hkept : ∀ j' owner work phase', w.jobs j' = some ⟨owner, work, phase'⟩ →
      ∃ phase'', (w.setPhase j job phase).jobs j' = some ⟨owner, work, phase''⟩ := by
    intro j' owner work phase' hj'
    by_cases hjj : j' = j
    · subst hjj
      rw [hj] at hj'
      cases hj'
      exact ⟨phase, hself⟩
    · exact ⟨phase', (hother j' hjj).trans hj'⟩
  refine { h with
    job_lt := fun j' job' hj' ↦ ?_, reconcile := ?_, tasks := fun t ↦ ?_, owned := fun j' job' hj' ha' ↦ ?_ }
  · by_cases hjj : j' = j
    · exact hjj ▸ h.job_lt j job hj
    · exact h.job_lt j' job' ((hother j' hjj).symm.trans hj')
  · have hreconcile := h.reconcile
    change ReconcileOk (w.setPhase j job phase) w.reconcile
    generalize hr : w.reconcile = r at hreconcile ⊢
    cases r with
    | idle => trivial
    | gather requests => exact hreconcile
    | drain computations => exact hreconcile
    | loop rest => exact hreconcile
    | slots sid rest => exact hreconcile
    | shield j' sid rest =>
      obtain ⟨he, hlive, phase', hj', hfin⟩ := hreconcile
      refine ⟨he, hlive, ?_⟩
      by_cases hjj : j' = j
      · subst hjj
        rw [hj] at hj'
        cases hj'
        exact ⟨phase, hself, hf sid rest hr rfl⟩
      · exact ⟨phase', (hother j' hjj).trans hj', hfin⟩
  · refine (h.tasks t).frame id (fun _ _ hr ↦ hr) (fun sid l i _ hr hl hi ↦ ⟨hl, ?_⟩)
    exact hi.frame rfl id Iff.rfl (fun _ hg ↦ hg) (fun j' work phase' hj' ↦ hkept j' _ work phase' hj')
  · by_cases hjj : j' = j
    · subst hjj
      cases hself.symm.trans hj'
      exact (h.owned j' job hj ha).frame (fun _ _ ↦ rfl) rfl
    · exact (h.owned j' job' ((hother j' hjj).symm.trans hj') ha').frame (fun _ _ ↦ rfl) rfl

theorem inv_setLive (h : Inv req w) {live : Finset Sid} (hl : live ⊆ w.holders)
    (hr : ReconcileOk (w.setLive live) w.reconcile) : Inv req (w.setLive live) :=
  { h with live := hl, reconcile := hr }

/-- While a request is registered, `reconcile` has not come to the replicas. -/
theorem reconcileOk_setLive (h : Inv req w) (ht : t ∈ w.requests) (live : Finset Sid) :
    ReconcileOk (w.setLive live) w.reconcile := by
  have hne : w.requests ≠ ∅ := Finset.ne_empty_of_mem ht
  have hr := h.reconcile
  generalize w.reconcile = r at hr ⊢
  cases r with
  | idle => trivial
  | gather requests => exact hr
  | drain computations => exact absurd hr hne
  | loop rest => exact absurd hr.1 hne
  | slots sid rest => exact absurd hr.1 hne
  | shield j sid rest => exact absurd hr.1 hne

theorem inv_work (h : Inv req w) {j : ℕ} {ok : Bool} (hs : w.work req j ok = some w') : Inv req w' := by
  unfold World.work at hs
  cases hj : w.jobs j with
  | none => simp [hj] at hs
  | some job =>
    simp only [hj] at hs
    obtain ⟨owner, work, phase⟩ := job
    have hphase : ∀ {v : World π} {phase' : Phase}, Inv req v → v.jobs = w.jobs → Active phase →
        (∀ sid rest, v.reconcile = .shield j sid rest → work = .finishReplica sid false →
          Finishing v sid phase') → Inv req (v.setPhase j ⟨owner, work, phase⟩ phase') :=
      fun hv hjobs ha hf ↦ inv_setPhase hv (hjobs ▸ hj) ha hf
    have hquiet : ∀ {v : World π} {sid : Sid} {phase' : Phase}, phase' ≠ .admitted → phase' ≠ .effected →
        phase' ≠ .done true → Finishing v sid phase' :=
      fun h₁ h₂ h₃ ↦ ⟨h₁, fun hp ↦ absurd hp (not_or.mpr ⟨h₂, h₃⟩)⟩
    cases phase with
    | done ok' => cases hs
    | queued =>
      have ha : Active .queued := fun _ hp ↦ nomatch hp
      have hrunning : ∀ {v : World π} {sid : Sid}, Finishing v sid .running :=
        hquiet (fun hp ↦ nomatch hp) (fun hp ↦ nomatch hp) (fun hp ↦ nomatch hp)
      cases work with
      | acquireReplica sid =>
        cases hs
        exact hphase h rfl ha (fun _ _ _ _ ↦ hrunning)
      | finishReplica sid success =>
        cases hs
        exact hphase h rfl ha (fun _ _ _ _ ↦ hrunning)
      | computeGroup sid g =>
        cases hs
        refine hphase (inv_logFor h hj ha) ?_ ha (fun _ _ _ _ ↦ hrunning)
        cases owner <;> rfl
    | running =>
      have ha : Active .running := fun _ hp ↦ nomatch hp
      have hfailed : ∀ {v : World π} {sid : Sid}, Finishing v sid (.done false) :=
        hquiet (fun hp ↦ nomatch hp) (fun hp ↦ nomatch hp) (fun hp ↦ nomatch hp)
      have hlog := inv_logFor h hj ha
      cases work with
      | acquireReplica sid =>
        simp only at hs
        split_ifs at hs with hok
        · cases hs
          refine hphase { hlog with } ?_ ha (fun _ _ _ hw ↦ nomatch hw)
          cases owner <;> rfl
        · cases hs
          exact hphase h rfl ha (fun _ _ _ hw ↦ nomatch hw)
      | finishReplica sid success =>
        simp only at hs
        split_ifs at hs with hlive hok
        · cases hs
          have hlog : Inv req (w.logFor req owner (.finishReplica sid success)) := inv_logFor h hj ha
          have hlive' : (w.logFor req owner (.finishReplica sid success)).live = w.live := by
            cases owner <;> rfl
          have hsub : w.live.erase sid ⊆ (w.logFor req owner (.finishReplica sid success)).live :=
            hlive' ▸ Finset.erase_subset sid w.live
          have hv : Inv req ((w.logFor req owner (.finishReplica sid success)).setLive (w.live.erase sid)) :=
            inv_setLive hlog (hsub.trans hlog.live)
              (hlog.reconcile.mono (Finset.Subset.refl _) hsub (fun _ _ _ hj ↦ hj))
          refine hphase hv ?_ ha (fun sid' _ _ hw ↦ ⟨fun hp ↦ (nomatch hp), fun _ ↦ ?_⟩)
          · cases owner <;> rfl
          · cases hw
            exact Finset.notMem_erase sid w.live
        · cases hs
          exact hphase h rfl ha (fun _ _ _ _ ↦ hfailed)
        · cases hs
          refine hphase h rfl ha (fun sid' _ _ hw ↦ ⟨fun hp ↦ (nomatch hp), fun _ ↦ ?_⟩)
          cases hw
          exact hlive
      | computeGroup sid g =>
        cases hs
        exact hphase h rfl ha (fun _ _ _ hw ↦ nomatch hw)
    | admitted =>
      have ha : Active .admitted := fun _ hp ↦ nomatch hp
      -- no `finish_replica` is ever admitted
      have hnot : ∀ {v : World π} {phase' : Phase} (sid : Sid) (rest : Finset Sid), v.reconcile = w.reconcile →
          v.reconcile = .shield j sid rest → work = .finishReplica sid false → Finishing v sid phase' := by
        intro v phase' sid rest hv hr hw
        have hreconcile := h.reconcile
        rw [hv] at hr
        rw [hr] at hreconcile
        obtain ⟨-, -, phase, hphase, hadmitted, -⟩ := hreconcile
        rw [hj] at hphase
        cases hphase
        exact absurd rfl hadmitted
      cases work with
      | acquireReplica sid =>
        simp only at hs
        split_ifs at hs with hok
        · cases hs
          cases owner with
          | none =>
            obtain ⟨sid', rest, hr⟩ := h.owned j _ hj ha
            have hreconcile := h.reconcile
            rw [hr] at hreconcile
            obtain ⟨-, -, phase, hphase, -⟩ := hreconcile
            cases hj.symm.trans hphase
          | some t =>
            obtain ⟨sid', l, context, cancelled, -, hreg, hc, hwork⟩ := job_spec h hj ha rfl
            have hlog := inv_logFor h hj ha
            have hm : sid ∈ w.holders := by
              cases context with
              | acquire =>
                cases hwork
                exact hc
              | cleanup => cases hwork
              | finish success => cases hwork
              | compute g callback => cases hwork
            have hv : Inv req ((w.logFor req (some t) (.acquireReplica sid)).setLive (insert sid w.live)) :=
              inv_setLive hlog (Finset.insert_subset hm h.live)
                (reconcileOk_setLive hlog hreg.1 (insert sid w.live))
            exact hphase hv rfl ha (fun _ _ _ hw ↦ nomatch hw)
        · cases hs
          exact hphase h rfl ha (fun _ _ _ hw ↦ nomatch hw)
      | finishReplica sid success =>
        cases hs
        exact hphase h rfl ha (fun sid' rest hr hw ↦ hnot sid' rest rfl hr hw)
      | computeGroup sid g =>
        cases hs
        exact hphase h rfl ha (fun _ _ _ hw ↦ nomatch hw)
    | effected =>
      have ha : Active .effected := fun _ hp ↦ nomatch hp
      have hdone : Inv req (w.setPhase j ⟨owner, work, .effected⟩ (.done ok)) := by
        refine hphase h rfl ha (fun sid rest hr _ ↦ ⟨fun hp ↦ (nomatch hp), fun _ ↦ ?_⟩)
        have hreconcile := h.reconcile
        rw [hr] at hreconcile
        obtain ⟨-, -, phase, hphase, -, hgone⟩ := hreconcile
        rw [hj] at hphase
        cases hphase
        exact hgone (.inl rfl)
      cases work <;> exact Option.some.inj hs ▸ hdone

/-! ### Steps of `reconcile` -/

theorem tokens_of_reconcile (h : Inv req w) (hr : w.reconcile ≠ .idle) (cid : Cid) :
    w.tokens.get? cid = none := by
  cases hget : w.tokens.get? cid with
  | none => rfl
  | some token => exact absurd (h.tokens cid token hget).2.2 hr

theorem inv_setReconcile (h : Inv req w) {r : Reconcile} (hr : ReconcileOk w r)
    (ht : ∀ cid, w.tokens.get? cid = none)
    (hj : ∀ j sid rest, w.reconcile = .shield j sid rest → ∀ job, w.jobs j = some job → ¬Active job.phase) :
    Inv req (w.setReconcile r) := by
  refine { h with
    tokens := fun cid token hget ↦ (nomatch (ht cid).symm.trans hget), reconcile := hr,
    owned := fun j job hjob ha ↦ ?_ }
  have howned := h.owned j job hjob ha
  cases ho : job.owner with
  | none =>
    rw [ho] at howned
    obtain ⟨sid, rest, heq⟩ := howned
    exact absurd ha (hj j sid rest heq job hjob)
  | some t =>
    rw [ho] at howned
    exact howned

theorem requests_of_done (h : Inv req w) {requests : Finset ℕ} (hr : w.requests ⊆ requests)
    (hd : ∀ t ∈ requests, w.isDone t = true) : w.requests = ∅ := by
  apply Finset.eq_empty_of_forall_notMem
  intro t ht
  have hdone := hd t (hr ht)
  have htask := h.tasks t
  unfold World.isDone at hdone
  cases hp : w.pcs t with
  | done =>
    rw [hp] at htask
    exact htask ht
  | new => simp [hp] at hdone
  | abort => simp [hp] at hdone
  | waitLock sid l => simp [hp] at hdone
  | inside sid l i => simp [hp] at hdone

/-- When no request is registered, no request waits for a lock or holds one. -/
theorem task_of_empty (h : Inv req w) (he : w.requests = ∅) (w' : World π) (hr : w'.requests = ∅) (t : ℕ) :
    TaskOk req w' t (w.pcs t) := by
  have hnone : ∀ sid l, ¬Registered req w t sid l := fun sid l hreg ↦ Finset.notMem_empty t (he ▸ hreg.1)
  refine (h.tasks t).frame (fun hm ↦ ?_) (fun sid l hreg ↦ absurd hreg (hnone sid l))
    (fun sid l i _ hreg _ _ ↦ absurd hreg (hnone sid l))
  exact absurd (hr ▸ hm) (Finset.notMem_empty t)

theorem inv_closeRound (h : Inv req w) (hr : w.reconcile = .loop ∅) : Inv req w.closeRound := by
  have hreconcile := h.reconcile
  rw [hr] at hreconcile
  obtain ⟨he, hlive⟩ := hreconcile
  have htokens := tokens_of_reconcile h (hr ▸ fun heq ↦ nomatch heq)
  refine { h with
    held := Finset.Subset.refl _, live := hlive, lock_lt := fun _ _ hl ↦ (nomatch hl),
    tokens := fun cid token hget ↦ (nomatch (htokens cid).symm.trans hget), closed := fun _ ↦ ⟨he, rfl⟩,
    reconcile := trivial, tasks := fun t ↦ task_of_empty h he w.closeRound he t, owned := fun j job hj ha ↦ ?_,
    waiting := fun sid hl _ ↦ absurd hl (Finset.notMem_empty sid) }
  cases ho : job.owner with
  | none =>
    obtain ⟨sid, rest, heq⟩ := ho ▸ h.owned j job hj ha
    cases hr.symm.trans heq
  | some t =>
    have howned := h.owned j job hj ha
    rw [ho] at howned
    exact howned

theorem inv_submit (h : Inv req w) {sid : Sid} {rest : Finset Sid} (hr : w.reconcile = .slots sid rest) :
    Inv req ((w.submit none true (.finishReplica sid false)).setReconcile (.shield w.jobCount sid rest)) := by
  have hreconcile := h.reconcile
  rw [hr] at hreconcile
  obtain ⟨he, hlive⟩ := hreconcile
  have htokens := tokens_of_reconcile h (hr ▸ fun heq ↦ nomatch heq)
  refine { h with
    job_lt := fun j job hj ↦ ?_, tokens := fun cid token hget ↦ (nomatch (htokens cid).symm.trans hget),
    reconcile := ⟨he, hlive, .queued, Function.update_self .., fun hp ↦ (nomatch hp), fun hp ↦ ?_⟩,
    tasks := fun t ↦ task_of_empty h he ((w.submit none true _).setReconcile _) he t, owned := fun j job hj ha ↦ ?_ }
  · by_cases hjc : j = w.jobCount
    · exact hjc.trans_lt (Nat.lt_succ_self _)
    · exact (h.job_lt j job ((Function.update_of_ne hjc ..).symm.trans hj)).trans (Nat.lt_succ_self _)
  · rcases hp with hp | hp
    · cases hp
    · cases hp
  · by_cases hjc : j = w.jobCount
    · subst hjc
      cases (Function.update_self ..).symm.trans hj
      exact ⟨sid, rest, rfl⟩
    · have howned := h.owned j job ((Function.update_of_ne hjc ..).symm.trans hj) ha
      cases ho : job.owner with
      | none =>
        obtain ⟨sid', rest', heq⟩ := ho ▸ howned
        cases hr.symm.trans heq
      | some t =>
        rw [ho] at howned
        exact howned

theorem inv_retire (h : Inv req w) (control : Bool) (j : ℕ) : Inv req (w.retire control j) := { h with }

theorem inv_reconcileStep (h : Inv req w) {sid : Sid} (hs : w.reconcileStep sid = some w') : Inv req w' := by
  have hreconcile := h.reconcile
  unfold World.reconcileStep at hs
  cases hr : w.reconcile with
  | idle =>
    simp only [hr, Option.some.injEq] at hs
    subst hs
    have hclear : Inv req { w with tokens := .empty, networkProbeTokens := .empty } :=
      { h with tokens := fun _ _ hget ↦ nomatch hget }
    exact inv_setReconcile hclear (Finset.Subset.refl w.requests) (fun _ ↦ rfl)
      (fun _ _ _ heq ↦ nomatch hr.symm.trans heq)
  | gather requests =>
    rw [hr] at hreconcile
    simp only [hr] at hs
    split_ifs at hs with hd
    cases hs
    exact inv_setReconcile h (requests_of_done h hreconcile hd)
      (tokens_of_reconcile h (hr ▸ fun heq ↦ nomatch heq)) (fun _ _ _ heq ↦ nomatch hr.symm.trans heq)
  | drain computations =>
    rw [hr] at hreconcile
    simp only [hr] at hs
    split_ifs at hs with hd
    cases hs
    exact inv_setReconcile h ⟨hreconcile, Finset.Subset.refl _⟩
      (tokens_of_reconcile h (hr ▸ fun heq ↦ nomatch heq)) (fun _ _ _ heq ↦ nomatch hr.symm.trans heq)
  | loop rest =>
    rw [hr] at hreconcile
    simp only [hr] at hs
    split_ifs at hs with hrest hm
    · cases hs
      exact inv_closeRound h (hrest ▸ hr)
    · cases hs
      refine inv_setReconcile h ⟨hreconcile.1, ?_⟩ (tokens_of_reconcile h (hr ▸ fun heq ↦ nomatch heq))
        (fun _ _ _ heq ↦ nomatch hr.symm.trans heq)
      rw [Finset.insert_erase hm]
      exact hreconcile.2
  | slots sid' rest =>
    simp only [hr] at hs
    split_ifs at hs with hlane
    cases hs
    exact inv_submit h hr
  | shield j sid' rest =>
    rw [hr] at hreconcile
    obtain ⟨he, hlive, phase, hj, -, hgone⟩ := hreconcile
    simp only [hr, hj] at hs
    have htokens := tokens_of_reconcile h (hr ▸ fun heq ↦ nomatch heq)
    cases phase with
    | done ok =>
      cases hs
      refine inv_setReconcile (inv_retire h true j) ?_ htokens (fun j' s r heq job hjob ha ↦ ?_)
      · cases ok with
        | true =>
          -- the replica is gone, so the others are still to come
          refine ⟨he, fun s hs ↦ ?_⟩
          rcases Finset.mem_insert.mp (hlive hs) with rfl | hm
          · exact absurd hs (hgone (.inr rfl))
          · exact hm
        | false => trivial
      · cases hr.symm.trans heq
        cases hj.symm.trans hjob
        exact ha ok rfl
    | queued => cases hs
    | running => cases hs
    | admitted => cases hs
    | effected => cases hs

/-! ### Rounds -/

/-- A token keeps the client and the round that it was issued to. -/
theorem issuedTo_prepareRound (h : Inv req w) {token : Token} {x : Cid × ℕ}
    (hissued : w.issuedTo token = some x) (cids : List Cid) (roundId : ℕ) (mapping : Dict Cid Sid) :
    (w.prepareRound cids roundId mapping).issuedTo token = some x := by
  have hlt : token < w.nextToken := by
    by_contra hge
    cases (h.unissued token (not_lt.mp hge)).symm.trans hissued
  exact (if_pos hlt).trans hissued

theorem inv_prepareRound (h : Inv req w) (hr : w.reconcile = .idle) (ho : w.openRound = false)
    (cids : List Cid) (roundId : ℕ) (mapping : Dict Cid Sid) :
    Inv req (w.prepareRound cids roundId mapping) := by
  obtain ⟨he, hl⟩ := h.closed ho
  have hholders : w.holders = ∅ := Finset.subset_empty.mp (hl ▸ h.held)
  refine { h with
    live := Finset.empty_subset _, tokens := fun cid token hget ↦ ⟨?_, rfl, hr⟩,
    unissued := fun token hge ↦ ?_, closed := fun hopen ↦ (nomatch hopen), reconcile := ?_,
    routing := h.routing.reset mapping cids, effects := fun e hm ↦ ?_,
    tasks := fun t ↦ task_of_empty h he (w.prepareRound cids roundId mapping) he t }
  · obtain ⟨hge, hget⟩ := List.mk_mem_zipIdx_iff_le_and_getElem?_sub.mp (Dict.mem_of_get?_ofList hget)
    refine (if_neg (not_lt.mpr hge)).trans ?_
    rw [hget]
    rfl
  · have hge' : w.nextToken + cids.length ≤ token := hge
    have hlt : ¬token < w.nextToken := by omega
    have hlen : cids.length ≤ token - w.nextToken := by omega
    refine (if_neg hlt).trans ?_
    rw [List.getElem?_eq_none hlen]
    rfl
  · change ReconcileOk (w.prepareRound cids roundId mapping) w.reconcile
    rw [hr]
    trivial
  · obtain ⟨token, c, htoken, hissued, hrest⟩ := h.effects e hm
    exact ⟨token, c, htoken, issuedTo_prepareRound h hissued cids roundId mapping, hrest⟩

theorem inv_prepareNetworkProbes (h : Inv req w) (cids : List Cid) (roundId : ℕ) :
    Inv req (w.prepareNetworkProbes cids roundId) := by
  refine { h with unissued := fun token hge ↦ h.unissued token ?_ }
  have hge' : w.nextToken + cids.length ≤ token := hge
  omega

theorem inv_step (h : Inv req w) {a : Action} (hs : step req w a = some w') : Inv req w' := by
  cases a with
  | resume t requestId => exact inv_resume h hs
  | cancel t => exact inv_cancel h hs
  | work j ok => exact inv_work h hs
  | reconcile sid => exact inv_reconcileStep h hs
  | prepareRound cids roundId mapping =>
    unfold step at hs
    cases hr : w.reconcile with
    | idle =>
      cases ho : w.openRound with
      | false =>
        simp only [hr, ho, Option.some.injEq] at hs
        subst hs
        exact inv_prepareRound h hr ho cids roundId mapping
      | true => simp [hr, ho] at hs
    | gather requests => simp [hr] at hs
    | drain computations => simp [hr] at hs
    | loop rest => simp [hr] at hs
    | slots sid rest => simp [hr] at hs
    | shield j sid rest => simp [hr] at hs
  | prepareNetworkProbes cids roundId =>
    cases hs
    exact inv_prepareNetworkProbes h cids roundId

theorem inv_start (capacity concurrency : ℕ) (batch : Bool) :
    Inv req (.start capacity concurrency batch) where
  held := Finset.Subset.refl _
  live := Finset.Subset.refl _
  lock_lt _ _ hl := nomatch hl
  job_lt _ _ hj := nomatch hj
  tokens _ _ hget := nomatch hget
  unissued _ _ := rfl
  closed _ := ⟨rfl, rfl⟩
  reconcile := trivial
  routing := .of_start batch .empty []
  effects _ he := nomatch he
  tasks _ := Finset.notMem_empty _
  owned _ _ hj := nomatch hj
  waiting sid hl := absurd hl (Finset.notMem_empty sid)

theorem reachable_inv (h : Reachable req w) : Inv req w := by
  induction h with
  | start capacity concurrency batch => exact inv_start capacity concurrency batch
  | step a h hs ih => exact inv_step ih hs

def run (req : ℕ → Request π) (w : World π) : List Action → Option (World π)
  | [] => some w
  | a :: actions => (step req w a).bind fun w ↦ run req w actions

theorem reachable_run (h : Reachable req w) (actions : List Action) (hr : run req w actions = some w') :
    Reachable req w' := by
  induction actions generalizing w with
  | nil =>
    cases hr
    exact h
  | cons a actions ih =>
    obtain ⟨v, hs, hrest⟩ := Option.bind_eq_some_iff.mp hr
    exact ih (h.step a hs) hrest

end SplitFleet.SuffixRuns
