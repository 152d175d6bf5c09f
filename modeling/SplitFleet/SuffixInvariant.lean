import SplitFleet.SuffixService

set_option autoImplicit false

namespace SplitFleet.SuffixInvariant

open Lib RequestGroup SuffixService

variable {π : Type} {req : ℕ → Request π} {w w' : World π} {t t' : ℕ} {sid : Sid} {l : ℕ}

/-! ### What the coroutines rely on -/

def Active (phase : Phase) : Prop := ∀ ok, phase ≠ .done ok

/-- The act is one for the client `c`. -/
def For (c : Cid) (mapping : Dict Cid Sid) : Act → Prop
  | .takeSlot sid | .acquireReplica sid | .finishReplica sid _ => mapping.get? c = some sid
  | .computeGroup sid cids => mapping.get? c = some sid ∧ cids = [c]
  | .upload cid => cid = c

/-- The effect carries a token of its own round, is for the client that the token was issued to, and
came before the `reconcile` of the round had returned. -/
def EffectOk (w : World π) (e : Effect) : Prop :=
  ∃ token c, e.token = some token ∧ w.issuedTo token = some (c, e.epoch) ∧ e.openRound = true ∧
    For c e.mapping e.act

/-- How far a `finish_replica` for `sid` has come says whether the replica is still live. -/
def Finishing (w : World π) (sid : Sid) (phase : Phase) : Prop :=
  phase ≠ .admitted ∧ (phase = .effected ∨ phase = .done true → sid ∉ w.live)

def ReconcileOk (w : World π) : Reconcile → Prop
  | .idle => True
  | .gather requests => w.requests ⊆ requests
  | .drain _ => w.requests = ∅
  | .loop rest => w.requests = ∅ ∧ w.live ⊆ rest
  | .slots sid rest => w.requests = ∅ ∧ w.live ⊆ insert sid rest
  | .shield j sid rest => w.requests = ∅ ∧ w.live ⊆ insert sid rest ∧
      ∃ phase, w.jobs j = some ⟨none, .finishReplica sid false, phase⟩ ∧ Finishing w sid phase

/-- The request is one of the current round, and its replica has the lock `l`. -/
def Registered (req : ℕ → Request π) (w : World π) (t : ℕ) (sid : Sid) (l : ℕ) : Prop :=
  t ∈ w.requests ∧ w.replicaLocks.get? sid = some l ∧
    (∃ token, (req t).token = some token ∧ w.issuedTo token = some ((req t).cid, w.epoch)) ∧
    w.routing.cidToSidMapping.get? (req t).cid = some sid ∧ w.openRound = true

/-- The group is for `sid`, with the one request of `c`. -/
def Leads (w : World π) (c : Cid) (sid : Sid) (g : ℕ) : Prop :=
  g < w.routing.groupCount ∧ (w.routing.groups g).sid = sid ∧ (w.routing.groups g).cids = [c]

def ContextOk (w : World π) (c : Cid) (sid : Sid) : Context → Prop
  | .compute g _ => Leads w c sid g
  | _ => sid ∈ w.holders

def AwaitOk (w : World π) (c : Cid) (t : ℕ) (sid : Sid) : Inside → Prop
  | .waitSlot s => s = w.replicaSlots ∧ sid ∈ w.leases ∧ sid ∉ w.holders
  | .waitReady g _ => Leads w c sid g
  | .exec context .slots => ContextOk w c sid context
  | .exec context (.shield j _) => ContextOk w c sid context ∧
      ∃ phase, w.jobs j = some ⟨some t, context.work sid w.routing, phase⟩
  | _ => True

def TaskOk (req : ℕ → Request π) (w : World π) (t : ℕ) : Pc → Prop
  | .waitLock sid l => Registered req w t sid l
  | .inside sid l i => Registered req w t sid l ∧ w.locks l = some t ∧ AwaitOk w (req t).cid t sid i
  | _ => t ∉ w.requests

/-- The owner of a future is at the `shield` of it. -/
def Owned (w : World π) (j : ℕ) : Option ℕ → Prop
  | some t => ∃ sid l context cancelled, w.pcs t = .inside sid l (.exec context (.shield j cancelled))
  | none => ∃ sid rest, w.reconcile = .shield j sid rest

/-- What holds of the service whatever its coroutines await. -/
structure Core (w : World π) : Prop where
  held : w.holders ⊆ w.leases
  live : w.live ⊆ w.holders
  lock_lt : ∀ sid l, w.replicaLocks.get? sid = some l → l < w.lockCount
  job_lt : ∀ j job, w.jobs j = some job → j < w.jobCount
  tokens : ∀ cid token, w.tokens.get? cid = some token →
    w.issuedTo token = some (cid, w.epoch) ∧ w.openRound = true ∧ w.reconcile = .idle
  unissued : ∀ token, w.nextToken ≤ token → w.issuedTo token = none
  closed : w.openRound = false → w.requests = ∅ ∧ w.leases = ∅
  reconcile : ReconcileOk w w.reconcile
  routing : w.routing.WellFormed
  effects : ∀ e ∈ w.effects, EffectOk w e

structure Inv (req : ℕ → Request π) (w : World π) : Prop extends Core w where
  tasks : ∀ t, TaskOk req w t (w.pcs t)
  owned : ∀ j job, w.jobs j = some job → Active job.phase → Owned w j job.owner
  waiting : ∀ sid ∈ w.leases, sid ∉ w.holders → ∃ t l s, w.pcs t = .inside sid l (.waitSlot s)

/-- The invariant but for the await of `t`, which holds the lock of `sid` and may own the future
`own`. -/
structure Holding (req : ℕ → Request π) (w : World π) (t : ℕ) (sid : Sid) (l : ℕ) (own : Option ℕ) :
    Prop extends Core w where
  registered : Registered req w t sid l
  lock : w.locks l = some t
  others : ∀ t' ≠ t, TaskOk req w t' (w.pcs t')
  owned : ∀ j job, w.jobs j = some job → Active job.phase →
    job.owner = some t ∧ own = some j ∨ job.owner ≠ some t ∧ Owned w j job.owner
  waiting : ∀ s ∈ w.leases, s ≠ sid → s ∉ w.holders →
    ∃ t' ≠ t, ∃ l' n, w.pcs t' = .inside s l' (.waitSlot n)

/-! ### Changes that a coroutine does not see -/

theorem AwaitOk.frame {c : Cid} {i : Inside} (h : AwaitOk w c t sid i)
    (hs : w'.replicaSlots = w.replicaSlots) (hl : sid ∈ w.leases → sid ∈ w'.leases)
    (hh : sid ∈ w'.holders ↔ sid ∈ w.holders) (hg : ∀ g, Leads w c sid g → Leads w' c sid g)
    (hj : ∀ j work phase, w.jobs j = some ⟨some t, work, phase⟩ →
      ∃ phase', w'.jobs j = some ⟨some t, work, phase'⟩) : AwaitOk w' c t sid i := by
  have hcontext : ∀ context, ContextOk w c sid context → ContextOk w' c sid context ∧
      context.work sid w'.routing = context.work sid w.routing := by
    intro context hc
    cases context with
    | acquire => exact ⟨hh.mpr hc, rfl⟩
    | cleanup => exact ⟨hh.mpr hc, rfl⟩
    | finish success => exact ⟨hh.mpr hc, rfl⟩
    | compute g callback =>
      have hg' := hg g hc
      refine ⟨hg', ?_⟩
      simp only [Context.work, hg'.2.1, hc.2.1]
  cases i with
  | waitSlot s => exact ⟨h.1.trans hs.symm, hl h.2.1, fun hm ↦ h.2.2 (hh.mp hm)⟩
  | waitReady g callback => exact hg g h
  | exec context e =>
    cases e with
    | slots => exact (hcontext context h).1
    | shield j cancelled =>
      obtain ⟨phase, hphase⟩ := h.2
      refine ⟨(hcontext context h.1).1, ?_⟩
      rw [(hcontext context h.1).2]
      exact hj j _ phase hphase
  | abort => trivial
  | waitLease => trivial
  | leaseAbort => trivial
  | joining => trivial
  | waitEvent => trivial

theorem TaskOk.frame {pc : Pc} (h : TaskOk req w t pc) (hr : t ∈ w'.requests → t ∈ w.requests)
    (hg : ∀ sid l, Registered req w t sid l → Registered req w' t sid l)
    (hi : ∀ sid l i, pc = .inside sid l i → Registered req w t sid l → w.locks l = some t →
      AwaitOk w (req t).cid t sid i → w'.locks l = some t ∧ AwaitOk w' (req t).cid t sid i) :
    TaskOk req w' t pc := by
  cases pc with
  | new => exact fun hm ↦ h (hr hm)
  | abort => exact fun hm ↦ h (hr hm)
  | done => exact fun hm ↦ h (hr hm)
  | waitLock sid l => exact hg sid l h
  | inside sid l i => exact ⟨hg sid l h.1, hi sid l i rfl h.1 h.2.1 h.2.2⟩

theorem Owned.frame {j : ℕ} {owner : Option ℕ} (h : Owned w j owner)
    (hp : ∀ t, owner = some t → w'.pcs t = w.pcs t) (hr : w'.reconcile = w.reconcile) :
    Owned w' j owner := by
  cases owner with
  | none =>
    obtain ⟨sid, rest, heq⟩ := h
    exact ⟨sid, rest, hr.trans heq⟩
  | some t =>
    obtain ⟨sid, l, context, cancelled, heq⟩ := h
    exact ⟨sid, l, context, cancelled, (hp t rfl).trans heq⟩

theorem ReconcileOk.mono {r : Reconcile} (h : ReconcileOk w r) (hr : w'.requests ⊆ w.requests)
    (hl : w'.live ⊆ w.live) (hj : ∀ j work phase, w.jobs j = some ⟨none, work, phase⟩ →
      w'.jobs j = some ⟨none, work, phase⟩) : ReconcileOk w' r := by
  have hempty : w.requests = ∅ → w'.requests = ∅ := fun he ↦ Finset.subset_empty.mp (he ▸ hr)
  cases r with
  | idle => trivial
  | gather requests => exact hr.trans h
  | drain computations => exact hempty h
  | loop rest => exact ⟨hempty h.1, hl.trans h.2⟩
  | slots sid rest => exact ⟨hempty h.1, hl.trans h.2⟩
  | shield j sid rest =>
    obtain ⟨he, hlive, phase, hphase, hadmitted, hgone⟩ := h
    exact ⟨hempty he, hl.trans hlive, phase, hj _ _ _ hphase, hadmitted, fun hp hm ↦ hgone hp (hl hm)⟩

/-! ### Taking a request out of the invariant and back -/

/-- Two requests inside the locks of one replica are one request. -/
theorem Inv.inside_unique (h : Inv req w) {l' : ℕ} {i i' : Inside} (ht : w.pcs t = .inside sid l i)
    (ht' : w.pcs t' = .inside sid l' i') : t' = t := by
  have ht₁ := h.tasks t
  have ht₂ := h.tasks t'
  rw [ht] at ht₁
  rw [ht'] at ht₂
  have hl : l' = l := Option.some.inj (ht₂.1.2.1.symm.trans ht₁.1.2.1)
  exact Option.some.inj (ht₂.2.1.symm.trans (hl ▸ ht₁.2.1))

/-- A sid that is leased and whose request does not wait for a slot has been granted one. -/
theorem Inv.settled (h : Inv req w) {i : Inside} (ht : w.pcs t = .inside sid l i)
    (hi : ∀ s, i ≠ .waitSlot s) (hs : sid ∈ w.leases) : sid ∈ w.holders := by
  by_contra hn
  obtain ⟨t', l', s, ht'⟩ := h.waiting sid hs hn
  cases h.inside_unique ht ht'
  rw [ht] at ht'
  cases ht'
  exact hi s rfl

theorem Inv.awaitOk (h : Inv req w) {i : Inside} (ht : w.pcs t = .inside sid l i) :
    AwaitOk w (req t).cid t sid i := by
  have htask := h.tasks t
  rw [ht] at htask
  exact htask.2.2

/-- The future that is awaited. -/
def job : Inside → Option ℕ
  | .exec _ (.shield j _) => some j
  | _ => none

theorem Inv.holding (h : Inv req w) {i : Inside} (ht : w.pcs t = .inside sid l i) :
    Holding req w t sid l (job i) := by
  have htask := h.tasks t
  rw [ht] at htask
  refine { h with
    registered := htask.1, lock := htask.2.1, others := fun t' _ ↦ h.tasks t', owned := ?_, waiting := ?_ }
  · intro j job hj ha
    have howned := h.owned j job hj ha
    by_cases ho : job.owner = some t
    · rw [ho] at howned
      obtain ⟨sid', l', context, cancelled, heq⟩ := howned
      rw [ht] at heq
      cases heq
      exact .inl ⟨ho, rfl⟩
    · exact .inr ⟨ho, howned⟩
  · intro s hs hne hn
    obtain ⟨t', l', n, ht'⟩ := h.waiting s hs hn
    refine ⟨t', ?_, l', n, ht'⟩
    rintro rfl
    rw [ht] at ht'
    cases ht'
    exact hne rfl

namespace Holding

variable {own : Option ℕ}

theorem ne (h : Holding req w t sid l own) (ht : t' ≠ t) {s : Sid} {l' : ℕ}
    (hr : Registered req w t' s l') (hl : w.locks l' = some t') : s ≠ sid := by
  rintro rfl
  have hll : l' = l := Option.some.inj (hr.2.1.symm.trans h.registered.2.1)
  exact ht (Option.some.inj (hl.symm.trans (hll ▸ h.lock)))

theorem enter (h : Holding req w t sid l own) {i : Inside} (hi : AwaitOk w (req t).cid t sid i)
    (ho : ∀ j, own = some j → ∃ context cancelled, i = .exec context (.shield j cancelled))
    (hs : sid ∈ w.leases → sid ∉ w.holders → ∃ s, i = .waitSlot s) :
    Inv req (w.enter t sid l i) := by
  have hself : (w.enter t sid l i).pcs t = .inside sid l i := Function.update_self ..
  have hother : ∀ t' ≠ t, (w.enter t sid l i).pcs t' = w.pcs t' :=
    fun t' hne ↦ Function.update_of_ne hne ..
  refine { h with tasks := fun t' ↦ ?_, owned := fun j job hj ha ↦ ?_, waiting := fun s hsl hsh ↦ ?_ }
  · by_cases ht : t' = t
    · subst ht
      rw [hself]
      exact ⟨h.registered, h.lock, hi⟩
    · rw [hother t' ht]
      exact h.others t' ht
  · rcases h.owned j job hj ha with ⟨hjt, hown⟩ | ⟨hjt, hown⟩
    · obtain ⟨context, cancelled, rfl⟩ := ho j hown
      rw [hjt]
      exact ⟨sid, l, context, cancelled, hself⟩
    · refine hown.frame (fun t' heq ↦ hother t' ?_) rfl
      rintro rfl
      exact hjt heq
  · by_cases hsid : s = sid
    · subst hsid
      obtain ⟨n, rfl⟩ := hs hsl hsh
      exact ⟨t, l, n, hself⟩
    · obtain ⟨t', ht, l', n, heq⟩ := h.waiting s hsl hsid hsh
      exact ⟨t', l', n, (hother t' ht).trans heq⟩

/-- A request that owns no future comes to an await. -/
theorem await (h : Holding req w t sid l none) {i : Inside} (hi : AwaitOk w (req t).cid t sid i)
    (hs : sid ∈ w.leases → sid ∈ w.holders) : Inv req (w.enter t sid l i) := by
  apply h.enter hi
  · intro j ho
    cases ho
  · intro hl hh
    exact absurd (hs hl) hh

theorem leave (h : Holding req w t sid l none) (hs : sid ∈ w.leases → sid ∈ w.holders) :
    Inv req (w.leave t l) := by
  have hself : (w.leave t l).pcs t = .done := Function.update_self ..
  have hother : ∀ t' ≠ t, (w.leave t l).pcs t' = w.pcs t' :=
    fun t' hne ↦ Function.update_of_ne hne ..
  refine { h with
    tasks := fun t' ↦ ?_, owned := fun j job hj ha ↦ ?_, waiting := fun s hsl hsh ↦ ?_,
    closed := fun ho ↦ ?_, reconcile := ?_ }
  · obtain ⟨hr, hl⟩ := h.closed ho
    refine ⟨?_, hl⟩
    change w.requests.erase t = ∅
    rw [hr, Finset.erase_empty]
  · exact h.reconcile.mono (Finset.erase_subset t w.requests) (Finset.Subset.refl _) (fun _ _ _ hj ↦ hj)
  · by_cases ht : t' = t
    · subst ht
      rw [hself]
      exact Finset.notMem_erase t' w.requests
    · rw [hother t' ht]
      refine (h.others t' ht).frame Finset.mem_of_mem_erase (fun s l' hr ↦ ?_) (fun s l' i _ hr hl hi ↦ ?_)
      · exact ⟨Finset.mem_erase.mpr ⟨ht, hr.1⟩, hr.2⟩
      · have hll : l' ≠ l := by
          rintro rfl
          exact ht (Option.some.inj (hl.symm.trans h.lock))
        exact ⟨(Function.update_of_ne hll ..).trans hl, hi⟩
  · rcases h.owned j job hj ha with ⟨-, hown⟩ | ⟨hjt, hown⟩
    · cases hown
    · refine hown.frame (fun t' heq ↦ hother t' ?_) rfl
      rintro rfl
      exact hjt heq
  · by_cases hsid : s = sid
    · exact absurd (hs (hsid ▸ hsl)) (hsid ▸ hsh)
    · obtain ⟨t', ht, l', n, heq⟩ := h.waiting s hsl hsid hsh
      exact ⟨t', l', n, (hother t' ht).trans heq⟩

/-! ### What a request does while it holds the lock -/

/-- Whatever changes only the lease and the slot of the request's own sid. -/
theorem rebind (h : Holding req w t sid l own) (leases holders : Finset Sid) (slots : ℕ → ℕ)
    (hl : ∀ s ≠ sid, s ∈ leases ↔ s ∈ w.leases) (hh : ∀ s ≠ sid, s ∈ holders ↔ s ∈ w.holders)
    (held : holders ⊆ leases) (live : w.live ⊆ holders) :
    Holding req { w with leases := leases, holders := holders, slots := slots } t sid l own := by
  refine { h with
    held := held, live := live, closed := fun ho ↦ ?_, others := fun t' ht ↦ ?_, waiting := fun s hsl hne hsh ↦ ?_ }
  · have hopen : w.openRound = false := ho
    rw [h.registered.2.2.2.2] at hopen
    cases hopen
  · refine (h.others t' ht).frame id (fun s l' hr ↦ hr) (fun s l' i _ hr hlock hi ↦ ⟨hlock, ?_⟩)
    have hne := h.ne ht hr hlock
    exact hi.frame rfl (hl s hne).mpr (hh s hne) (fun _ hg ↦ hg) (fun j work phase hj ↦ ⟨phase, hj⟩)
  · exact h.waiting s ((hl s hne).mp hsl) hne (fun hm ↦ hsh ((hh s hne).mpr hm))

theorem setLeaseLock (h : Holding req w t sid l own) (holder : Option ℕ) :
    Holding req (w.setLeaseLock holder) t sid l own := { h with }

theorem storeUpload (h : Holding req w t sid l own) (cid : Cid) (parameters : π) :
    Holding req (w.storeUpload cid parameters) t sid l own := { h with }

theorem log (h : Holding req w t sid l own) {act : Act}
    (ha : For (req t).cid w.routing.cidToSidMapping act) :
    Holding req (w.log (req t).token act) t sid l own := by
  refine { h with effects := fun e he ↦ ?_ }
  rcases List.mem_cons.mp he with rfl | he
  · obtain ⟨-, -, ⟨token, htoken, hissued⟩, -, hopen⟩ := h.registered
    exact ⟨token, (req t).cid, htoken, hissued, hopen, ha⟩
  · exact h.effects e he

theorem releaseReplicaSlot (h : Holding req w t sid l own) :
    Holding req (w.releaseReplicaSlot sid) t sid l own := by
  unfold World.releaseReplicaSlot
  split_ifs with hc
  · refine h.rebind _ _ _ (fun s hne ↦ ?_) (fun s hne ↦ ?_) (Finset.erase_subset_erase sid h.held) ?_
    · simp [hne]
    · simp [hne]
    · exact Finset.subset_erase.mpr ⟨h.live, hc.1⟩
  · exact h

theorem retire (h : Holding req w t sid l own) (control : Bool) (j : ℕ) :
    Holding req (w.retire control j) t sid l own := { h with }

/-- A future that is over has no owner any more. -/
theorem finished {j : ℕ} (h : Holding req w t sid l (some j)) {job : Job} (hj : w.jobs j = some job)
    {ok : Bool} (hd : job.phase = .done ok) : Holding req w t sid l none := by
  refine { h with owned := fun j' job' hj' ha ↦ ?_ }
  rcases h.owned j' job' hj' ha with ⟨-, heq⟩ | hown
  · cases heq
    rw [hj] at hj'
    cases hj'
    exact absurd hd (ha ok)
  · exact .inr hown

theorem submit (h : Holding req w t sid l none) (control : Bool) (work : Work) :
    Holding req (w.submit (some t) control work) t sid l (some w.jobCount) := by
  have hjobs : ∀ j job, w.jobs j = some job → (w.submit (some t) control work).jobs j = some job := by
    intro j job hj
    have hne : j ≠ w.jobCount := (h.job_lt j job hj).ne
    exact (Function.update_of_ne hne ..).trans hj
  refine { h with
    job_lt := fun j job hj ↦ ?_, reconcile := ?_, others := fun t' ht ↦ ?_, owned := fun j job hj ha ↦ ?_ }
  · by_cases hjc : j = w.jobCount
    · exact hjc ▸ Nat.lt_succ_self _
    · exact (h.job_lt j job ((Function.update_of_ne hjc ..).symm.trans hj)).trans (Nat.lt_succ_self _)
  · exact h.reconcile.mono (Finset.Subset.refl _) (Finset.Subset.refl _) (fun j _ _ hj ↦ hjobs j _ hj)
  · refine (h.others t' ht).frame id (fun _ _ hr ↦ hr) (fun s l' i _ hr hl hi ↦ ⟨hl, ?_⟩)
    exact hi.frame rfl id Iff.rfl (fun _ hg ↦ hg) (fun j work phase hj ↦ ⟨phase, hjobs j _ hj⟩)
  · by_cases hjc : j = w.jobCount
    · subst hjc
      cases (Function.update_self ..).symm.trans hj
      exact .inl ⟨rfl, rfl⟩
    · rcases h.owned j job ((Function.update_of_ne hjc ..).symm.trans hj) ha with ⟨-, hown⟩ | hown
      · cases hown
      · exact .inr hown

/-- Whatever changes only the groups for the request's own sid, but for becoming ready. -/
theorem reroute (h : Holding req w t sid l own) {routing : Routing (Request π)} (answered : Finset ℕ)
    (hw : routing.WellFormed) (hm : routing.cidToSidMapping = w.routing.cidToSidMapping)
    (hg : ∀ x < w.routing.groupCount, (w.routing.groups x).sid ≠ sid →
      x < routing.groupCount ∧ (w.routing.groups x).Later (routing.groups x)) :
    Holding req { w with answered := answered, routing := routing } t sid l own := by
  have hregistered : ∀ t s l', Registered req w t s l' →
      Registered req { w with answered := answered, routing := routing } t s l' :=
    fun t s l' hr ↦ ⟨hr.1, hr.2.1, hr.2.2.1, hm ▸ hr.2.2.2.1, hr.2.2.2.2⟩
  refine { h with
    routing := hw, registered := hregistered t sid l h.registered, others := fun t' ht ↦ ?_ }
  refine (h.others t' ht).frame id (hregistered t') (fun s l' i _ hr hl hi ↦ ⟨hl, ?_⟩)
  refine hi.frame rfl id Iff.rfl (fun x hx ↦ ?_) (fun j work phase hj ↦ ⟨phase, hj⟩)
  -- the groups that other requests lead are for other sids
  obtain ⟨hlt, hlater⟩ := hg x hx.1 (hx.2.1 ▸ h.ne ht hr hl)
  exact ⟨hlt, hlater.sid.trans hx.2.1, hlater.cids.trans hx.2.2⟩

theorem join (h : Holding req w t sid l own) {method requestId : String} {batch : Request π}
    {routing : Routing (Request π)} {g : ℕ} {callback : Option Callback} {isNew : Bool}
    (hj : w.routing.join t (req t).cid method requestId batch = some (routing, g, callback, isNew)) :
    Holding req (w.setRouting routing) t sid l own := by
  have hsid := h.registered.2.2.2.1
  obtain ⟨_, _, _, _, hframe⟩ := Routing.join_frame hj
  refine h.reroute w.answered (h.routing.join hj) hframe.cidToSidMapping fun x hx hne ↦ ⟨?_, ?_⟩
  · exact hx.trans_le (h.routing.joined hj hsid).2.2.1
  · exact h.routing.others hj hsid hx hne

theorem settleGroup (h : Holding req w t sid l own) (g : ℕ) (callback : Option Callback) :
    Holding req (w.settleGroup g callback) t sid l own := by
  have hm : (w.routing.runCallback callback).cidToSidMapping = w.routing.cidToSidMapping := by
    cases callback <;> rfl
  refine h.reroute _ (h.routing.runCallback callback) hm fun x hx _ ↦ ⟨?_, ?_⟩
  · rwa [Routing.groupCount_runCallback]
  · rw [Routing.groups_runCallback]
    exact .refl _

end Holding

/-! ### Requests outside the locks -/

/-- A request outside the locks moves, and is one of the requests of the round or not. -/
theorem Inv.move (h : Inv req w) (ht : ∀ sid l i, w.pcs t ≠ .inside sid l i) {requests : Finset ℕ}
    {pc : Pc} (hr : ∀ t' ≠ t, t' ∈ requests ↔ t' ∈ w.requests)
    (hin : requests ⊆ w.requests ∨ w.openRound = true ∧ w.reconcile = .idle)
    (hpc : TaskOk req { w.setPc t pc with requests := requests } t pc) :
    Inv req { w.setPc t pc with requests := requests } := by
  have hother : ∀ t' ≠ t, (w.setPc t pc).pcs t' = w.pcs t' := fun t' hne ↦ Function.update_of_ne hne ..
  have hinside : ∀ t' sid l i, w.pcs t' = .inside sid l i → (w.setPc t pc).pcs t' = .inside sid l i := by
    intro t' sid l i heq
    rw [hother t' (fun hne ↦ ht sid l i (hne ▸ heq)), heq]
  refine { h with
    closed := fun ho ↦ ?_, reconcile := ?_, tasks := fun t' ↦ ?_, owned := fun j job hj ha ↦ ?_,
    waiting := fun sid hl hh ↦ ?_ }
  · rcases hin with hsub | ⟨hopen, -⟩
    · obtain ⟨hempty, hl⟩ := h.closed ho
      exact ⟨Finset.subset_empty.mp (hempty ▸ hsub), hl⟩
    · cases hopen.symm.trans ho
  · rcases hin with hsub | ⟨-, hidle⟩
    · exact h.reconcile.mono hsub (Finset.Subset.refl _) (fun _ _ _ hj ↦ hj)
    · change ReconcileOk _ w.reconcile
      rw [hidle]
      trivial
  · by_cases htt : t' = t
    · subst htt
      rw [show ({ w.setPc t' pc with requests := requests } : World π).pcs t' = pc from Function.update_self ..]
      exact hpc
    · change TaskOk req _ t' ((w.setPc t pc).pcs t')
      rw [hother t' htt]
      refine (h.tasks t').frame (hr t' htt).mp (fun s l' hreg ↦ ?_) (fun s l' i _ hreg hl hi ↦ ⟨hl, hi⟩)
      exact ⟨(hr t' htt).mpr hreg.1, hreg.2⟩
  · cases ho : job.owner with
    | none =>
      obtain ⟨sid, rest, heq⟩ := ho ▸ h.owned j job hj ha
      exact ⟨sid, rest, heq⟩
    | some t' =>
      obtain ⟨sid, l, context, cancelled, heq⟩ := ho ▸ h.owned j job hj ha
      exact ⟨sid, l, context, cancelled, hinside t' _ _ _ heq⟩
  · obtain ⟨t', l, s, heq⟩ := h.waiting sid hl hh
    exact ⟨t', l, s, hinside t' _ _ _ heq⟩

/-- Locks are made for the sids that have none. -/
theorem Inv.replicaLock (h : Inv req w) (sid : Sid) :
    Inv req (w.replicaLock sid).1 ∧
      (w.replicaLock sid).1.replicaLocks.get? sid = some (w.replicaLock sid).2 := by
  unfold World.replicaLock
  cases hl : w.replicaLocks.get? sid with
  | some l => exact ⟨h, hl⟩
  | none =>
    have hget : ∀ s l', w.replicaLocks.get? s = some l' →
        (w.replicaLocks.insert sid w.lockCount).get? s = some l' := by
      intro s l' hs
      have hne : sid ≠ s := by
        rintro rfl
        rw [hl] at hs
        cases hs
      simp [hne, hs]
    refine ⟨{ h with lock_lt := fun s l' hs ↦ ?_, tasks := fun t ↦ ?_ }, by simp⟩
    · change (w.replicaLocks.insert sid w.lockCount).get? s = some l' at hs
      rw [Dict.get?_insert] at hs
      split_ifs at hs with heq
      · cases hs
        exact Nat.lt_succ_self _
      · exact (h.lock_lt s l' hs).trans (Nat.lt_succ_self _)
    · refine (h.tasks t).frame id (fun s l' hr ↦ ?_) (fun s l' i _ hr hlock hi ↦ ⟨?_, hi⟩)
      · exact ⟨hr.1, hget s l' hr.2.1, hr.2.2⟩
      · have hne : l' ≠ w.lockCount := (h.lock_lt s l' hr.2.1).ne
        exact (Function.update_of_ne hne ..).trans hlock

/-- A request that acquires the lock of its replica. -/
theorem Inv.acquire (h : Inv req w) (ht : w.pcs t = .waitLock sid l) (hl : w.locks l = none) :
    Holding req (w.setLock l (some t)) t sid l none := by
  have htask := h.tasks t
  rw [ht] at htask
  have hnot : ∀ t' s l' i, w.pcs t' = .inside s l' i → t' ≠ t := by
    rintro t' s l' i heq rfl
    rw [ht] at heq
    cases heq
  refine { h with
    registered := htask, lock := Function.update_self .., others := fun t' _ ↦ ?_,
    owned := fun j job hj ha ↦ .inr ⟨fun ho ↦ ?_, ?_⟩, waiting := fun s hs _ hh ↦ ?_ }
  · refine (h.tasks t').frame id (fun _ _ hr ↦ hr) (fun s l' i _ hr hlock hi ↦ ⟨?_, hi⟩)
    have hne : l' ≠ l := by
      rintro rfl
      rw [hl] at hlock
      cases hlock
    exact (Function.update_of_ne hne ..).trans hlock
  · obtain ⟨s, l', context, cancelled, heq⟩ := ho ▸ h.owned j job hj ha
    exact hnot t s l' _ heq rfl
  · exact (h.owned j job hj ha).frame (fun _ _ ↦ rfl) rfl
  · obtain ⟨t', l', n, heq⟩ := h.waiting s hs hh
    exact ⟨t', hnot t' s l' _ heq, l', n, heq⟩

end SplitFleet.SuffixInvariant
