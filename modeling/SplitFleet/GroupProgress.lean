import SplitFleet.GroupRouting

set_option autoImplicit false

namespace SplitFleet.GroupProgress

open Lib RequestGroup GroupRouting

variable {β ρ : Type}

/-- The `(sid, method)` pair that a request is grouped by. -/
def key (w : World β ρ) (n : ℕ) : Option (Sid × String) :=
  (w.request n).bind fun q ↦ (w.routing.cidToSidMapping.get? q.1).map fun sid ↦ (sid, q.2)

def Unanswered (w : World β ρ) (cid : Cid) (n : ℕ) : Prop :=
  (∃ method, w.request n = some (cid, method)) ∧ w.outcomes n = []

def AllWaiting (w : World β ρ) : Prop :=
  ∀ cid ∈ w.routing.roundActiveClients, ∃ n, Unanswered w cid n ∧ ∀ m, Unanswered w cid m → m = n

def SomeReady (w : World β ρ) : Prop := ∃ g, w.Led g ∧ (w.routing.groups g).ready = true

/-- The unanswered requests of the active clients are for one server model and one method. -/
def OneKey (w : World β ρ) : Prop :=
  ∀ cid ∈ w.routing.roundActiveClients, ∀ cid' ∈ w.routing.roundActiveClients, ∀ n m,
    Unanswered w cid n → Unanswered w cid' m → key w n = key w m

/-- The steps of one round: no reset or reconfiguration, and a request id is not drawn again while
its table still has it. -/
def Admissible (w : World β ρ) : Action β ρ → Prop
  | .arrive cid method requestId _ => ∀ sid table, w.routing.cidToSidMapping.get? cid = some sid →
      w.routing.requestsState.get? (sid, method) = some table →
      (w.routing.tables table).get? requestId = none
  | .reset | .reconfigure _ _ => False
  | _ => True

/-- Clients send while they are active and wait for the answer before they send again or close. -/
def Polite (w : World β ρ) : Action β ρ → Prop
  | .arrive cid _ _ _ => cid ∈ w.routing.roundActiveClients ∧ ∀ n, ¬Unanswered w cid n
  | .markDone cid => ∀ n, ¬Unanswered w cid n
  | _ => True

/-- The worlds of a round in batch mode whose steps all meet a condition. -/
inductive Round (P : World β ρ → Action β ρ → Prop) : World β ρ → Prop
  | start (mapping : Dict Cid Sid) (active : List Cid) (h : active.Nodup) :
      Round P (.start (.start true mapping active))
  | step {w w' : World β ρ} (a : Action β ρ) (h : Round P w) (ha : P w a) (hs : step w a = some w') :
      Round P w'

theorem Round.reachable {P : World β ρ → Action β ρ → Prop} {w : World β ρ} (h : Round P w) :
    Reachable w := by
  induction h with
  | start mapping active _ => exact .start true mapping active
  | step a _ _ hs ih => exact ih.step a hs

theorem Round.mono {P Q : World β ρ → Action β ρ → Prop} (hPQ : ∀ w a, P w a → Q w a)
    {w : World β ρ} (h : Round P w) : Round Q w := by
  induction h with
  | start mapping active hn => exact .start mapping active hn
  | step a _ ha hs ih => exact ih.step a (hPQ _ _ ha) hs

/-- Where the groups that still have a leader are, and how large the ones that wait are. -/
structure Tracked (w : World β ρ) : Prop where
  batchMode : w.routing.processClientsAsBatch = true
  nodup : w.routing.roundActiveClients.Nodup
  known : ∀ n, n < w.count ↔ ∃ q, w.request n = some q
  opened : ∀ k table, w.routing.requestsState.get? k = some table → table < w.routing.tableCount
  injective : ∀ k k' table, w.routing.requestsState.get? k = some table →
    w.routing.requestsState.get? k' = some table → k = k'
  home : ∀ n g c, (w.pcs n).leads = some (g, c) → ∃ k table id, c = some ⟨table, id⟩ ∧
    w.routing.requestsState.get? k = some table ∧ (w.routing.tables table).get? id = some g ∧
    ∀ m ∈ w.events g, key w m = some k
  single : ∀ table id id' g g', (w.routing.tables table).get? id = some g →
    (w.routing.tables table).get? id' = some g' → (w.routing.groups g).ready = false →
    (w.routing.groups g').ready = false → g = g'
  small : ∀ g, w.Led g → (w.routing.groups g).ready = false → w.routing.roundActiveClients ≠ [] →
    (w.events g).length < w.routing.roundActiveClients.length

theorem numBatches_eq {w : World β ρ} (h : Sound w) (g : ℕ) :
    (w.routing.groups g).numBatches = (w.events g).length := by
  have hl := congrArg List.length (h.aligned g).2
  simpa [Group.numBatches] using hl

theorem isComplete_iff {w : World β ρ} (h : Sound w) (hb : w.routing.processClientsAsBatch = true)
    (g : ℕ) : w.routing.isComplete (w.routing.groups g) = true ↔
      (w.events g).length = w.routing.roundActiveClients.length := by
  simp [Routing.isComplete, hb, numBatches_eq h]

namespace Tracked

variable {w w' : World β ρ}

theorem of_start {mapping : Dict Cid Sid} {active : List Cid} (h : active.Nodup) :
    Tracked (.start (.start true mapping active) : World β ρ) where
  batchMode := rfl
  nodup := h
  known n := by simp [World.start]
  opened _ _ hk := nomatch hk
  injective _ _ _ hk := nomatch hk
  home _ _ _ hn := nomatch hn
  single _ _ _ _ _ hx := nomatch hx
  small g hl := by
    obtain ⟨n, c, hn⟩ := hl
    cases hn

theorem listed (t : Tracked w) {g : ℕ} (hl : w.Led g) : g ∈ w.routing.listed := by
  obtain ⟨n, c, hn⟩ := hl
  obtain ⟨k, table, id, -, hk, hx, -⟩ := t.home n g c hn
  exact Routing.mem_listed.mpr ⟨k, table, id, hk, hx⟩

end Tracked

/-- The steps between the arrivals, as far as the groups can see them: either the routing stays as it
is, or a leader has left and its callback has run. -/
structure Quiet (w w' : World β ρ) : Prop where
  request : w'.request = w.request
  count : w'.count = w.count
  outcomes : ∀ n, w'.outcomes n = [] → w.outcomes n = []
  leads : ∀ n l, (w'.pcs n).leads = some l → (w.pcs n).leads = some l
  routing : w'.routing = w.routing ∨ ∃ n g c, (w.pcs n).leads = some (g, c) ∧
    (w'.pcs n).leads = none ∧ w'.routing = w.routing.runCallback c

theorem quiet_step {w w' : World β ρ} {a : Action β ρ} (hs : step w a = some w')
    (harrive : ∀ cid method id batch, a ≠ .arrive cid method id batch) (hdone : ∀ cid, a ≠ .markDone cid)
    (hreset : a ≠ .reset) (hre : ∀ mapping active, a ≠ .reconfigure mapping active) : Quiet w w' := by
  have hset : ∀ n pc, pc.leads = (w.pcs n).leads ∨ pc.leads = none →
      ∀ m l, ((w.setPc n pc).pcs m).leads = some l → (w.pcs m).leads = some l := by
    intro n pc hpc m l hl
    by_cases hm : m = n
    · subst hm
      rw [World.pcs_setPc_self] at hl
      rcases hpc with hpc | hpc <;> rw [hpc] at hl
      · exact hl
      · cases hl
    · rwa [World.pcs_setPc_of_ne hm] at hl
  cases a with
  | arrive cid method id batch => exact absurd rfl (harrive cid method id batch)
  | markDone cid => exact absurd rfl (hdone cid)
  | reset => exact absurd rfl hreset
  | reconfigure mapping active => exact absurd rfl (hre mapping active)
  | start n =>
    cases hp : w.pcs n <;> simp [step, hp] at hs
    obtain ⟨-, rfl⟩ := hs
    exact ⟨rfl, rfl, fun _ ho ↦ ho, hset n _ (.inl (by rw [hp]; rfl)), .inl rfl⟩
  | compute n responses =>
    cases hp : w.pcs n <;> simp [step, hp, World.compute] at hs
    obtain ⟨-, rfl⟩ := hs
    exact ⟨rfl, rfl, fun _ ho ↦ ho, hset n _ (.inl (by rw [hp]; rfl)), .inl rfl⟩
  | publish n =>
    cases hp : w.pcs n <;> simp [step, hp] at hs
    obtain rfl := hs
    refine ⟨rfl, rfl, fun _ ho ↦ (List.append_eq_nil_iff.mp ho).1, hset n _ (.inr rfl),
      .inr ⟨n, _, _, by rw [hp]; rfl, ?_, rfl⟩⟩
    rw [World.publish, World.pcs_setPc_self]
    rfl
  | fail n error =>
    cases hp : w.pcs n <;> simp [step, hp] at hs <;> obtain rfl := hs <;>
      refine ⟨rfl, rfl, fun _ ho ↦ (List.append_eq_nil_iff.mp ho).1, hset n _ (.inr rfl),
        .inr ⟨n, _, _, by rw [hp]; rfl, ?_, rfl⟩⟩ <;>
      rw [World.fail, World.pcs_setPc_self] <;> rfl
  | take n =>
    cases hp : w.pcs n <;> simp [step, hp] at hs
    obtain ⟨-, rfl⟩ := hs
    exact ⟨rfl, rfl, fun _ ho ↦ ho, hset n _ (.inr rfl), .inl rfl⟩
  | leave n =>
    cases hp : w.pcs n <;> simp [step, hp] at hs
    obtain rfl := hs
    exact ⟨rfl, rfl, fun _ ho ↦ ho, hset n _ (.inr rfl), .inl rfl⟩

/-- The tables that a quiet step leaves still have every group with a leader. -/
theorem Quiet.tables {w w' : World β ρ} (q : Quiet w w') (h : Sound w) (t : Tracked w) :
    ∃ tables, w'.routing = { w.routing with tables := tables } ∧
      (∀ table id x, (tables table).get? id = some x → (w.routing.tables table).get? id = some x) ∧
      ∀ n g table id, (w'.pcs n).leads = some (g, some ⟨table, id⟩) →
        (w.routing.tables table).get? id = some g → (tables table).get? id = some g := by
  rcases q.routing with hr | ⟨n, g, c, hn, hnone, hr⟩
  · exact ⟨w.routing.tables, hr, fun _ _ _ hx ↦ hx, fun _ _ _ _ _ hx ↦ hx⟩
  · refine ⟨_, hr.trans (Routing.runCallback_eq ..), fun table id x hx ↦ (Routing.get?_runCallback.mp hx).1, ?_⟩
    intro m g' table id hm hx
    refine Routing.get?_runCallback.mpr ⟨hx, ?_⟩
    rintro rfl
    -- the removed entry is the leaving leader's own
    obtain ⟨k, table', id', hc, -, hx', -⟩ := t.home n g _ hn
    cases hc
    rw [hx] at hx'
    obtain rfl := Option.some.inj hx'
    obtain rfl := h.leader m n g' _ _ (q.leads m _ hm) hn
    rw [hnone] at hm
    cases hm

theorem Tracked.quiet {w w' : World β ρ} (t : Tracked w) (h : Sound w) (q : Quiet w w') : Tracked w' := by
  obtain ⟨tables, hr, hsub, hkeep⟩ := q.tables h t
  have hkey : ∀ n, key w' n = key w n := fun n ↦ by rw [key, key, q.request, hr]
  have hgroups : w'.routing.groups = w.routing.groups := by rw [hr]
  have hevents : ∀ g, w'.events g = w.events g := fun g ↦ by rw [World.events, hgroups, World.events]
  refine
    { batchMode := by rw [hr]; exact t.batchMode
      nodup := by rw [hr]; exact t.nodup
      known := by rw [q.request, q.count]; exact t.known
      opened := by rw [hr]; exact t.opened
      injective := by rw [hr]; exact t.injective
      home := fun n g c hn ↦ ?_
      single := fun table id id' g g' hx hx' ↦ ?_
      small := fun g hl hready ↦ ?_ }
  · obtain ⟨k, table, id, rfl, hk, hx, hmem⟩ := t.home n g c (q.leads n _ hn)
    refine ⟨k, table, id, rfl, ?_, ?_, fun m hm ↦ ?_⟩
    · rw [hr]
      exact hk
    · rw [hr]
      exact hkeep n g table id hn hx
    · rw [hkey]
      exact hmem m (hevents g ▸ hm)
  · rw [hr] at hx hx'
    rw [hgroups]
    exact t.single table id id' g g' (hsub _ _ _ hx) (hsub _ _ _ hx')
  · obtain ⟨n, c, hn⟩ := hl
    rw [hgroups] at hready
    rw [hevents, hr]
    exact t.small g ⟨n, c, q.leads n _ hn⟩ hready

theorem Tracked.markDone {w : World β ρ} (t : Tracked w) {cid : Cid} {r : Routing β}
    (hr : w.routing.markClientAsDone cid = some r) (h' : Sound { w with routing := r }) :
    Tracked { w with routing := r } := by
  obtain ⟨hmem, rfl⟩ := Routing.markClientAsDone_eq_some hr
  have hlater := Routing.later_markReadyRequests (w.routing.removeActive cid)
  set w' : World β ρ := { w with routing := (w.routing.removeActive cid).markReadyRequests } with hw'
  have hevents : ∀ g, w'.events g = w.events g := fun g ↦ (hlater g).events
  have hunready : ∀ g, (w'.routing.groups g).ready = false → (w.routing.groups g).ready = false := by
    intro g hg
    by_contra hready
    have := (hlater g).ready (Bool.not_eq_false _ ▸ hready)
    rw [this] at hg
    cases hg
  have hlen : w'.routing.roundActiveClients.length + 1 = w.routing.roundActiveClients.length := by
    have := List.length_erase_of_mem hmem
    have := List.length_pos_of_mem hmem
    change (w.routing.roundActiveClients.erase cid).length + 1 = _
    omega
  refine
    { batchMode := t.batchMode
      nodup := t.nodup.erase cid
      known := t.known
      opened := t.opened
      injective := t.injective
      home := fun n g c hn ↦ ?_
      single := fun table id id' g g' hx hx' hg hg' ↦
        t.single table id id' g g' hx hx' (hunready g hg) (hunready g' hg')
      small := fun g hl hready hne ↦ ?_ }
  · obtain ⟨k, table, id, rfl, hk, hx, hmem⟩ := t.home n g c hn
    exact ⟨k, table, id, rfl, hk, hx, fun m hm ↦ hmem m (hevents g ▸ hm)⟩
  · have hold := t.small g hl (hunready g hready) (List.ne_nil_of_mem hmem)
    have hne' : (w'.events g).length ≠ w'.routing.roundActiveClients.length := by
      intro hlen'
      have hg := @Routing.ready_markReadyRequests _ (w.routing.removeActive cid) g (t.listed hl)
        ((isComplete_iff h' t.batchMode g).mpr hlen')
      exact absurd (hg.symm.trans hready) (by decide)
    rw [hevents] at hne' ⊢
    omega

section Arrive

variable {w : World β ρ} {cid : Cid} {method requestId : String} {batch : β} {r : Routing β} {g : ℕ}
  {callback : Option Callback} {isNew : Bool}

theorem Tracked.arrive (t : Tracked w) (h : Sound w)
    (hj : w.routing.join w.count cid method requestId batch = some (r, g, callback, isNew))
    (hid : Admissible (ρ := ρ) w (.arrive cid method requestId batch))
    (h' : Sound (w.arrived cid method batch r g callback isNew)) :
    Tracked (w.arrived cid method batch r g callback isNew) := by
  have A := arrival_of_join h hj
  obtain ⟨sid, table, hsid, hkey, hother, -, hcase⟩ := Routing.join_cases hj
  obtain ⟨sid', table', hsid', hkey', F⟩ := Routing.join_frame hj
  obtain rfl : sid = sid' := Option.some.inj (hsid.symm.trans hsid')
  obtain rfl : table = table' := Option.some.inj (hkey.symm.trans hkey')
  set w' := w.arrived cid method batch r g callback isNew with hw'
  have hstate : ∀ k T, w.routing.requestsState.get? k = some T → r.requestsState.get? k = some T := by
    intro k T hk
    by_cases hks : k = (sid, method)
    · subst hks
      rcases F.opened with ⟨hold, -⟩ | ⟨hnone, -⟩
      · rw [hold] at hk
        rw [hkey, hk]
      · rw [hnone] at hk
        cases hk
    · rw [hother k hks, hk]
  have hkeyOld : ∀ m < w.count, key w' m = key w m := by
    intro m hm
    have hreq : w'.request m = w.request m := Function.update_of_ne hm.ne ..
    rw [key, key, hreq]
    change (w.request m).bind (fun q ↦ (r.cidToSidMapping.get? q.1).map _) = _
    rw [F.cidToSidMapping]
  have hkeyNew : key w' w.count = some (sid, method) := by
    have hreq : w'.request w.count = some (cid, method) := Function.update_self ..
    have hmap : w'.routing.cidToSidMapping.get? cid = some sid := by
      change r.cidToSidMapping.get? cid = some sid
      rw [F.cidToSidMapping, hsid]
    simp [key, hreq, hmap]
  -- a group that was led keeps its place, the new id being none of the table's
  have hkept : ∀ k T id x, w.routing.requestsState.get? k = some T →
      (w.routing.tables T).get? id = some x → (r.tables T).get? id = some x := by
    intro k T id x hk hx
    rcases hcase with ⟨-, -, -, -, -, htables, -⟩ | ⟨-, -, -, -, -, -, hsame, -⟩
    · rw [htables, hx]
    · by_cases hT : T = table
      · subst hT
        rcases F.opened with ⟨hold, -⟩ | ⟨-, hnew, -⟩
        · refine F.kept id x hold ?_ hx
          rintro rfl
          rw [hid sid T hsid hold] at hx
          cases hx
        · have := t.opened k T hk
          omega
      · rw [hsame T hT, hx]
  have hunready : ∀ x, (r.groups x).ready = false → x ≠ g → (w.routing.groups x).ready = false := by
    intro x hx hne
    by_contra hready
    have := (A.others x hne).ready (Bool.not_eq_false _ ▸ hready)
    exact absurd (this.symm.trans hx) (by decide)
  have hhome : ∀ n x c, (w'.pcs n).leads = some (x, c) → ∃ k T id, c = some ⟨T, id⟩ ∧
      r.requestsState.get? k = some T ∧ (r.tables T).get? id = some x ∧
      ∀ m ∈ w'.events x, key w' m = some k := by
    intro n x c hn
    by_cases hnc : n = w.count
    · subst hnc
      obtain ⟨rfl, hg⟩ := A.eq_groupCount hn
      rcases hcase with ⟨id, hx, -⟩ | ⟨-, rfl, rfl, -, hx, -⟩
      · obtain ⟨m, hm⟩ := h.listed table id x hx
        have := h.born (Pc.group_of_leads hm)
        omega
      · have hpc : w'.pcs w.count = .leading x (some ⟨table, requestId⟩) := Function.update_self ..
        rw [hpc] at hn
        cases hn
        refine ⟨(sid, method), table, requestId, rfl, hkey, hx, fun m hm ↦ ?_⟩
        rw [A.events, h.unborn x hg.ge] at hm
        rw [List.mem_singleton.mp hm, hkeyNew]
    · rw [A.pcs_of_ne hnc] at hn
      obtain ⟨k, T, id, rfl, hk, hx, hmem⟩ := t.home n x c hn
      refine ⟨k, T, id, rfl, hstate k T hk, hkept k T id x hk hx, fun m hm ↦ ?_⟩
      have hold : m ∈ w.events x → key w' m = some k := fun hm ↦
        (hkeyOld m (h.lt_count ((h.member x m).mp hm))).trans (hmem m hm)
      by_cases hxg : x = g
      · subst hxg
        rw [A.events] at hm
        rcases List.mem_append.mp hm with hm | hm
        · exact hold hm
        · rw [List.mem_singleton.mp hm, hkeyNew]
          rcases hcase with ⟨id', hx', -, -, -, -, -, hold', -⟩ | ⟨hg, -⟩
          · obtain ⟨m', hm'⟩ := h.listed table id' x hx'
            obtain rfl := h.leader m' n x _ _ hm' hn
            rw [hn] at hm'
            cases hm'
            exact congrArg some (t.injective _ _ _ hold' hk)
          · have := h.born (Pc.group_of_leads hn)
            omega
      · exact hold (A.events_of_ne hxg ▸ hm)
  refine
    { batchMode := F.processClientsAsBatch.trans t.batchMode
      nodup := by
        change r.roundActiveClients.Nodup
        rw [F.roundActiveClients]
        exact t.nodup
      known := fun n ↦ ?_
      opened := fun k T hk ↦ ?_
      injective := fun k k' T hk hk' ↦ ?_
      home := hhome
      single := fun T id id' x x' hx hx' hr hr' ↦ ?_
      small := fun x hl hready hne ↦ ?_ }
  · change n < w.count + 1 ↔ ∃ q, Function.update w.request w.count (some (cid, method)) n = some q
    by_cases hnc : n = w.count
    · subst hnc
      simp
    · rw [Function.update_of_ne hnc, ← t.known]
      omega
  · have hle : w.routing.tableCount ≤ r.tableCount := by rcases F.opened with ⟨-, hc⟩ | ⟨-, -, hc⟩ <;> omega
    by_cases hks : k = (sid, method)
    · subst hks
      obtain rfl := Option.some.inj (hkey.symm.trans hk)
      rcases F.opened with ⟨hold, -⟩ | ⟨-, hnew, hc⟩
      · exact (t.opened _ _ hold).trans_le hle
      · change table < r.tableCount
        omega
    · exact (t.opened k T ((hother k hks).symm.trans hk)).trans_le hle
  · -- an old entry never has the number of a table that is just opened
    have hnew : ∀ k, k ≠ (sid, method) → w.routing.requestsState.get? k ≠ some table := by
      intro k hk hold
      rcases F.opened with ⟨hold', -⟩ | ⟨-, hnew, -⟩
      · exact hk (t.injective k _ table hold hold')
      · have := t.opened k table hold
        omega
    by_cases hks : k = (sid, method) <;> by_cases hks' : k' = (sid, method)
    · rw [hks, hks']
    · subst hks
      obtain rfl := Option.some.inj (hkey.symm.trans hk)
      exact absurd ((hother k' hks').symm.trans hk') (hnew k' hks')
    · subst hks'
      obtain rfl := Option.some.inj (hkey.symm.trans hk')
      exact absurd ((hother k hks).symm.trans hk) (hnew k hks)
    · exact t.injective k k' T ((hother k hks).symm.trans hk) ((hother k' hks').symm.trans hk')
  · change (r.tables T).get? id = some x at hx
    change (r.tables T).get? id' = some x' at hx'
    rcases hcase with ⟨-, -, hready, -, -, htables, -⟩ | ⟨hg, -, -, -, -, hold, hsame, -⟩
    · have hun : ∀ y, (r.groups y).ready = false → (w.routing.groups y).ready = false := by
        intro y hy
        by_cases hyg : y = g
        · exact hyg ▸ hready
        · exact hunready y hy hyg
      rw [htables] at hx hx'
      exact t.single T id id' x x' hx hx' (hun x hr) (hun x' hr')
    · by_cases hT : T = table
      · subst hT
        have hnew : ∀ id y, (r.tables T).get? id = some y → (r.groups y).ready = false → y = g := by
          intro id y hy hyr
          by_contra hyg
          rcases hold id y hy with ⟨he, -⟩ | ⟨-, hready⟩
          · exact hyg he
          · exact absurd (hready.symm.trans (hunready y hyr hyg)) (by decide)
        rw [hnew id x hx hr, hnew id' x' hx' hr']
      · rw [hsame T hT] at hx hx'
        have hborn : ∀ id y, (w.routing.tables T).get? id = some y → y ≠ g := by
          intro id y hy
          obtain ⟨m, hm⟩ := h.listed T id y hy
          have := h.born (Pc.group_of_leads hm)
          omega
        exact t.single T id id' x x' hx hx' (hunready x hr (hborn id x hx))
          (hunready x' hr' (hborn id' x' hx'))
  · have hactive : w'.routing.roundActiveClients = w.routing.roundActiveClients := F.roundActiveClients
    have hpos : w.routing.roundActiveClients.length ≠ 0 := fun h0 ↦
      hne (hactive.trans (List.eq_nil_of_length_eq_zero h0))
    by_cases hxg : x = g
    · subst hxg
      obtain ⟨n, c, hn⟩ := hl
      obtain ⟨k, T, id, -, hk, hx, -⟩ := hhome n x c hn
      have hnot : (w'.events x).length ≠ w'.routing.roundActiveClients.length := by
        intro hlen
        have hready' := F.complete x (Routing.mem_listed.mpr ⟨k, T, id, hk, hx⟩)
          ((isComplete_iff h' (F.processClientsAsBatch.trans t.batchMode) x).mpr hlen)
        exact absurd (hready'.symm.trans hready) (by decide)
      have hle : (w.events x).length < w.routing.roundActiveClients.length := by
        rcases A.route with ⟨hled, hun, -⟩ | ⟨_, _, hg, -⟩
        · exact t.small x hled hun (hactive ▸ hne)
        · rw [h.unborn x hg.ge, List.length_nil]
          omega
      rw [hactive] at hnot ⊢
      rw [A.events, List.length_append, List.length_singleton] at hnot ⊢
      omega
    · rw [A.events_of_ne hxg, hactive]
      have hled : w.Led x := (A.led_or hl).resolve_right fun hx ↦ hxg hx.1
      exact t.small x hled (hunready x hready hxg) (hactive ▸ hne)

end Arrive

theorem Round.tracked {w : World β ρ} (h : Round Admissible w) : Tracked w := by
  induction h with
  | start mapping active hn => exact .of_start hn
  | @step w w' a h ha hs t =>
    have hsound := h.reachable.sound
    have hsound' := step_sound hsound hs
    cases a with
    | arrive cid method requestId batch =>
      simp only [GroupRouting.step, World.arrive] at hs
      cases hj : w.routing.join w.count cid method requestId batch with
      | none => rw [hj] at hs; cases hs
      | some j =>
        obtain ⟨r, g, callback, isNew⟩ := j
        rw [hj] at hs
        obtain rfl := Option.some.inj hs
        exact t.arrive hsound hj ha hsound'
    | markDone cid =>
      obtain ⟨r, hr, rfl⟩ := Option.map_eq_some_iff.mp hs
      exact t.markDone hr hsound'
    | reset => exact ha.elim
    | reconfigure mapping active => exact ha.elim
    | _ => exact t.quiet hsound (quiet_step hs (by simp) (by simp) (by simp) (by simp))

/-! ### Progress -/

section Progress

variable {w : World β ρ}

def cidOf (w : World β ρ) (n : ℕ) : Cid := ((w.request n).map Prod.fst).getD ""

theorem Unanswered.cidOf_eq {cid : Cid} {n : ℕ} (hn : Unanswered w cid n) : cidOf w n = cid := by
  obtain ⟨⟨method, hm⟩, -⟩ := hn
  simp [cidOf, hm]

/-- A request without an outcome is in a group that still has its leader. -/
theorem Unanswered.mem_led {cid : Cid} {n : ℕ} (hn : Unanswered w cid n) (h : Sound w) (t : Tracked w) :
    ∃ g, w.Led g ∧ n ∈ w.events g := by
  obtain ⟨⟨method, hm⟩, ho⟩ := hn
  obtain ⟨g, hg⟩ := h.joined n ((t.known n).mpr ⟨_, hm⟩)
  have hmem := (h.member g n).mpr hg
  refine ⟨g, ?_, hmem⟩
  by_contra hl
  have hlen := (h.answered g (h.born hg) hl).length hmem
  rw [ho] at hlen
  cases hlen

/-- If all active clients wait for one key, they wait in one group, which is then large enough. -/
theorem someReady_of_oneKey (h : Sound w) (t : Tracked w) (hne : w.routing.roundActiveClients ≠ [])
    (hwait : AllWaiting w) (hone : OneKey w) : SomeReady w := by
  by_contra hno
  have hunready : ∀ g, w.Led g → (w.routing.groups g).ready = false := by
    intro g hl
    by_contra hr
    exact hno ⟨g, hl, Bool.not_eq_false _ ▸ hr⟩
  obtain ⟨cid, hcid⟩ := List.exists_mem_of_ne_nil _ hne
  obtain ⟨n, hn, -⟩ := hwait cid hcid
  obtain ⟨g, hl, hmem⟩ := hn.mem_led h t
  have hlead := hl
  obtain ⟨l, c, hl⟩ := hl
  obtain ⟨k, table, id, -, hk, hx, hkeys⟩ := t.home l g c hl
  have hsub : w.routing.roundActiveClients ⊆ (w.events g).map (cidOf w) := by
    intro cid' hcid'
    obtain ⟨m, hm, -⟩ := hwait cid' hcid'
    obtain ⟨g', hl', hmem'⟩ := hm.mem_led h t
    have hlead' := hl'
    obtain ⟨l', c', hl'⟩ := hl'
    obtain ⟨k', table', id', -, hk', hx', hkeys'⟩ := t.home l' g' c' hl'
    have hkk : k' = k := by
      have := hone cid' hcid' cid hcid m n hm hn
      rw [hkeys' m hmem', hkeys n hmem] at this
      exact Option.some.inj this
    subst hkk
    obtain rfl := Option.some.inj (hk.symm.trans hk')
    obtain rfl := t.single table id id' g g' hx hx' (hunready g hlead) (hunready g' hlead')
    exact List.mem_map.mpr ⟨m, hmem', hm.cidOf_eq⟩
  have hle := (t.nodup.subperm hsub).length_le
  rw [List.length_map] at hle
  have hlt := t.small g hlead (hunready g hlead) hne
  omega

/-- What polite clients keep up: one request each, and a ready group that all of them are in. -/
structure Courteous (w : World β ρ) : Prop where
  unique : ∀ cid n m, Unanswered w cid n → Unanswered w cid m → n = m
  active : ∀ cid n, Unanswered w cid n → cid ∈ w.routing.roundActiveClients
  full : ∀ g, w.Led g → (w.routing.groups g).ready = true → ∀ cid ∈ w.routing.roundActiveClients,
    ∃ n ∈ w.events g, Unanswered w cid n

theorem unanswered_of_mem (h : Sound w) (t : Tracked w) {g n : ℕ} (hl : w.Led g) (hn : n ∈ w.events g) :
    Unanswered w (cidOf w n) n := by
  obtain ⟨⟨cid, method⟩, hq⟩ := (t.known n).mp (h.lt_count ((h.member g n).mp hn))
  exact ⟨⟨method, by simp [cidOf, hq]⟩, h.pending g hl n hn⟩

/-- A group as large as the list of active clients has a request of each. -/
theorem full_of_length (h : Sound w) (t : Tracked w)
    (hunique : ∀ cid n m, Unanswered w cid n → Unanswered w cid m → n = m)
    (hactive : ∀ cid n, Unanswered w cid n → cid ∈ w.routing.roundActiveClients) {g : ℕ}
    (hl : w.Led g) (hlen : (w.events g).length = w.routing.roundActiveClients.length) :
    ∀ cid ∈ w.routing.roundActiveClients, ∃ n ∈ w.events g, Unanswered w cid n := by
  have hnodup : ((w.events g).map (cidOf w)).Nodup := by
    refine (h.nodup g).map_on fun n hn m hm he ↦ ?_
    have hun := unanswered_of_mem h t hl hn
    rw [he] at hun
    exact hunique _ n m hun (unanswered_of_mem h t hl hm)
  have hsub : (w.events g).map (cidOf w) ⊆ w.routing.roundActiveClients := by
    intro cid hcid
    obtain ⟨n, hn, rfl⟩ := List.mem_map.mp hcid
    exact hactive _ n (unanswered_of_mem h t hl hn)
  have hperm := (hnodup.subperm hsub).perm_of_length_le (by rw [List.length_map, hlen])
  intro cid hcid
  obtain ⟨n, hn, rfl⟩ := List.mem_map.mp (hperm.mem_iff.mpr hcid)
  exact ⟨n, hn, unanswered_of_mem h t hl hn⟩

theorem oneKey_of_someReady (t : Tracked w) (u : Courteous w) (hready : SomeReady w) : OneKey w := by
  obtain ⟨g, hl, hr⟩ := hready
  have hfull := u.full g hl hr
  obtain ⟨l, c, hl⟩ := hl
  obtain ⟨k, -, -, -, -, -, hkeys⟩ := t.home l g c hl
  have hkey : ∀ cid ∈ w.routing.roundActiveClients, ∀ n, Unanswered w cid n → key w n = some k := by
    intro cid hcid n hn
    obtain ⟨m, hm, hm'⟩ := hfull cid hcid
    exact u.unique cid n m hn hm' ▸ hkeys m hm
  intro cid hcid cid' hcid' n m hn hm
  rw [hkey cid hcid n hn, hkey cid' hcid' m hm]

end Progress

namespace Courteous

variable {w w' : World β ρ}

theorem of_start (mapping : Dict Cid Sid) (active : List Cid) :
    Courteous (.start (.start true mapping active) : World β ρ) where
  unique cid n m hn := by
    obtain ⟨⟨method, hm⟩, -⟩ := hn
    cases hm
  active cid n hn := by
    obtain ⟨⟨method, hm⟩, -⟩ := hn
    cases hm
  full g hl := by
    obtain ⟨n, c, hn⟩ := hl
    cases hn

theorem quiet (u : Courteous w) (h' : Sound w') (t : Tracked w) (h : Sound w) (q : Quiet w w') :
    Courteous w' := by
  obtain ⟨tables, hr, -, -⟩ := q.tables h t
  have hback : ∀ cid n, Unanswered w' cid n → Unanswered w cid n := by
    rintro cid n ⟨hreq, ho⟩
    exact ⟨q.request ▸ hreq, q.outcomes n ho⟩
  have hactive : w'.routing.roundActiveClients = w.routing.roundActiveClients := by rw [hr]
  refine ⟨fun cid n m hn hm ↦ u.unique cid n m (hback cid n hn) (hback cid m hm), fun cid n hn ↦ ?_,
    fun g hl hready cid hcid ↦ ?_⟩
  · rw [hactive]
    exact u.active cid n (hback cid n hn)
  · have hlw : w.Led g := by
      obtain ⟨n, c, hn⟩ := hl
      exact ⟨n, c, q.leads n _ hn⟩
    have hgroups : w'.routing.groups = w.routing.groups := by rw [hr]
    obtain ⟨n, hn, hreq, -⟩ := u.full g hlw (hgroups ▸ hready) cid (hactive ▸ hcid)
    have hn' : n ∈ w'.events g := by
      rw [World.events, hgroups]
      exact hn
    exact ⟨n, hn', q.request ▸ hreq, h'.pending g hl n hn'⟩

theorem markDone (u : Courteous w) {cid : Cid} {r : Routing β}
    (hr : w.routing.markClientAsDone cid = some r) (hp : Polite (ρ := ρ) w (.markDone cid))
    (h' : Sound { w with routing := r }) (t' : Tracked { w with routing := r }) :
    Courteous { w with routing := r } := by
  obtain ⟨hmem, rfl⟩ := Routing.markClientAsDone_eq_some hr
  have hlater := Routing.later_markReadyRequests (w.routing.removeActive cid)
  set w' : World β ρ := { w with routing := (w.routing.removeActive cid).markReadyRequests } with hw'
  have hactive : ∀ cid' n, Unanswered w' cid' n → cid' ∈ w'.routing.roundActiveClients := by
    intro cid' n hn
    have hne : cid' ≠ cid := by
      rintro rfl
      exact hp n hn
    exact (List.mem_erase_of_ne hne).mpr (u.active cid' n hn)
  refine ⟨u.unique, hactive, fun g hl hready ↦ ?_⟩
  rcases Routing.ready_markReadyRequests_cases hready with hold | hcomplete
  · intro cid' hcid'
    obtain ⟨n, hn, hun⟩ := u.full g hl hold cid' (List.mem_of_mem_erase hcid')
    have hn' : n ∈ w'.events g := by
      rw [show w'.events g = w.events g from (hlater g).events]
      exact hn
    exact ⟨n, hn', hun⟩
  · exact full_of_length h' t' u.unique hactive hl ((isComplete_iff h' t'.batchMode g).mp hcomplete)

theorem arrive (u : Courteous w) (h : Sound w) {cid : Cid} {method requestId : String} {batch : β}
    {r : Routing β} {g : ℕ} {callback : Option Callback} {isNew : Bool}
    (hj : w.routing.join w.count cid method requestId batch = some (r, g, callback, isNew))
    (hp : Polite (ρ := ρ) w (.arrive cid method requestId batch))
    (h' : Sound (w.arrived cid method batch r g callback isNew))
    (t' : Tracked (w.arrived cid method batch r g callback isNew)) :
    Courteous (w.arrived cid method batch r g callback isNew) := by
  obtain ⟨hcid, hnone⟩ := hp
  have A := arrival_of_join h hj
  obtain ⟨sid, table, -, -, F⟩ := Routing.join_frame hj
  set w' := w.arrived cid method batch r g callback isNew with hw'
  have hreq : ∀ n, n ≠ w.count → w'.request n = w.request n := fun n hn ↦ Function.update_of_ne hn ..
  have hback : ∀ cid' n, Unanswered w' cid' n → n = w.count ∧ cid' = cid ∨ Unanswered w cid' n := by
    rintro cid' n ⟨⟨method', hm⟩, ho⟩
    by_cases hn : n = w.count
    · subst hn
      have hself : w'.request w.count = some (cid, method) := Function.update_self ..
      rw [hself] at hm
      cases hm
      exact .inl ⟨rfl, rfl⟩
    · exact .inr ⟨⟨method', hreq n hn ▸ hm⟩, ho⟩
  have hactive' : w'.routing.roundActiveClients = w.routing.roundActiveClients := F.roundActiveClients
  have hunique : ∀ cid' n m, Unanswered w' cid' n → Unanswered w' cid' m → n = m := by
    intro cid' n m hn hm
    rcases hback cid' n hn with ⟨hn, hc⟩ | hn <;> rcases hback cid' m hm with ⟨hm, hc'⟩ | hm
    · rw [hn, hm]
    · exact absurd (hc ▸ hm) (hnone m)
    · exact absurd (hc' ▸ hn) (hnone n)
    · exact u.unique cid' n m hn hm
  have hactive : ∀ cid' n, Unanswered w' cid' n → cid' ∈ w'.routing.roundActiveClients := by
    intro cid' n hn
    rw [hactive']
    rcases hback cid' n hn with ⟨-, rfl⟩ | hn
    · exact hcid
    · exact u.active cid' n hn
  refine ⟨hunique, hactive, fun x hl hready ↦ ?_⟩
  rcases F.ready x hready with ⟨hne, hold⟩ | hcomplete
  · -- a ready group has a request of the client already, so the client would not have sent
    have hlw : w.Led x := (A.led_or hl).resolve_right fun hx ↦ hne hx.1
    obtain ⟨n, -, hun⟩ := u.full x hlw hold cid hcid
    exact absurd hun (hnone n)
  · exact full_of_length h' t' hunique hactive hl ((isComplete_iff h' t'.batchMode x).mp hcomplete)

end Courteous

def Orderly (w : World β ρ) (a : Action β ρ) : Prop := Admissible w a ∧ Polite w a

theorem Round.courteous {w : World β ρ} (h : Round Orderly w) : Courteous w := by
  induction h with
  | start mapping active hn => exact .of_start mapping active
  | @step w w' a h ha hs u =>
    have hround := h.mono fun _ _ ha ↦ ha.1
    have hsound := h.reachable.sound
    have hsound' := step_sound hsound hs
    have htracked' := (hround.step a ha.1 hs).tracked
    cases a with
    | arrive cid method requestId batch =>
      simp only [GroupRouting.step, World.arrive] at hs
      cases hj : w.routing.join w.count cid method requestId batch with
      | none => rw [hj] at hs; cases hs
      | some j =>
        obtain ⟨r, g, callback, isNew⟩ := j
        rw [hj] at hs
        obtain rfl := Option.some.inj hs
        exact u.arrive hsound hj ha.2 hsound' htracked'
    | markDone cid =>
      obtain ⟨r, hr, rfl⟩ := Option.map_eq_some_iff.mp hs
      exact u.markDone hr ha.2 hsound' htracked'
    | reset => exact ha.1.elim
    | reconfigure mapping active => exact ha.1.elim
    | _ => exact u.quiet hsound' hround.tracked hsound (quiet_step hs (by simp) (by simp) (by simp) (by simp))

/-- When all active clients wait, a group is ready if they wait for one server model and one method.
If every client waits for its answer before it goes on, only then. -/
theorem someReady_iff_oneKey {w : World β ρ} (h : Round Admissible w)
    (hne : w.routing.roundActiveClients ≠ []) (hwait : AllWaiting w) :
    (OneKey w → SomeReady w) ∧ (Round Orderly w → SomeReady w → OneKey w) :=
  ⟨someReady_of_oneKey h.reachable.sound h.tracked hne hwait,
    fun ho ↦ oneKey_of_someReady h.tracked ho.courteous⟩

/-- Two active clients that have sent a request each. -/
structure BothSent (w : World ℕ ℕ) : Prop where
  active : w.routing.roundActiveClients = ["a", "b"]
  first : w.request 0 = some ("a", "train_tail")
  second : w.request 1 = some ("b", "train_tail")
  others : ∀ n, w.request (n + 2) = none
  outcomes : w.outcomes = fun _ ↦ []

theorem BothSent.unanswered_iff {w : World ℕ ℕ} (h : BothSent w) {cid : Cid} {n : ℕ} :
    Unanswered w cid n ↔ cid = "a" ∧ n = 0 ∨ cid = "b" ∧ n = 1 := by
  rcases n with _ | _ | n
  · simpa [Unanswered, h.first, h.outcomes] using eq_comm
  · simpa [Unanswered, h.second, h.outcomes] using eq_comm
  · simp [Unanswered, h.others]

theorem BothSent.allWaiting {w : World ℕ ℕ} (h : BothSent w) : AllWaiting w := by
  intro cid hcid
  rw [h.active] at hcid
  simp only [List.mem_cons, List.not_mem_nil, or_false] at hcid
  rcases hcid with rfl | rfl
  · exact ⟨0, by simp [h.unanswered_iff], fun m hm ↦ by simpa [h.unanswered_iff] using hm⟩
  · exact ⟨1, by simp [h.unanswered_iff], fun m hm ↦ by simpa [h.unanswered_iff] using hm⟩

def clientMapping (sidA sidB : Sid) : Dict Cid Sid :=
  ((Dict.empty : Dict Cid Sid).insert "a" sidA).insert "b" sidB

def sendA : GroupRouting.Action ℕ ℕ := .arrive "a" "train_tail" "r0" 5

def sendB : GroupRouting.Action ℕ ℕ := .arrive "b" "train_tail" "r1" 7

/-- Both clients send, in rounds with different mappings of the clients to server models. -/
theorem bothSent_round {sidA sidB : Sid} {w₁ w₂ : World ℕ ℕ}
    (hs₁ : step (.start (.start true (clientMapping sidA sidB) ["a", "b"])) sendA = some w₁)
    (hs₂ : step w₁ sendB = some w₂) (hadm : Admissible w₁ sendB) : Round Admissible w₂ := by
  have hstart : Round Admissible (.start (.start true (clientMapping sidA sidB) ["a", "b"]) : World ℕ ℕ) :=
    .start _ _ (by decide)
  have hfirst : Admissible (.start (.start true (clientMapping sidA sidB) ["a", "b"])) sendA := by
    intro sid table _ hk
    cases hk
  exact (hstart.step _ hfirst hs₁).step _ hadm hs₂

/-- Two clients with a server model each wait for one another for good: both groups have one request,
and a group is ready with two. -/
theorem perClient_stuck : ¬∀ w : World ℕ ℕ, Round Admissible w → w.routing.roundActiveClients ≠ [] →
    AllWaiting w → SomeReady w := by
  intro hclaim
  obtain ⟨w₁, hs₁, w₂, hs₂, hadm, hboth, hpcs, hp0, hp1, hr0, hr1⟩ : ∃ w₁,
      step (.start (.start true (clientMapping "a" "b") ["a", "b"])) sendA = some w₁ ∧ ∃ w₂,
      step w₁ sendB = some w₂ ∧ Admissible w₁ sendB ∧ BothSent w₂ ∧
      (∀ n, (w₂.pcs (n + 2)).leads = none) ∧
      (w₂.pcs 0).leads = some (0, some ⟨0, "r0"⟩) ∧ (w₂.pcs 1).leads = some (1, some ⟨1, "r1"⟩) ∧
      (w₂.routing.groups 0).ready = false ∧ (w₂.routing.groups 1).ready = false := by
    refine ⟨_, rfl, _, rfl, fun sid table hs hk ↦ ?_, ⟨rfl, rfl, rfl, fun _ ↦ rfl, rfl⟩,
      fun _ ↦ rfl, rfl, rfl, rfl, rfl⟩
    cases hs
    cases hk
  obtain ⟨g, ⟨n, c, hn⟩, hready⟩ := hclaim w₂ (bothSent_round hs₁ hs₂ hadm) (by simp [hboth.active])
    hboth.allWaiting
  rcases n with _ | _ | n
  · rw [hp0] at hn
    cases hn
    exact absurd (hready.symm.trans hr0) (by decide)
  · rw [hp1] at hn
    cases hn
    exact absurd (hready.symm.trans hr1) (by decide)
  · rw [hpcs] at hn
    cases hn

theorem shared_someReady : ∃ w : World ℕ ℕ, Round Admissible w ∧
    w.routing.roundActiveClients = ["a", "b"] ∧ AllWaiting w ∧ SomeReady w := by
  obtain ⟨w₁, hs₁, w₂, hs₂, hadm, hboth, hmap⟩ : ∃ w₁,
      step (.start (.start true (clientMapping "" "") ["a", "b"])) sendA = some w₁ ∧ ∃ w₂,
      step w₁ sendB = some w₂ ∧ Admissible w₁ sendB ∧ BothSent w₂ ∧
      w₂.routing.cidToSidMapping = clientMapping "" "" := by
    refine ⟨_, rfl, _, rfl, fun sid table hs hk ↦ ?_, ⟨rfl, rfl, rfl, fun _ ↦ rfl, rfl⟩, rfl⟩
    cases hs
    cases hk
    rfl
  have hkey : ∀ cid n, Unanswered w₂ cid n → key w₂ n = some ("", "train_tail") := by
    intro cid n hn
    rcases hboth.unanswered_iff.mp hn with ⟨-, rfl⟩ | ⟨-, rfl⟩
    · rw [key, hboth.first, hmap]
      rfl
    · rw [key, hboth.second, hmap]
      rfl
  have hround := bothSent_round hs₁ hs₂ hadm
  refine ⟨w₂, hround, hboth.active, hboth.allWaiting,
    (someReady_iff_oneKey hround (by simp [hboth.active]) hboth.allWaiting).1 ?_⟩
  intro cid _ cid' _ n m hn hm
  rw [hkey cid n hn, hkey cid' m hm]

end SplitFleet.GroupProgress
