import Mathlib.Tactic.Linarith
import Mathlib.Tactic.Positivity
import SplitFleet.FedCompassCalls

set_option autoImplicit false

namespace SplitFleet.Compass

open Lib

variable {T : Type} {ops : Torch T}

/-! ### Deliveries -/

section Deliver

variable {s : FedCompass T} {loose : List String} {now : ℚ} {u : Update T} {gid : ℕ} {g : ArrivalGroup T}

theorem Placed.measured_pos (h : Placed loose now s) (hj : s.active.get? u.clientId = some u.assignment) (at' : ℚ) :
    0 < measured u.assignment at' := by
  have hlow := (h.job _ _ hj).low
  have hsteps : (0 : ℚ) < u.assignment.localSteps := by
    exact_mod_cast lt_of_lt_of_le one_pos (s.config.steps_valid.1.trans hlow)
  have htime : (0 : ℚ) < max (at' - u.assignment.started) (1 / 10 ^ 9) := lt_max_of_lt_right (by positivity)
  exact div_pos htime hsteps

/-- The new speed is an average of positive numbers. -/
theorem Placed.arrive_eq (h : Placed loose now s) (hj : s.active.get? u.clientId = some u.assignment) (now : ℚ) :
    ∃ v, 0 < v ∧ s.arrive u now = { s with
      active := s.active.erase u.clientId
      speeds := s.speeds.insert u.clientId v
      log := s.log ++ [.received u.serial u.clientId] } := by
  have hnew := h.measured_pos hj now
  have hold : 0 < (s.speeds.get? u.clientId).getD (measured u.assignment now) := by
    cases hs : s.speeds.get? u.clientId with
    | none => exact hnew
    | some v => exact h.speed_pos _ v hs
  obtain ⟨hm0, hm1⟩ := s.config.momentum_valid
  refine ⟨_, ?_, rfl⟩
  obtain hm | hm := hm0.eq_or_lt
  · rw [← hm]
    simpa using hold
  · exact add_pos_of_nonneg_of_pos (mul_nonneg (by linarith) hold.le) (mul_pos hm hnew)

theorem Placed.arrive (h : Placed loose now s) (hj : s.active.get? u.clientId = some u.assignment)
    (hg : u.assignment.groupId = none) : Placed (u.clientId :: loose) now (s.arrive u now) := by
  obtain ⟨v, hv, he⟩ := h.arrive_eq hj now
  rw [he]
  refine h.depart hj hv s.groups (fun k ↦ ?_) (fun k ↦ rfl) (fun k ↦ rfl) fun k g hk ↦ ⟨g, hk⟩
  refine (List.erase_of_not_mem fun hp ↦ ?_).symm
  obtain ⟨job, hjob, hk⟩ := (h.pending k u.clientId).mp hp
  rw [hj] at hjob
  cases hjob
  rw [hg] at hk
  cases hk

theorem Placed.leave (h : Placed loose now s) (hj : s.active.get? u.clientId = some u.assignment)
    (hg : u.assignment.groupId = some gid) (hgroup : s.groups.get? gid = some g) :
    Placed (u.clientId :: loose) now ((s.arrive u now).leave gid g u.clientId) := by
  obtain ⟨v, hv, he⟩ := h.arrive_eq hj now
  have hgat : s.groupAt gid = g := groupAt_of_some hgroup
  rw [FedCompass.leave, he]
  refine h.depart hj hv _ (fun k ↦ ?_) (fun k ↦ ?_) (fun k ↦ ?_) fun k g' hk ↦ ?_
  · rw [Dict.get?_insert]
    split_ifs with hk
    · rw [← hk, hgat]
      rfl
    · refine (List.erase_of_not_mem fun hp ↦ ?_).symm
      obtain ⟨job, hjob, hk'⟩ := (h.pending k u.clientId).mp hp
      rw [hj] at hjob
      cases hjob
      exact hk (Option.some.inj (hg.symm.trans hk'))
  · rw [Dict.get?_insert]
    split_ifs with hk
    · rw [← hk, hgat]
      rfl
    · rfl
  · rw [Dict.get?_insert]
    split_ifs with hk
    · rw [← hk, hgat]
      rfl
    · rfl
  · rw [Dict.get?_insert] at hk
    split_ifs at hk with he
    · exact ⟨g, he ▸ hgroup⟩
    · exact ⟨g', hk⟩

theorem Placed.waits (h : Placed loose now s) (hj : s.active.get? u.clientId = some u.assignment)
    (hg : u.assignment.groupId = some gid) (hgroup : s.groups.get? gid = some g) (ho : g.closed = false) :
    Placed loose now ((s.arrive u now).wait gid g u) := by
  have hspeed : ∃ v, ((s.arrive u now).leave gid g u.clientId).speeds.get? u.clientId = some v :=
    ⟨_, by rw [FedCompass.leave, FedCompass.arrive, Dict.get?_insert, if_pos rfl]⟩
  have hleft : ((s.arrive u now).leave gid g u.clientId).groups.get? gid =
      some { g with pending := g.pending.erase u.clientId } := by
    rw [FedCompass.leave, Dict.get?_insert, if_pos rfl]
  refine ((h.leave hj hg hgroup).wait rfl hleft ho hspeed).of_same
    ⟨rfl, rfl, fun _ ↦ rfl, fun _ ↦ rfl, fun k ↦ ?_, rfl, le_rfl⟩
  change ((s.groups.insert gid _).get? k) = (((s.groups.insert gid _).insert gid _).get? k)
  rw [Dict.get?_insert, Dict.get?_insert, Dict.get?_insert]
  split_ifs <;> rfl

end Deliver

/-! ### The calls -/

section Calls

variable {s : FedCompass T} {loose : List String} {now : ℚ} {u : Update T} {gid : ℕ} {g : ArrivalGroup T}

/-- An update that passed the checks at the head of `receive`. -/
theorem Good.mergeable (h : Good loose now s) (hv : validate ops s u now = .ok ()) :
    s.active.get? u.clientId = some u.assignment ∧ Mergeable s u := by
  obtain ⟨_, hj, hv⟩ := bind_eq_ok hv
  obtain ⟨hj, -⟩ := of_require hj
  obtain ⟨_, hbase, htrained⟩ := bind_eq_ok hv
  have hjob := h.placed.job _ _ hj
  refine ⟨hj, hjob.known, fun n ↦ (keys_of_checkState hbase n).mpr, fun n ↦ (keys_of_checkState htrained n).mpr,
    hjob.version⟩

theorem bufferLate_frame (s : FedCompass T) (u : Update T) : ∃ receipts log, s.log <+: log ∧
    s.bufferLate u = { s with buffer := s.buffer.insert u.clientId u, receipts := receipts, log := log } := by
  simp only [FedCompass.bufferLate]
  cases s.buffer.get? u.clientId with
  | none => exact ⟨_, s.log, List.prefix_rfl, rfl⟩
  | some old => exact ⟨_, _, List.prefix_append _ _, rfl⟩

theorem late_yields (h : Good (u.clientId :: loose) now s) (hu : Mergeable s u) {v : ℚ}
    (hv : s.speeds.get? u.clientId = some v) (hver : s.version ≠ 0) :
    Method.Yields CheckError (late u now) s fun _ t ↦ Settled loose now s t := by
  refine .modify_bind ?_
  obtain ⟨receipts, log, hlog, he⟩ := bufferLate_frame s u
  rw [he]
  have hgood : Good (u.clientId :: loose) now
      { s with buffer := s.buffer.insert u.clientId u, receipts := receipts, log := log } := by
    refine h.of_same (.of_eq rfl rfl rfl rfl rfl rfl le_rfl) rfl (fun n ↦ Iff.rfl) fun w hw ↦ ?_
    obtain ⟨k, hk⟩ := (s.buffer.insert u.clientId u).mem_values_iff.mp hw
    rw [Dict.get?_insert] at hk
    split_ifs at hk
    · cases hk
      exact hu
    · exact h.buffered w (s.buffer.mem_values_iff.mpr ⟨k, hk⟩)
  refine (assign_yields hgood hv hver).bind fun job t ht ↦ .pure ?_
  exact ht.2.settled (ht.1.log ▸ hlog)

theorem Good.leave (h : Good loose now s) (hj : s.active.get? u.clientId = some u.assignment)
    (hg : u.assignment.groupId = some gid) (hgroup : s.groups.get? gid = some g)
    (hlate : g.closed = true ∨ g.deadline < now) :
    Good (u.clientId :: loose) now ((s.arrive u now).leave gid g u.clientId) where
  placed := h.placed.leave hj hg hgroup
  alive := h.alive.insert (t := (s.arrive u now).leave gid g u.clientId)
    (g := { g with pending := g.pending.erase u.clientId }) rfl fun ho _ ↦
      hlate.resolve_left (by simp [show g.closed = false from ho])
  names := h.names
  buffered w hw := (h.buffered w hw).of_same rfl (fun n ↦ Iff.rfl) le_rfl
  arrived k w hw := by
    rw [groupAt_insert (s := s) gid { g with pending := g.pending.erase u.clientId } rfl] at hw
    split_ifs at hw with hk
    · refine (h.arrived gid w ?_).of_same rfl (fun n ↦ Iff.rfl) le_rfl
      exact groupAt_of_some hgroup ▸ hw
    · exact (h.arrived k w hw).of_same rfl (fun n ↦ Iff.rfl) le_rfl

theorem Good.waits (h : Good loose now s) (hj : s.active.get? u.clientId = some u.assignment) (hu : Mergeable s u)
    (hg : u.assignment.groupId = some gid) (hgroup : s.groups.get? gid = some g) (ho : g.closed = false) :
    Good loose now ((s.arrive u now).wait gid g u) where
  placed := h.placed.waits hj hg hgroup ho
  alive := by
    refine h.alive.insert (t := (s.arrive u now).wait gid g u)
      (g := { g with pending := g.pending.erase u.clientId, arrived := g.arrived ++ [u] }) rfl fun _ hm ↦ ?_
    rw [ArrivalGroup.members, List.map_append] at hm
    simp at hm
  names := h.names
  buffered w hw := (h.buffered w hw).of_same rfl (fun n ↦ Iff.rfl) le_rfl
  arrived k w hw := by
    rw [groupAt_insert (s := s) gid
      { g with pending := g.pending.erase u.clientId, arrived := g.arrived ++ [u] } rfl] at hw
    split_ifs at hw with hk
    · obtain hw | hw := List.mem_append.mp hw
      · refine (h.arrived gid w ?_).of_same rfl (fun n ↦ Iff.rfl) le_rfl
        exact groupAt_of_some hgroup ▸ hw
      · rw [List.mem_singleton.mp hw]
        exact hu.of_same rfl (fun n ↦ Iff.rfl) le_rfl
    · exact (h.arrived k w hw).of_same rfl (fun n ↦ Iff.rfl) le_rfl

theorem arrived_log (s : FedCompass T) (u : Update T) (now : ℚ) : s.log <+: (s.arrive u now).log :=
  List.prefix_append _ _

theorem speed_arrive (s : FedCompass T) (u : Update T) (now : ℚ) :
    ∃ v, (s.arrive u now).speeds.get? u.clientId = some v :=
  ⟨_, by rw [FedCompass.arrive, Dict.get?_insert, if_pos rfl]⟩

theorem arriveInGroup_yields (h : Good loose now s) (hj : s.active.get? u.clientId = some u.assignment)
    (hu : Mergeable s u) (hg : u.assignment.groupId = some gid) (hgroup : s.groups.get? gid = some g) :
    Method.Yields CheckError (arriveInGroup ops u gid g now) (s.arrive u now) fun _ t ↦ Settled loose now s t := by
  have hver : s.version ≠ 0 := fun hz ↦ by
    rw [h.placed.early hz gid] at hgroup
    cases hgroup
  have hpending : u.clientId ∈ g.pending :=
    groupAt_of_some hgroup ▸ (h.placed.pending gid u.clientId).mpr ⟨_, hj, hg⟩
  rw [arriveInGroup]
  by_cases hlate : g.closed ∨ g.deadline < now
  · rw [if_pos hlate]
    refine .modify_bind ?_
    obtain ⟨v, hv⟩ := speed_arrive s u now
    refine (late_yields (h.leave hj hg hgroup hlate) (hu.of_same rfl (fun n ↦ Iff.rfl) le_rfl) hv hver).mono ?_
    exact fun jobs t ht ↦ ht.of_prefix (arrived_log s u now)
  · rw [if_neg hlate, if_neg (not_not.mpr hpending)]
    refine .modify_bind ?_
    have ho : g.closed = false := by simpa using (not_or.mp hlate).1
    have hgood := h.waits hj hu hg hgroup ho
    have hget : ((s.arrive u now).wait gid g u).groups.get? gid =
        some { g with pending := g.pending.erase u.clientId, arrived := g.arrived ++ [u] } :=
      (Dict.get?_insert ..).trans (if_pos rfl)
    split_ifs
    · exact (close_yields hgood hget).mono fun jobs t ht ↦ ht.of_prefix (arrived_log s u now)
    · exact .pure (hgood.settled (arrived_log s u now))

theorem Good.arrive (h : Good loose now s) (hj : s.active.get? u.clientId = some u.assignment)
    (hg : u.assignment.groupId = none) : Good (u.clientId :: loose) now (s.arrive u now) where
  placed := h.placed.arrive hj hg
  alive := h.alive
  names := h.names
  buffered w hw := (h.buffered w hw).of_same rfl (fun _ ↦ Iff.rfl) le_rfl
  arrived k w hw := (h.arrived k w hw).of_same rfl (fun _ ↦ Iff.rfl) le_rfl

/-- A delivery that passed its checks: the client has an assignment again or waits in its group. -/
theorem accept_yields (h : Good loose now s) (hj : s.active.get? u.clientId = some u.assignment)
    (hu : Mergeable s u) : Method.Yields CheckError (accept ops u now) s fun _ t ↦ Settled loose now s t := by
  refine .modify_bind ?_
  cases hg : u.assignment.groupId with
  | none =>
    dsimp only
    have hu' : ∀ w ∈ [u], Mergeable (s.arrive u now) w := by
      rw [List.forall_mem_singleton]
      exact hu.of_same rfl (fun _ ↦ Iff.rfl) le_rfl
    refine (aggregate_yields (h.arrive hj hg) hu' none).bind fun b t ht ↦ ?_
    obtain ⟨hlog, ht, hspeeds, hcommit, hstop⟩ := ht
    obtain ⟨v, hv⟩ := speed_arrive s u now
    cases b with
    | true =>
      rw [if_pos rfl]
      refine (assign_yields ht (hspeeds ▸ hv) (hcommit rfl)).bind fun job r hr ↦ ?_
      exact .pure (hr.2.settled (hr.1.log ▸ (arrived_log s u now).trans hlog))
    | false => exact .pure ⟨(arrived_log s u now).trans hlog, _, ht, .inr (hstop rfl)⟩
  | some gid =>
    obtain ⟨g, hgroup, -⟩ := h.placed.group_of_job hj hg
    have hgroup' : (s.arrive u now).groups.get? gid = some g := hgroup
    refine .get_bind ?_
    rw [hgroup']
    exact arriveInGroup_yields h hj hu hg hgroup

theorem closeDue_yields (h : Good loose now s) (gid : ℕ) :
    Method.Yields CheckError (closeDue ops gid now) s fun _ t ↦ Settled loose now s t := by
  refine .get_bind ?_
  cases hg : s.groups.get? gid with
  | none => exact .pure (h.settled List.prefix_rfl)
  | some g =>
    dsimp only
    split_ifs
    · exact close_yields h hg
    · exact .pure (h.settled List.prefix_rfl)

theorem overBudget_yields (h : Good loose now s) :
    Method.Yields CheckError overBudget s fun _ t ↦ s.log = t.log ∧ Good loose now t := by
  refine .get_bind ?_
  split
  · refine .get_bind (.modify_bind ?_)
    refine .pure ?_
    refine ⟨rfl, ?_⟩
    exact h.of_same (.of_eq rfl rfl rfl rfl rfl rfl le_rfl) rfl (fun n ↦ Iff.rfl) h.buffered
  · exact .pure ⟨rfl, h⟩

theorem Alive.popDone (h : Alive now s) (gid : ℕ) : Alive now (s.popDone gid) := by
  rw [FedCompass.popDone]
  split
  · split_ifs
    · intro k ho hm
      rw [FedCompass.groupAt] at ho hm ⊢
      rw [Dict.get?_erase] at ho hm ⊢
      split_ifs at ho hm ⊢
      · cases ho
      · exact h k ho hm
    · exact h
  · exact h

theorem popDone_frame (s : FedCompass T) (gid : ℕ) :
    ∃ groups, s.popDone gid = { s with groups := groups } ∧
      ∀ k g, groups.get? k = some g → s.groups.get? k = some g := by
  rw [FedCompass.popDone]
  split
  · split_ifs
    · refine ⟨_, rfl, fun k g hk ↦ ?_⟩
      rw [Dict.get?_erase] at hk
      split_ifs at hk
      exact hk
    · exact ⟨s.groups, rfl, fun k g ↦ id⟩
  · exact ⟨s.groups, rfl, fun k g ↦ id⟩

theorem Good.popDone (h : Good loose now s) (gid : ℕ) : Good loose now (s.popDone gid) := by
  refine ⟨h.placed.popDone gid, h.alive.popDone gid, ?_, ?_, ?_⟩ <;>
    obtain ⟨groups, he, hsub⟩ := popDone_frame s gid <;> rw [he]
  · exact h.names
  · exact fun w hw ↦ (h.buffered w hw).of_same rfl (fun n ↦ Iff.rfl) le_rfl
  · intro k w hw
    rw [FedCompass.groupAt] at hw
    cases hk : groups.get? k with
    | none =>
      rw [hk] at hw
      cases hw
    | some g =>
      rw [hk] at hw
      refine (h.arrived k w ?_).of_same rfl (fun n ↦ Iff.rfl) le_rfl
      exact groupAt_of_some (hsub k g hk) ▸ hw

theorem popDone_log (s : FedCompass T) (gid : ℕ) : (s.popDone gid).log = s.log := by
  obtain ⟨groups, he, -⟩ := popDone_frame s gid
  rw [he]

theorem expireGroups_yields (h : Good loose now s) (maxVersion : Option ℕ) (gids : List ℕ) :
    Method.Yields CheckError (expireGroups ops now maxVersion gids) s fun _ t ↦ Settled loose now s t := by
  induction gids generalizing s loose with
  | nil => exact .pure (h.settled List.prefix_rfl)
  | cons gid gids ih =>
    refine (overBudget_yields h).bind fun spent t ht ↦ ?_
    split_ifs
    · exact .pure (ht.2.settled (ht.1 ▸ List.prefix_rfl))
    · refine .get_bind ?_
      split_ifs
      · exact .pure (ht.2.settled (ht.1 ▸ List.prefix_rfl))
      · refine (closeDue_yields ht.2 gid).bind fun released r hr ↦ .modify_bind ?_
        obtain ⟨hlog, loose', hr, hwhere⟩ := hr
        refine (ih (hr.popDone gid)).bind fun rest w hw ↦ .pure ?_
        rw [Settled, popDone_log] at hw
        obtain ⟨hlog', loose'', hw, hwhere'⟩ := hw
        refine ⟨ht.1 ▸ hlog.trans hlog', loose'', hw, ?_⟩
        obtain rfl | ha := hwhere'
        · exact hwhere.imp_right fun ha ↦ ha.mono hlog'
        · exact .inr ha

end Calls

/-! ### Runs -/

/-- A call that the server makes, with its time. -/
inductive Event (T : Type)
  | start (now : ℚ)
  | receive (u : Update T) (now : ℚ)
  | expire (maxVersion : Option ℕ) (now : ℚ)
  | dispatch (cid : String) (now : ℚ)
  | stop (now : ℚ)

def Event.time : Event T → ℚ
  | .start now => now
  | .receive _ now => now
  | .expire _ now => now
  | .dispatch _ now => now
  | .stop now => now

def perform (ops : Torch T) : Event T → Method (FedCompass T) (List Assignment)
  | .start now => initializeJobs now
  | .receive u now => receive ops u now
  | .expire maxVersion now => expire ops now maxVersion
  | .dispatch cid now => do
    modify (dispatch · cid now)
    return []
  | .stop _ => do
    modify stop
    return []

/-- The checks at the head of a call, before it changes anything. -/
def headChecks (ops : Torch T) (s : FedCompass T) : Event T → Except PyError Unit
  | .start _ => require (s.active.size = 0 ∧ s.version = 0) (.runtimeError "FedCompass can only initialize once")
  | .receive u now => validate ops s u now
  | _ => .ok ()

/-- The call raises after the checks at its head. -/
def Fails (ops : Torch T) (s : FedCompass T) (e : Event T) : Prop :=
  headChecks ops s e = .ok () ∧ ∃ err t, (perform ops e).run s = .error err t

/-- The controller with the time of the last event. Where a call raises, what it changed before stays. -/
def next (ops : Torch T) (p : FedCompass T × ℚ) (e : Event T) : Option (FedCompass T × ℚ) :=
  some ((perform ops e).after p.1, e.time)

def Timely (p : FedCompass T × ℚ) (e : Event T) : Prop := p.2 ≤ e.time

def Undisturbed (ops : Torch T) (p : FedCompass T × ℚ) (e : Event T) : Prop := p.2 ≤ e.time ∧ ¬ Fails ops p.1 e

def Stopped (s : FedCompass T) : Prop := ∃ serials, .stopped serials ∈ s.log

def InFlight (s : FedCompass T) (c : String) : Prop := ∃ job, s.active.get? c = some job

def WaitsIn (s : FedCompass T) (gid : ℕ) (c : String) : Prop :=
  ∃ g, s.groups.get? gid = some g ∧ g.closed = false ∧ c ∈ g.arrived.map (·.clientId)

structure Scheduled (now : ℚ) (s : FedCompass T) : Prop where
  place : ∀ c ∈ s.partitionSizes.keys,
    InFlight s c ∧ (∀ gid, ¬ WaitsIn s gid c) ∨ ¬ InFlight s c ∧ ∃! gid, WaitsIn s gid c
  entry : ∀ c job, s.active.get? c = some job → job.clientId = c ∧ c ∈ s.partitionSizes.keys
  arrived : ∀ gid g, s.groups.get? gid = some g → (g.arrived.map (·.clientId)).Nodup ∧ (g.closed = true → g.arrived = [])
  awaited : ∀ c job gid g, s.active.get? c = some job → job.groupId = some gid → s.groups.get? gid = some g → c ∈ g.pending
  pending : ∀ gid g c, s.groups.get? gid = some g → c ∈ g.pending →
    (∃ job, s.active.get? c = some job ∧ job.groupId = some gid) ∧ ∀ gid', ¬ WaitsIn s gid' c
  pending_nodup : ∀ gid g, s.groups.get? gid = some g → g.pending.Nodup
  steps : ∀ c job, s.active.get? c = some job →
    s.config.minLocalSteps ≤ job.localSteps ∧ job.localSteps ≤ s.config.maxLocalSteps
  started : ∀ c job, s.active.get? c = some job → job.started ≤ now
  version : ∀ c job, s.active.get? c = some job → job.modelVersion ≤ s.version
  speeds : ∀ c v, s.speeds.get? c = some v → 0 < v

section Runs

variable {s : FedCompass T} {loose : List String} {now : ℚ}

theorem Placed.scheduled (h : Placed [] now s) : Scheduled now s := by
  have hfree : ∀ c, InFlight s c → ∀ gid, ¬ WaitsIn s gid c := by
    intro c ⟨job, hj⟩ gid ⟨g, hg, _, hc⟩
    obtain ⟨u, hu, rfl⟩ := List.mem_map.mp hc
    have hnone := h.arrived_active gid u (groupAt_of_some hg ▸ hu)
    rw [hj] at hnone
    cases hnone
  refine
    { place := fun c hc ↦ ?_
      entry := fun c job hj ↦ ⟨(h.job c job hj).client, (h.job c job hj).known⟩
      arrived := fun gid g hg ↦ groupAt_of_some hg ▸ ⟨h.arrived_nodup gid, h.closed gid⟩
      awaited := fun c job gid g hj hgid hg ↦ groupAt_of_some hg ▸ (h.pending gid c).mpr ⟨job, hj, hgid⟩
      pending := fun gid g c hg hc ↦ ?_
      pending_nodup := fun gid g hg ↦ groupAt_of_some hg ▸ h.pending_nodup gid
      steps := fun c job hj ↦ ⟨(h.job c job hj).low, (h.job c job hj).high⟩
      started := fun c job hj ↦ (h.job c job hj).started
      version := fun c job hj ↦ (h.job c job hj).version
      speeds := h.speed_pos }
  · obtain hl | hj | ⟨gid, u, hu, rfl⟩ := h.everyone c hc
    · cases hl
    · exact .inl ⟨hj, hfree c hj⟩
    · have hnone := h.arrived_active gid u hu
      have hclosed : (s.groupAt gid).closed = false := by
        by_contra hne
        rw [h.closed gid (by simpa using hne)] at hu
        cases hu
      refine .inr ⟨fun ⟨job, hj⟩ ↦ ?_, gid, ?_, ?_⟩
      · rw [hj] at hnone
        cases hnone
      · exact ⟨_, exists_group_of_open hclosed, hclosed, List.mem_map_of_mem hu⟩
      · rintro gid' ⟨g, hg, _, hc'⟩
        obtain ⟨u', hu', he⟩ := List.mem_map.mp hc'
        exact h.arrived_once gid' gid u' (groupAt_of_some hg ▸ hu') u hu he
  · obtain ⟨job, hj, hgid⟩ := (h.pending gid c).mp (groupAt_of_some hg ▸ hc)
    exact ⟨⟨job, hj, hgid⟩, hfree c ⟨job, hj⟩⟩

theorem groupAt_empty (h : s.groups = Dict.empty) (gid : ℕ) : s.groupAt gid = vacant := by
  rw [FedCompass.groupAt, h]
  rfl

/-- Nobody is in flight and there are no groups. -/
theorem placed_idle (ha : s.active = Dict.empty) (hg : s.groups = Dict.empty)
    (hv : ∀ c v, s.speeds.get? c = some v → 0 < v) : Placed s.partitionSizes.keys now s where
  speed_pos := hv
  loose_nodup := s.partitionSizes.nodup
  loose_known _ := id
  loose_active c _ := by rw [ha, Dict.get?_empty]
  job c job hj := by
    rw [ha] at hj
    cases hj
  pending gid c := by
    rw [groupAt_empty hg, ha]
    constructor
    · intro hc
      cases hc
    · intro ⟨job, hj, _⟩
      cases hj
  pending_nodup gid := groupAt_empty hg gid ▸ List.nodup_nil
  arrived_known gid u hu := by
    rw [groupAt_empty hg] at hu
    cases hu
  arrived_active gid u hu := by
    rw [groupAt_empty hg] at hu
    cases hu
  arrived_loose gid u hu := by
    rw [groupAt_empty hg] at hu
    cases hu
  arrived_speed gid u hu := by
    rw [groupAt_empty hg] at hu
    cases hu
  arrived_nodup gid := groupAt_empty hg gid ▸ List.nodup_nil
  arrived_once gid _ u hu := by
    rw [groupAt_empty hg] at hu
    cases hu
  closed gid _ := groupAt_empty hg gid ▸ rfl
  everyone _ hc := .inl hc
  fresh gid g h := by
    rw [hg] at h
    cases h
  early _ gid := by rw [hg, Dict.get?_empty]

theorem good_idle (ha : s.active = Dict.empty) (hg : s.groups = Dict.empty) (hb : s.buffer = Dict.empty)
    (hv : ∀ c v, s.speeds.get? c = some v → 0 < v) (hn : ∀ n ∈ s.parameterNames, n ∈ s.model.keys) :
    Good s.partitionSizes.keys now s where
  placed := placed_idle ha hg hv
  alive gid ho := by
    rw [groupAt_empty hg] at ho
    cases ho
  names := hn
  buffered u hu := by
    rw [hb] at hu
    cases hu
  arrived gid u hu := by
    rw [groupAt_empty hg] at hu
    cases hu

theorem mem_initialJobs {job : Assignment} (h : job ∈ initialJobs s now) :
    job.clientId ∈ s.partitionSizes.keys ∧ job.localSteps = s.config.maxLocalSteps ∧ job.modelVersion = 0 ∧
      job.groupId = none ∧ job.started = now := by
  obtain ⟨i, hi, rfl⟩ := List.mem_mapIdx.mp h
  exact ⟨List.getElem_mem hi, rfl, rfl, rfl, rfl⟩

theorem initialJobs_clients (s : FedCompass T) (now : ℚ) :
    (initialJobs s now).map (·.clientId) = s.partitionSizes.keys := by
  refine List.ext_getElem (by simp [initialJobs]) fun i hi hi' ↦ ?_
  rw [List.getElem_map]
  simp only [initialJobs, List.getElem_mapIdx]

/-- The first assignments, one for each client. -/
theorem Good.start (h : Good loose now s) (hv : s.version = 0) (ha : s.active.size = 0) (n : ℕ) :
    Good [] now { s with
      active := Dict.ofList ((initialJobs s now).map fun job : Assignment ↦ (job.clientId, job))
      serials := n } := by
  have hvacant : ∀ gid, s.groupAt gid = vacant := fun gid ↦ groupAt_of_none (h.placed.early hv gid)
  have hnone : ∀ c, s.active.get? c = none := fun c ↦ by
    rw [Dict.get?, List.length_eq_zero_iff.mp ha]
    rfl
  have hjobs : ∀ c job, (Dict.ofList ((initialJobs s now).map fun job : Assignment ↦ (job.clientId, job))).get? c =
      some job → job ∈ initialJobs s now ∧ job.clientId = c := by
    intro c job hj
    obtain ⟨job', hj', he⟩ := List.mem_map.mp (Dict.mem_of_get?_ofList hj)
    cases he
    exact ⟨hj', rfl⟩
  have hclients : (((initialJobs s now).map fun job : Assignment ↦ (job.clientId, job)).map Prod.fst) =
      s.partitionSizes.keys := by
    rw [List.map_map]
    exact initialJobs_clients s now
  refine ⟨?_, h.alive, h.names, fun u hu ↦ (h.buffered u hu).of_same rfl (fun _ ↦ Iff.rfl) le_rfl,
    fun gid u hu ↦ (h.arrived gid u hu).of_same rfl (fun _ ↦ Iff.rfl) le_rfl⟩
  refine
    { speed_pos := h.placed.speed_pos
      loose_nodup := List.nodup_nil
      loose_known := fun c hc ↦ by cases hc
      loose_active := fun c hc ↦ by cases hc
      job := fun c job hj ↦ ?_
      pending := fun gid c ↦ ?_
      pending_nodup := h.placed.pending_nodup
      arrived_known := h.placed.arrived_known
      arrived_active := fun gid u hu ↦ ?_
      arrived_loose := fun gid u hu hl ↦ by cases hl
      arrived_speed := h.placed.arrived_speed
      arrived_nodup := h.placed.arrived_nodup
      arrived_once := h.placed.arrived_once
      closed := h.placed.closed
      everyone := fun c hc ↦ ?_
      fresh := h.placed.fresh
      early := h.placed.early }
  · obtain ⟨hm, rfl⟩ := hjobs c job hj
    obtain ⟨hc, hsteps, hver, hgid, hstarted⟩ := mem_initialJobs hm
    refine ⟨rfl, hc, ?_, ?_, hstarted.le, hver.le.trans (Nat.zero_le _), fun gid hg ↦ ?_⟩
    · exact hsteps ▸ s.config.steps_valid.2
    · exact hsteps.le
    · rw [hgid] at hg
      cases hg
  · change c ∈ (s.groupAt gid).pending ↔ _
    rw [hvacant]
    constructor
    · intro hc
      cases hc
    · rintro ⟨job, hj, hg⟩
      rw [(mem_initialJobs (hjobs c job hj).1).2.2.2.1] at hg
      cases hg
  · change u ∈ (s.groupAt gid).arrived at hu
    rw [hvacant] at hu
    cases hu
  · refine .inr (.inl ((Dict.mem_keys_iff _).mp ?_))
    rw [Dict.keys, Dict.entries_ofList (hclients ▸ s.partitionSizes.nodup), hclients]
    exact hc

theorem Good.dispatch (h : Good loose now s) (cid : String) : Good loose now (dispatch s cid now) := by
  rw [Compass.dispatch]
  cases hj : s.active.get? cid with
  | none => exact h
  | some job =>
    dsimp only
    have hjob := h.placed.job cid job hj
    have hnone : ∀ c, (s.active.insert cid { job with modelVersion := s.version, started := now }).get? c = none ↔
        s.active.get? c = none := by
      intro c
      rw [Dict.get?_insert]
      split_ifs with he
      · rw [← he, hj]
        simp
      · rfl
    refine ⟨?_, h.alive, h.names, fun u hu ↦ (h.buffered u hu).of_same rfl (fun _ ↦ Iff.rfl) le_rfl,
      fun gid u hu ↦ (h.arrived gid u hu).of_same rfl (fun _ ↦ Iff.rfl) le_rfl⟩
    refine
      { speed_pos := h.placed.speed_pos
        loose_nodup := h.placed.loose_nodup
        loose_known := h.placed.loose_known
        loose_active := fun c hc ↦ (hnone c).mpr (h.placed.loose_active c hc)
        job := fun c job' hc ↦ ?_
        pending := fun gid c ↦ (h.placed.pending gid c).trans ?_
        pending_nodup := h.placed.pending_nodup
        arrived_known := h.placed.arrived_known
        arrived_active := fun gid u hu ↦ (hnone u.clientId).mpr (h.placed.arrived_active gid u hu)
        arrived_loose := h.placed.arrived_loose
        arrived_speed := h.placed.arrived_speed
        arrived_nodup := h.placed.arrived_nodup
        arrived_once := h.placed.arrived_once
        closed := h.placed.closed
        everyone := fun c hc ↦ (h.placed.everyone c hc).imp_right (.imp_left fun hjob ↦ ?_)
        fresh := h.placed.fresh
        early := h.placed.early }
    · dsimp only at hc
      rw [Dict.get?_insert] at hc
      split_ifs at hc with he
      · cases hc
        exact he ▸ ⟨hjob.client, hjob.known, hjob.low, hjob.high, le_rfl, le_rfl, hjob.speed⟩
      · have hj' := h.placed.job c job' hc
        exact ⟨hj'.client, hj'.known, hj'.low, hj'.high, hj'.started, hj'.version, hj'.speed⟩
    · dsimp only
      rw [Dict.get?_insert]
      split_ifs with he
      · rw [← he, hj]
        simp
      · rfl
    · obtain ⟨job', hj'⟩ := hjob
      cases hn : (s.active.insert cid { job with modelVersion := s.version, started := now }).get? c with
      | none =>
        rw [(hnone c).mp hn] at hj'
        cases hj'
      | some job'' => exact ⟨job'', rfl⟩

theorem Good.stop (h : Good loose now s) : Good s.partitionSizes.keys now (stop s) :=
  good_idle (s := Compass.stop s) rfl rfl rfl h.placed.speed_pos h.names

/-- What holds between two calls. -/
def Invariant (start : FedCompass T) (p : FedCompass T × ℚ) : Prop :=
  ∃ loose, Good loose p.2 p.1 ∧ (loose = [] ∨ Aborted p.1 ∨ Stopped p.1 ∨ p.1 = start)

theorem Stopped.mono {t : FedCompass T} (h : Stopped s) (hl : s.log <+: t.log) : Stopped t :=
  h.imp fun _ hs ↦ hl.subset hs

/-- A controller that was never started. -/
structure Fresh (s : FedCompass T) : Prop where
  active : s.active = Dict.empty
  groups : s.groups = Dict.empty

theorem Fresh.validate_fails (h : Fresh s) (u : Update T) : validate ops s u now ≠ .ok () := by
  intro hv
  obtain ⟨_, hj, -⟩ := bind_eq_ok hv
  have hnone := (of_require hj).1
  rw [h.active] at hnone
  cases hnone

theorem receive_of_error {u : Update T} {e : PyError} (h : validate ops s u now = .error e) :
    (receive ops u now).run s = .error e s := by
  rw [receive, Method.get_bind_run, h]
  rfl

theorem receive_of_ok {u : Update T} (h : validate ops s u now = .ok ()) :
    (receive ops u now).run s = (accept ops u now).run s := by
  rw [receive, Method.get_bind_run, h, Method.ok_bind_run]

/-- A call leaves the controller in order; where it raises after its first checks, `_check_state` raised. -/
theorem perform_yields {start : FedCompass T} (hstart : Fresh start) {p : FedCompass T × ℚ} (h : Invariant start p)
    {e : Event T} (ht : p.2 ≤ e.time) (hh : headChecks ops p.1 e = .ok ()) :
    Method.Yields CheckError (perform ops e) p.1 fun _ t ↦ Invariant start (t, e.time) := by
  obtain ⟨loose, hgood, hwhere⟩ := h
  have hgood := hgood.later ht
  have hsettled : ∀ t, p.1 ≠ start → Settled loose e.time p.1 t → Invariant start (t, e.time) := by
    intro t hne ⟨hlog, loose', ht, hloose⟩
    refine ⟨loose', ht, ?_⟩
    obtain rfl | ha := hloose
    · obtain hnil | ha | hs | he := hwhere
      · exact .inl hnil
      · exact .inr (.inl (ha.mono hlog))
      · exact .inr (.inr (.inl (hs.mono hlog)))
      · exact absurd he hne
    · exact .inr (.inl ha)
  cases e with
  | start now =>
    obtain ⟨ha, hv⟩ := of_require hh
    refine .get_bind ?_
    rw [if_neg (by simp [ha, hv])]
    exact .of_run rfl ⟨[], hgood.start hv ha _, .inl rfl⟩
  | receive u now =>
    have hne : p.1 ≠ start := by
      rintro he
      exact (he ▸ hstart).validate_fails u hh
    obtain ⟨hj, hu⟩ := hgood.mergeable hh
    refine .congr (receive_of_ok hh) ?_
    exact (accept_yields hgood hj hu).mono fun jobs t hs ↦ hsettled t hne hs
  | expire maxVersion now =>
    by_cases he : p.1 = start
    · refine .of_run (t := p.1) (a := []) ?_ ⟨loose, hgood, hwhere⟩
      rw [he, perform, expire, Method.get_bind_run, hstart.groups]
      rfl
    · exact (expireGroups_yields hgood maxVersion p.1.groups.keys).mono fun jobs t hs ↦ hsettled t he hs
  | dispatch cid now =>
    refine .modify_bind (.pure ⟨loose, hgood.dispatch cid, ?_⟩)
    dsimp only
    obtain hnil | ha | hs | he := hwhere
    · exact .inl hnil
    · refine .inr (.inl (ha.mono ?_))
      rw [dispatch]
      split <;> exact List.prefix_rfl
    · refine .inr (.inr (.inl (hs.mono ?_)))
      rw [dispatch]
      split <;> exact List.prefix_rfl
    · refine .inr (.inr (.inr ?_))
      rw [dispatch, he, hstart.active]
      rfl
  | stop now =>
    refine .modify_bind (.pure ⟨_, hgood.stop, .inr (.inr (.inl ?_))⟩)
    exact ⟨(p.1.buffer.values ++ p.1.waiting).map (·.serial), List.mem_append_right _ List.mem_cons_self⟩

theorem headChecks_of_error {e : Event T} {err : PyError} (h : headChecks ops s e = .error err) :
    (perform ops e).run s = .error err s := by
  cases e with
  | start now =>
    rw [headChecks, require] at h
    split_ifs at h with hc
    cases h
    rw [perform, initializeJobs, Method.get_bind_run, if_pos (by tauto)]
    rfl
  | receive u now => exact receive_of_error h
  | expire maxVersion now => cases h
  | dispatch cid now => cases h
  | stop now => cases h

theorem next_invariant {start : FedCompass T} (hstart : Fresh start) {p q : FedCompass T × ℚ} (h : Invariant start p)
    {e : Event T} (ha : Undisturbed ops p e) (hq : next ops p e = some q) : Invariant start q := by
  cases hq
  obtain ⟨ht, hf⟩ := ha
  cases hh : headChecks ops p.1 e with
  | error err =>
    obtain ⟨loose, hgood, hwhere⟩ := h
    have hafter : (perform ops e).after p.1 = p.1 := by rw [Method.after, headChecks_of_error hh]
    rw [hafter]
    exact ⟨loose, hgood.later ht, hwhere⟩
  | ok _ =>
    have hy := perform_yields hstart h ht hh
    rw [Method.after]
    cases hrun : (perform ops e).run p.1 with
    | ok jobs t => exact hy.of_ok hrun
    | error err t => exact absurd ⟨hh, err, t, hrun⟩ hf

/-- Until the budget is over or the run is stopped, every client is in flight or waits in one group; and whatever
call comes next, it is refused at its head or raises at most what `_check_state` raises for the merged state. -/
theorem scheduler_invariant (ops : Torch T) (model : Dict String T) (parameterNames : List String)
    (config : FedCompassConfig) (timing : Timing) (partitionSizes : Dict String ℕ) (t₀ : ℚ)
    (hn : ∀ n ∈ parameterNames, n ∈ model.keys) {p : FedCompass T × ℚ}
    (h : Reaches (next ops) (Undisturbed ops) (.create model parameterNames config timing partitionSizes, t₀) p) :
    (p.1.serials ≠ 0 → ¬ Aborted p.1 → ¬ Stopped p.1 → Scheduled p.2 p.1) ∧
      ∀ e : Event T, p.2 ≤ e.time → ∀ err t, (perform ops e).run p.1 = .error err t →
        headChecks ops p.1 e = .error err ∧ t = p.1 ∨ headChecks ops p.1 e = .ok () ∧ CheckError err := by
  set start : FedCompass T := .create model parameterNames config timing partitionSizes with hs
  have hstart : Fresh start := ⟨rfl, rfl⟩
  have h₀ : Invariant start (start, t₀) :=
    ⟨_, good_idle (s := start) rfl rfl rfl (fun c v hv ↦ by cases hv) hn, .inr (.inr (.inr rfl))⟩
  have hinv : Invariant start p := h.invariant h₀ fun q e r hq ha hr ↦ next_invariant hstart hq ha hr
  refine ⟨fun hserials ha hst ↦ ?_, fun e ht err t hrun ↦ ?_⟩
  · obtain ⟨loose, hgood, hwhere⟩ := hinv
    obtain rfl | hab | hstop | he := hwhere
    · exact hgood.placed.scheduled
    · exact absurd hab ha
    · exact absurd hstop hst
    · exact absurd (he ▸ rfl) hserials
  · cases hh : headChecks ops p.1 e with
    | error err' =>
      rw [headChecks_of_error hh] at hrun
      cases hrun
      exact .inl ⟨rfl, rfl⟩
    | ok _ => exact .inr ⟨rfl, (perform_yields hstart hinv ht hh).of_raise hrun⟩

end Runs

/-! ### A model with one number -/

section Single

/-- The numbers of single precision, `none` for the ones that are not finite. -/
def bounded (x : ℚ) : Option ℚ := if |x| ≤ 340282346638528859811704183484516925440 then some x else none

/-- Scalars of single precision, without rounding, for the staleness exponent 1. -/
def single : Torch (Option ℚ) where
  shape _ := []
  dtype _ := ⟨.float, 4⟩
  nonfinite x := x.isNone
  sub x y := do bounded ((← x) - (← y))
  scale w x := do bounded (w * (← x))
  castTo x _ := x
  average l := do
    let values ← l.mapM fun p ↦ p.1.map fun x ↦ x * (p.2 : ℚ)
    bounded (values.sum / (l.map Prod.snd).sum)
  power a b := if b = -1 then a⁻¹ else 1

def singleConfig : FedCompassConfig where
  minLocalSteps := 20
  maxLocalSteps := 100
  speedMomentum := 9 / 10
  latestTimeFactor := 6 / 5
  alpha := 9 / 10
  stalenessExponent := 1
  steps_valid := usual_steps_valid
  momentum_valid := usual_momentum_valid
  alpha_valid := by norm_num
  factor_valid := usual_factor_valid
  exponent_valid := usual_exponent_valid

def scalar (x : ℚ) : Dict String (Option ℚ) := Dict.ofList [("weight", some x)]

def alone : FedCompass (Option ℚ) := .create (scalar 0) ["weight"] singleConfig .events (Dict.ofList [("a", 1)])

/-- The first update of the only client. -/
def firstUpdate (base trained : ℚ) : Update (Option ℚ) where
  assignment := ⟨0, "a", 100, 0, none, 0⟩
  base := scalar base
  trained := scalar trained

def afterFirst (base trained : ℚ) : FedCompass (Option ℚ) × ℚ :=
  ((perform single (.receive (firstUpdate base trained) 1)).after ((perform single (.start 0)).after alone), 1)

/-- Whether a call returned. -/
def returned {σ α : Type} : EStateM.Result PyError σ α → Bool
  | .ok _ _ => true
  | .error _ _ => false

theorem not_fails_of_returned {T : Type} {ops : Torch T} {s : FedCompass T} {e : Event T}
    (h : returned ((perform ops e).run s) = true) : ¬ Fails ops s e := by
  rintro ⟨-, err, t, he⟩
  rw [he] at h
  cases h

theorem not_aborted_of_log {T : Type} {s : FedCompass T} {n : ℕ} {c : String}
    (h : s.log = [.received n c]) : ¬ Aborted s ∧ ¬ Stopped s := by
  rw [Aborted, Stopped, h]
  simp

theorem scheduler_invariant_first : Scheduled 1 (afterFirst 0 1).1 := by
  have hreach : Reaches (next single) (Undisturbed single) (alone, 0) (afterFirst 0 1) := by
    refine .next (.receive (firstUpdate 0 1) 1) (.next (.start 0) .start ⟨by decide, ?_⟩ rfl) ⟨by decide, ?_⟩ rfl
    · exact not_fails_of_returned (by decide +kernel)
    · exact not_fails_of_returned (by decide +kernel)
  obtain ⟨ha, hs⟩ := not_aborted_of_log (s := (afterFirst 0 1).1) (n := 0) (c := "a") (by decide +kernel)
  exact (scheduler_invariant single _ _ singleConfig .events _ 0 (by decide) hreach).1 (by decide +kernel) ha hs

/-- The merged state overflows after the client was taken off `active`: it gets no assignment again. -/
theorem overflow_loses_client :
    Reaches (next single) Timely (alone, 0) (afterFirst (2 ^ 127) (-2 ^ 127)) ∧
      ¬ Aborted (afterFirst (2 ^ 127) (-2 ^ 127)).1 ∧ ¬ Stopped (afterFirst (2 ^ 127) (-2 ^ 127)).1 ∧
      "a" ∈ (afterFirst (2 ^ 127) (-2 ^ 127)).1.partitionSizes.keys ∧
      ¬ InFlight (afterFirst (2 ^ 127) (-2 ^ 127)).1 "a" ∧ ∀ gid, ¬ WaitsIn (afterFirst (2 ^ 127) (-2 ^ 127)).1 gid "a" := by
  obtain ⟨ha, hs⟩ := not_aborted_of_log (s := (afterFirst (2 ^ 127) (-2 ^ 127)).1) (n := 0) (c := "a")
    (by decide +kernel)
  have hactive : (afterFirst (2 ^ 127) (-2 ^ 127)).1.active.entries = [] := by decide +kernel
  have hgroups : (afterFirst (2 ^ 127) (-2 ^ 127)).1.groups.keys = [] := by decide +kernel
  refine ⟨?_, ha, hs, by decide +kernel, ?_, ?_⟩
  · have hstart : Timely (alone, 0) (.start 0) := le_refl (0 : ℚ)
    have hlater : (0 : ℚ) ≤ 1 := zero_le_one
    exact .next (.receive (firstUpdate (2 ^ 127) (-2 ^ 127)) 1) (.next (.start 0) .start hstart rfl) hlater rfl
  · rintro ⟨job, h⟩
    rw [Dict.get?, hactive] at h
    cases h
  · rintro gid ⟨g, h, -⟩
    have hk := (Dict.mem_keys_iff _).mpr ⟨g, h⟩
    rw [hgroups] at hk
    cases hk

end Single

end SplitFleet.Compass
