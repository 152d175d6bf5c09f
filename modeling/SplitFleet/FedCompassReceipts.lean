import Mathlib.Algebra.Order.Group.Multiset
import Mathlib.Tactic.Abel
import SplitFleet.FedCompassRuns

set_option autoImplicit false

namespace SplitFleet.Compass

open Lib

variable {T : Type} {ops : Torch T}

/-- What became of an update. -/
inductive Fate
  | lateBuffer
  | waiting
  | superseded
  | aggregated
  | discarded
  | unaggregated
  deriving DecidableEq

def Status.fate : Status → Fate
  | .lateBuffer => .lateBuffer
  | .waitingForGroup => .waiting
  | .supersededLateBuffer => .superseded
  | .aggregated .. => .aggregated
  | .discardedAtStop => .discarded
  | .unaggregatedAtStop => .unaggregated

def Happening.delivered : Happening → List ℕ
  | .received n _ => [n]
  | _ => []

def Happening.under : Fate → Happening → List ℕ
  | .superseded, .superseded n _ => [n]
  | .discarded, .discarded serials => serials
  | .unaggregated, .stopped serials => serials
  | _, _ => []

/-- The updates in the late buffer. -/
def heldOf (buffer : Dict String (Update T)) : Multiset (Update T) := buffer.values

/-- The updates that wait in groups. -/
def waitingOf (groups : Dict ℕ (ArrivalGroup T)) : Multiset (Update T) := (groups.values.flatMap (·.arrived))

def logged (f : Happening → List ℕ) (log : List Happening) : Multiset ℕ := (log.flatMap f)

namespace FedCompass

def received (s : FedCompass T) : Multiset ℕ := logged Happening.delivered s.log

/-- The serial numbers of the updates of one fate, each as often as it has it. -/
def under (s : FedCompass T) : Fate → Multiset ℕ
  | .lateBuffer => (heldOf s.buffer).map (·.serial)
  | .waiting => (waitingOf s.groups).map (·.serial)
  | .aggregated => (s.aggregations.flatMap (·.serials) : List ℕ)
  | f => logged (Happening.under f) s.log

def accounted (s : FedCompass T) : Multiset ℕ :=
  s.under .lateBuffer + s.under .waiting + s.under .superseded + s.under .aggregated + s.under .discarded +
    s.under .unaggregated

end FedCompass

/-- One update was received before the other, from the same client. -/
def Before (log : List Happening) (c : String) (n m : ℕ) : Prop :=
  List.Sublist [.received n c, .received m c] log

/-- Every update that was received has one fate, but for those in `hand`, that a call is about to place. -/
structure Kept (hand : Multiset ℕ) (s : FedCompass T) : Prop where
  total : hand + s.accounted = s.received
  nodup : s.received.Nodup
  status : ∀ f, ∀ n ∈ s.under f, ∃ status, s.receipts.get? n = some status ∧ status.fate = f
  active : ∀ c job, s.active.get? c = some job → job.serial ∉ s.received ∧ job.serial < s.serials
  active_inj : ∀ c c' job job', s.active.get? c = some job → s.active.get? c' = some job' →
    job.serial = job'.serial → c = c'
  bound : ∀ n ∈ s.received, n < s.serials
  keyed : ∀ c u, s.buffer.get? c = some u → u.clientId = c
  buffered : ∀ u ∈ heldOf s.buffer, .received u.serial u.clientId ∈ s.log
  waiting : ∀ u ∈ waitingOf s.groups, .received u.serial u.clientId ∈ s.log
  order : ∀ old ∈ heldOf s.buffer, ∀ u ∈ waitingOf s.groups, old.clientId = u.clientId →
    Before s.log u.clientId old.serial u.serial
  later : ∀ n m, .superseded n m ∈ s.log → ∃ c, Before s.log c n m
  version : s.version = s.aggregations.length

section Held

variable {buffer buffer' : Dict String (Update T)} {groups : Dict ℕ (ArrivalGroup T)} {c : String} {u : Update T}
  {gid : ℕ} {g : ArrivalGroup T}

theorem mem_heldOf : u ∈ heldOf buffer ↔ u ∈ buffer.values := Iff.rfl

theorem heldOf_congr (h : ∀ c, buffer.get? c = buffer'.get? c) : heldOf buffer = heldOf buffer' :=
  Multiset.coe_eq_coe.mpr ((Dict.entries_perm_of_get? h).map Prod.snd)

theorem heldOf_insert (buffer : Dict String (Update T)) (c : String) (u : Update T) :
    heldOf (buffer.insert c u) = {u} + heldOf (buffer.erase c) :=
  Multiset.coe_eq_coe.mpr ((buffer.entries_insert_perm c u).map Prod.snd)

theorem heldOf_of_some (h : buffer.get? c = some u) : heldOf buffer = {u} + heldOf (buffer.erase c) :=
  Multiset.coe_eq_coe.mpr ((buffer.entries_perm_erase h).map Prod.snd)

theorem heldOf_of_none (h : buffer.get? c = none) : heldOf (buffer.erase c) = heldOf buffer := by
  rw [heldOf, heldOf, Dict.values, Dict.values, Dict.entries_erase_of_none buffer h]

theorem waitingOf_insert (groups : Dict ℕ (ArrivalGroup T)) (gid : ℕ) (g : ArrivalGroup T) :
    waitingOf (groups.insert gid g) = g.arrived + waitingOf (groups.erase gid) :=
  Multiset.coe_eq_coe.mpr (((groups.entries_insert_perm gid g).map Prod.snd).flatMap_right _)

theorem waitingOf_of_some (h : groups.get? gid = some g) : waitingOf groups = g.arrived + waitingOf (groups.erase gid) :=
  Multiset.coe_eq_coe.mpr (((groups.entries_perm_erase h).map Prod.snd).flatMap_right _)

theorem waitingOf_of_none (h : groups.get? gid = none) : waitingOf (groups.erase gid) = waitingOf groups := by
  rw [waitingOf, waitingOf, Dict.values, Dict.values, Dict.entries_erase_of_none groups h]

/-- A group whose arrivals stay the same. -/
theorem waitingOf_same {g' : ArrivalGroup T} (h : groups.get? gid = some g) (ha : g'.arrived = g.arrived) :
    waitingOf (groups.insert gid g') = waitingOf groups := by
  rw [waitingOf_insert, waitingOf_of_some h, ha]

theorem mem_waitingOf : u ∈ waitingOf groups ↔ ∃ gid g, groups.get? gid = some g ∧ u ∈ g.arrived := by
  rw [waitingOf, Multiset.mem_coe, List.mem_flatMap]
  simp only [Dict.mem_values_iff]
  tauto

theorem logged_append (f : Happening → List ℕ) (log : List Happening) (h : Happening) :
    logged f (log ++ [h]) = logged f log + f h := by
  simp [logged]

theorem mem_logged {f : Happening → List ℕ} {log : List Happening} {n : ℕ} :
    n ∈ logged f log ↔ ∃ h ∈ log, n ∈ f h := by
  rw [logged, Multiset.mem_coe, List.mem_flatMap]

theorem mem_received {s : FedCompass T} {n : ℕ} : n ∈ s.received ↔ ∃ c, .received n c ∈ s.log := by
  rw [FedCompass.received, mem_logged]
  constructor
  · rintro ⟨h, hh, hn⟩
    cases h with
    | received m c =>
      rw [Happening.delivered, List.mem_singleton] at hn
      exact ⟨c, hn ▸ hh⟩
    | _ => cases hn
  · rintro ⟨c, hc⟩
    exact ⟨_, hc, List.mem_singleton_self n⟩

theorem mem_accounted {s : FedCompass T} {n : ℕ} : n ∈ s.accounted ↔ ∃ f, n ∈ s.under f := by
  simp only [FedCompass.accounted, Multiset.mem_add]
  constructor
  · rintro (((((h | h) | h) | h) | h) | h)
    exacts [⟨_, h⟩, ⟨_, h⟩, ⟨_, h⟩, ⟨_, h⟩, ⟨_, h⟩, ⟨_, h⟩]
  · rintro ⟨f, h⟩
    cases f <;> tauto

end Held

section Keep

variable {s t : FedCompass T} {hand : Multiset ℕ} {now : ℚ} {u : Update T} {gid n m : ℕ} {g : ArrivalGroup T} {c : String}

theorem Kept.not_mem_under (h : Kept hand s) (hn : n ∈ hand) (f : Fate) : n ∉ s.under f := by
  have hnd : (hand + s.accounted).Nodup := h.total ▸ h.nodup
  exact fun hf ↦ Multiset.disjoint_left.mp (Multiset.nodup_add.mp hnd).2.2 hn (mem_accounted.mpr ⟨f, hf⟩)

theorem Kept.hand_nodup (h : Kept hand s) : hand.Nodup := by
  have hnd : (hand + s.accounted).Nodup := h.total ▸ h.nodup
  exact (Multiset.nodup_add.mp hnd).1

theorem Kept.of_hand (h : Kept hand s) (hand' : Multiset ℕ) (he : hand' = hand) : Kept hand' s := he ▸ h

theorem Kept.of_eq (h : Kept hand s) (hl : t.log = s.log) (hr : t.receipts = s.receipts)
    (hb : ∀ c, t.buffer.get? c = s.buffer.get? c) (hw : waitingOf t.groups = waitingOf s.groups)
    (ha : t.aggregations = s.aggregations) (hv : t.version = s.version) (hact : t.active = s.active)
    (hs : t.serials = s.serials) : Kept hand t := by
  have hh := heldOf_congr hb
  have hu : t.under = s.under := by
    funext f
    cases f <;> simp only [FedCompass.under, hl, hh, hw, ha]
  have hacc : t.accounted = s.accounted := by rw [FedCompass.accounted, FedCompass.accounted, hu]
  have hrec : t.received = s.received := by rw [FedCompass.received, FedCompass.received, hl]
  exact
    { total := by rw [hacc, hrec, h.total]
      nodup := hrec ▸ h.nodup
      status := by
        rw [hu, hr]
        exact h.status
      active := by
        rw [hact, hrec, hs]
        exact h.active
      active_inj := by
        rw [hact]
        exact h.active_inj
      bound := by
        rw [hrec, hs]
        exact h.bound
      keyed := by
        simp only [hb]
        exact h.keyed
      buffered := by
        rw [hh, hl]
        exact h.buffered
      waiting := by
        rw [hw, hl]
        exact h.waiting
      order := by
        rw [hh, hw, hl]
        exact h.order
      later := by
        rw [hl]
        exact h.later
      version := by rw [hv, ha, h.version] }

/-- A delivery: the update is in the hand of the call. -/
theorem Kept.arrive (h : Kept 0 s) (hj : s.active.get? u.clientId = some u.assignment) :
    Kept {u.serial} (s.arrive u now) := by
  have hrec : (s.arrive u now).received = s.received + {u.serial} := logged_append _ _ _
  have hunder : ∀ f, (s.arrive u now).under f = s.under f := by
    intro f
    cases f with
    | lateBuffer => rfl
    | waiting => rfl
    | aggregated => rfl
    | _ => exact (logged_append _ _ _).trans (add_zero _)
  have hacc : (s.arrive u now).accounted = s.accounted := by simp only [FedCompass.accounted, hunder]
  obtain ⟨hnew, hlt⟩ := h.active _ _ hj
  have hlog : (s.arrive u now).log = s.log ++ [.received u.serial u.clientId] := rfl
  have hactive : ∀ c job, (s.arrive u now).active.get? c = some job → u.clientId ≠ c ∧ s.active.get? c = some job := by
    intro c job hc
    have hc' : (s.active.erase u.clientId).get? c = some job := hc
    rw [Dict.get?_erase] at hc'
    split_ifs at hc' with he
    exact ⟨he, hc'⟩
  refine
    { total := ?_
      nodup := ?_
      status := fun f n hn ↦ h.status f n (hunder f ▸ hn)
      active := fun c job hc ↦ ?_
      active_inj := fun c c' job job' hc hc' ↦ h.active_inj c c' job job' (hactive c job hc).2 (hactive c' job' hc').2
      bound := fun n hn ↦ ?_
      keyed := h.keyed
      buffered := fun w hw ↦ hlog ▸ List.mem_append_left _ (h.buffered w hw)
      waiting := fun w hw ↦ hlog ▸ List.mem_append_left _ (h.waiting w hw)
      order := fun old ho w hw he ↦ (h.order old ho w hw he).trans (hlog ▸ List.sublist_append_left _ _)
      later := fun n m hm ↦ ?_
      version := h.version }
  · rw [hacc, hrec, ← h.total]
    abel
  · rw [hrec, Multiset.nodup_add]
    refine ⟨h.nodup, Multiset.nodup_singleton _, Multiset.disjoint_singleton.mpr hnew⟩
  · obtain ⟨hne, hc⟩ := hactive c job hc
    refine ⟨?_, (h.active c job hc).2⟩
    rw [hrec, Multiset.mem_add, Multiset.mem_singleton]
    rintro (hm | hm)
    · exact (h.active c job hc).1 hm
    · exact hne (h.active_inj _ _ _ _ hj hc hm.symm)
  · rw [hrec, Multiset.mem_add, Multiset.mem_singleton] at hn
    obtain hn | rfl := hn
    · exact h.bound n hn
    · exact hlt
  · rw [hlog] at hm ⊢
    obtain hm | hm := List.mem_append.mp hm
    · exact (h.later n m hm).imp fun c hb ↦ hb.trans (List.sublist_append_left _ _)
    · cases List.mem_singleton.mp hm

/-- What was buffered before an update that was delivered just now. -/
theorem Kept.before_arrived (h : Kept 0 s) (now : ℚ) {old : Update T} (ho : old ∈ heldOf s.buffer) (hc : old.clientId = u.clientId) :
    Before (s.arrive u now).log u.clientId old.serial u.serial := by
  have hlog : (s.arrive u now).log = s.log ++ [.received u.serial u.clientId] := rfl
  rw [hlog, Before]
  exact (List.singleton_sublist.mpr (hc ▸ h.buffered old ho)).append (List.Sublist.refl _)

/-- Updates of the hand get one fate, and receipts that say so. -/
theorem Kept.settle {ns : Multiset ℕ} (h : Kept (ns + hand) s) {fate : Fate}
    (hu : ∀ f, t.under f = s.under f + if f = fate then ns else 0)
    (hnew : ∀ n ∈ ns, ∃ status, t.receipts.get? n = some status ∧ status.fate = fate)
    (hold : ∀ n ∉ ns, t.receipts.get? n = s.receipts.get? n) (hrec : t.received = s.received) :
    hand + t.accounted = t.received ∧
      ∀ f, ∀ n ∈ t.under f, ∃ status, t.receipts.get? n = some status ∧ status.fate = f := by
  constructor
  · rw [hrec, ← h.total]
    cases fate <;> simp only [FedCompass.accounted, hu, reduceCtorEq, if_false, if_true, add_zero] <;> abel
  · intro f n hn
    rw [hu, Multiset.mem_add] at hn
    obtain hn | hn := hn
    · rw [hold n fun hm ↦ h.not_mem_under (Multiset.mem_add.mpr (.inl hm)) f hn]
      exact h.status f n hn
    · split_ifs at hn with hf
      · exact hf ▸ hnew n hn
      · cases hn

theorem settled_one {status : Status} {fate : Fate}
    (hget : ∀ k, t.receipts.get? k = if n = k then some status else s.receipts.get? k) (hf : status.fate = fate) :
    ∀ k ∈ ({n} : Multiset ℕ), ∃ st, t.receipts.get? k = some st ∧ st.fate = fate := by
  intro k hk
  exact ⟨status, by rw [hget, if_pos (Multiset.mem_singleton.mp hk).symm], hf⟩

theorem unsettled_one {status : Status}
    (hget : ∀ k, t.receipts.get? k = if n = k then some status else s.receipts.get? k) :
    ∀ k ∉ ({n} : Multiset ℕ), t.receipts.get? k = s.receipts.get? k := by
  intro k hk
  rw [hget, if_neg fun he ↦ hk (Multiset.mem_singleton.mpr he.symm)]

/-- A newer update of the same client takes the place of one in the hand. -/
theorem Kept.supersede (h : Kept ({n} + hand) s) (hb : Before s.log c n m) :
    Kept hand ((s.setStatus n .supersededLateBuffer).note (.superseded n m)) := by
  set t := (s.setStatus n .supersededLateBuffer).note (.superseded n m) with ht
  have hlog : t.log = s.log ++ [.superseded n m] := rfl
  have hrec : t.received = s.received := (logged_append _ _ _).trans (add_zero _)
  have hunder : ∀ f, t.under f = s.under f + if f = .superseded then {n} else 0 := by
    intro f
    cases f with
    | lateBuffer => exact (add_zero _).symm
    | waiting => exact (add_zero _).symm
    | aggregated => exact (add_zero _).symm
    | _ => exact logged_append _ _ _
  have hget : ∀ k, t.receipts.get? k = if n = k then some .supersededLateBuffer else s.receipts.get? k :=
    fun k ↦ Dict.get?_insert ..
  obtain ⟨htotal, hstatus⟩ := h.settle (t := t) hunder (settled_one hget rfl) (unsettled_one hget) hrec
  refine
    { total := htotal
      nodup := hrec ▸ h.nodup
      status := hstatus
      active := fun c job hc ↦ hrec ▸ h.active c job hc
      active_inj := h.active_inj
      bound := fun k hk ↦ h.bound k (hrec ▸ hk)
      keyed := h.keyed
      buffered := fun w hw ↦ hlog ▸ List.mem_append_left _ (h.buffered w hw)
      waiting := fun w hw ↦ hlog ▸ List.mem_append_left _ (h.waiting w hw)
      order := fun old ho w hw he ↦ (h.order old ho w hw he).trans (hlog ▸ List.sublist_append_left _ _)
      later := fun k j hk ↦ ?_
      version := h.version }
  rw [hlog] at hk ⊢
  obtain hk | hk := List.mem_append.mp hk
  · exact (h.later k j hk).imp fun c hb ↦ hb.trans (List.sublist_append_left _ _)
  · cases List.mem_singleton.mp hk
    exact ⟨c, hb.trans (List.sublist_append_left _ _)⟩

/-- An update leaves the late buffer. -/
theorem Kept.take (h : Kept hand s) (hg : s.buffer.get? c = some u) :
    Kept ({u.serial} + hand) { s with buffer := s.buffer.erase c } := by
  set t : FedCompass T := { s with buffer := s.buffer.erase c } with ht
  have hh : heldOf s.buffer = {u} + heldOf t.buffer := heldOf_of_some hg
  have hsub : ∀ w ∈ heldOf t.buffer, w ∈ heldOf s.buffer := fun w hw ↦ hh ▸ Multiset.mem_add.mpr (.inr hw)
  have hunder : ∀ f, s.under f = t.under f + if f = .lateBuffer then {u.serial} else 0 := by
    intro f
    cases f with
    | lateBuffer => rw [FedCompass.under, FedCompass.under, hh, Multiset.map_add, Multiset.map_singleton, add_comm, if_pos rfl]
    | _ => exact (add_zero _).symm
  refine { h with total := ?_, status := fun f n hn ↦ ?_, keyed := fun d w hd ↦ ?_, buffered := ?_, order := ?_ }
  · refine Eq.trans ?_ h.total
    simp only [FedCompass.accounted, hunder, reduceCtorEq, if_false, if_true, add_zero]
    abel
  · exact h.status f n (hunder f ▸ Multiset.mem_add.mpr (.inl hn))
  · rw [ht] at hd
    dsimp only at hd
    rw [Dict.get?_erase] at hd
    split_ifs at hd
    exact h.keyed d w hd
  · exact fun w hw ↦ h.buffered w (hsub w hw)
  · exact fun old ho ↦ h.order old (hsub old ho)

/-- An update from the hand goes to the late buffer. -/
theorem Kept.put (h : Kept ({u.serial} + hand) s) (hg : s.buffer.get? u.clientId = none)
    (hlog : .received u.serial u.clientId ∈ s.log) (hw : ∀ w ∈ waitingOf s.groups, u.clientId ≠ w.clientId) :
    Kept hand { s with
      buffer := s.buffer.insert u.clientId u
      receipts := s.receipts.insert u.serial .lateBuffer } := by
  set t : FedCompass T := { s with
    buffer := s.buffer.insert u.clientId u
    receipts := s.receipts.insert u.serial .lateBuffer } with ht
  have hh : heldOf t.buffer = {u} + heldOf s.buffer := by
    rw [ht, heldOf_insert, heldOf_of_none hg]
  have hunder : ∀ f, t.under f = s.under f + if f = .lateBuffer then {u.serial} else 0 := by
    intro f
    cases f with
    | lateBuffer => rw [FedCompass.under, FedCompass.under, hh, Multiset.map_add, Multiset.map_singleton, add_comm, if_pos rfl]
    | _ => exact (add_zero _).symm
  have hget : ∀ k, t.receipts.get? k = if u.serial = k then some .lateBuffer else s.receipts.get? k :=
    fun k ↦ Dict.get?_insert ..
  have hheld : ∀ w ∈ heldOf t.buffer, w = u ∨ w ∈ heldOf s.buffer := by
    intro w hw
    rwa [hh, Multiset.mem_add, Multiset.mem_singleton] at hw
  obtain ⟨htotal, hstatus⟩ := h.settle (t := t) hunder (settled_one hget rfl) (unsettled_one hget) rfl
  refine { h with total := htotal, status := hstatus, keyed := fun d w hd ↦ ?_, buffered := ?_, order := ?_ }
  · rw [ht] at hd
    dsimp only at hd
    rw [Dict.get?_insert] at hd
    split_ifs at hd with he
    · cases hd
      exact he
    · exact h.keyed d w hd
  · intro w hm
    obtain rfl | hm := hheld w hm
    · exact hlog
    · exact h.buffered w hm
  · intro old ho w hw' he
    obtain rfl | ho := hheld old ho
    · exact absurd he (hw w hw')
    · exact h.order old ho w hw' he

/-- A late update: an older one of its client in the buffer gives way. -/
theorem Kept.bufferLate (h : Kept {u.serial} s) (hlog : .received u.serial u.clientId ∈ s.log)
    (hw : ∀ w ∈ waitingOf s.groups, u.clientId ≠ w.clientId)
    (hb : ∀ old ∈ heldOf s.buffer, old.clientId = u.clientId → Before s.log u.clientId old.serial u.serial) :
    Kept 0 (s.bufferLate u) := by
  cases hg : s.buffer.get? u.clientId with
  | none =>
    have ht : s.bufferLate u = { s with
        buffer := s.buffer.insert u.clientId u
        receipts := s.receipts.insert u.serial .lateBuffer } := by
      rw [FedCompass.bufferLate, hg]
      rfl
    rw [ht]
    exact (h.of_hand ({u.serial} + 0) (add_zero _)).put hg hlog hw
  | some old =>
    have hold : old ∈ heldOf s.buffer := mem_heldOf.mpr (s.buffer.mem_values_iff.mpr ⟨_, hg⟩)
    have hs := (h.take hg).supersede (hb old hold (h.keyed _ _ hg))
    have hs' := hs.of_hand ({u.serial} + 0) (add_zero _)
    have hput := hs'.put ((Dict.get?_erase ..).trans (if_pos rfl)) (List.mem_append_left _ hlog) hw
    have ht : s.bufferLate u = { s with
        buffer := s.buffer.insert u.clientId u
        receipts := (s.receipts.insert old.serial .supersededLateBuffer).insert u.serial .lateBuffer
        log := s.log ++ [.superseded old.serial u.serial] } := by
      rw [FedCompass.bufferLate, hg]
      rfl
    rw [ht]
    refine hput.of_eq rfl rfl (fun k ↦ ?_) rfl rfl rfl rfl rfl
    dsimp only [FedCompass.note, FedCompass.setStatus]
    rw [Dict.get?_insert, Dict.get?_insert, Dict.get?_erase]
    split_ifs <;> rfl

theorem Kept.of_groups (h : Kept hand s) {groups : Dict ℕ (ArrivalGroup T)} (hw : waitingOf groups = waitingOf s.groups) :
    Kept hand { s with groups := groups } :=
  h.of_eq rfl rfl (fun _ ↦ rfl) hw rfl rfl rfl rfl

/-- An update from the hand waits in its group. -/
theorem Kept.wait (h : Kept ({u.serial} + hand) s) (hg : s.groups.get? gid = some g)
    (hlog : .received u.serial u.clientId ∈ s.log)
    (hb : ∀ old ∈ heldOf s.buffer, old.clientId = u.clientId → Before s.log u.clientId old.serial u.serial) :
    Kept hand (s.wait gid g u) := by
  set t := s.wait gid g u with ht
  have hw : waitingOf t.groups = {u} + waitingOf s.groups := by
    have htg : t.groups = s.groups.insert gid
      { g with pending := g.pending.erase u.clientId, arrived := g.arrived ++ [u] } := rfl
    rw [htg, waitingOf_insert, waitingOf_of_some hg, ← Multiset.coe_add, Multiset.coe_singleton]
    abel
  have hunder : ∀ f, t.under f = s.under f + if f = .waiting then {u.serial} else 0 := by
    intro f
    cases f with
    | waiting =>
      rw [FedCompass.under, FedCompass.under, hw, Multiset.map_add, Multiset.map_singleton, add_comm, if_pos rfl]
    | _ => exact (add_zero _).symm
  have hget : ∀ k, t.receipts.get? k = if u.serial = k then some .waitingForGroup else s.receipts.get? k :=
    fun k ↦ Dict.get?_insert ..
  have hwaits : ∀ w ∈ waitingOf t.groups, w = u ∨ w ∈ waitingOf s.groups := by
    intro w hm
    rwa [hw, Multiset.mem_add, Multiset.mem_singleton] at hm
  obtain ⟨htotal, hstatus⟩ := h.settle (t := t) hunder (settled_one hget rfl) (unsettled_one hget) rfl
  refine { h with total := htotal, status := hstatus, waiting := fun w hm ↦ ?_, order := fun old ho w hm he ↦ ?_ }
  · obtain rfl | hm := hwaits w hm
    · exact hlog
    · exact h.waiting w hm
  · obtain rfl | hm := hwaits w hm
    · exact hb old ho he
    · exact h.order old ho w hm he

/-- The arrivals of a group that closes are in the hand of the call. -/
theorem Kept.closeGroup (h : Kept hand s) (hg : s.groups.get? gid = some g) (now : ℚ) (reason : String) :
    Kept (((g.arrived : Multiset (Update T)).map (·.serial)) + hand) (s.closeGroup gid g now reason) := by
  set t := s.closeGroup gid g now reason with ht
  have hw : waitingOf s.groups = (g.arrived : Multiset (Update T)) + waitingOf t.groups := by
    have htg : t.groups = s.groups.insert gid { g with closed := true, arrived := [] } := rfl
    rw [htg, waitingOf_insert, waitingOf_of_some hg, Multiset.coe_nil, zero_add]
  have hsub : ∀ w ∈ waitingOf t.groups, w ∈ waitingOf s.groups := fun w hm ↦ hw ▸ Multiset.mem_add.mpr (.inr hm)
  have hunder : ∀ f, s.under f = t.under f +
      if f = .waiting then (g.arrived : Multiset (Update T)).map (·.serial) else 0 := by
    intro f
    cases f with
    | waiting => rw [FedCompass.under, FedCompass.under, hw, Multiset.map_add, add_comm, if_pos rfl]
    | _ => exact (add_zero _).symm
  refine { h with total := ?_, status := fun f n hn ↦ ?_, waiting := fun w hm ↦ ?_, order := fun old ho w hm ↦ ?_ }
  · refine Eq.trans ?_ h.total
    simp only [FedCompass.accounted, hunder, reduceCtorEq, if_false, if_true, add_zero]
    abel
  · exact h.status f n (hunder f ▸ Multiset.mem_add.mpr (.inl hn))
  · exact h.waiting w (hsub w hm)
  · exact h.order old ho w (hsub w hm)

/-- All that is buffered is in the hand of the call. -/
theorem Kept.clearBuffer (h : Kept hand s) : Kept ((heldOf s.buffer).map (·.serial) + hand) { s with buffer := Dict.empty } := by
  set t : FedCompass T := { s with buffer := Dict.empty } with ht
  have hunder : ∀ f, s.under f = t.under f + if f = .lateBuffer then (heldOf s.buffer).map (·.serial) else 0 := by
    intro f
    cases f with
    | lateBuffer => exact (zero_add _).symm
    | _ => exact (add_zero _).symm
  refine { h with total := ?_, status := fun f n hn ↦ ?_, keyed := fun c w hc ↦ ?_, buffered := fun w hm ↦ ?_, order := fun old ho ↦ ?_ }
  · refine Eq.trans ?_ h.total
    simp only [FedCompass.accounted, hunder, reduceCtorEq, if_false, if_true, add_zero]
    abel
  · exact h.status f n (hunder f ▸ Multiset.mem_add.mpr (.inl hn))
  · cases hc
  · cases hm
  · cases ho

theorem absorb_clearBuffer (s : FedCompass T) (buffer merged : Dict String (Update T)) (arrived : List (Update T)) :
    absorb { s with buffer := buffer } merged arrived =
      ({ (absorb s merged arrived).1 with buffer := buffer }, (absorb s merged arrived).2) := by
  induction arrived generalizing s merged with
  | nil => rfl
  | cons u arrived ih =>
    have hs : Compass.supersede { s with buffer := buffer } u (merged.get? u.clientId) =
        { Compass.supersede s u (merged.get? u.clientId) with buffer := buffer } := by
      cases merged.get? u.clientId <;> rfl
    rw [absorb, absorb, hs, ih]

/-- The updates that a group merges: the arrivals, and of what was buffered the updates of other clients. -/
theorem Kept.absorb {merged : Dict String (Update T)} {arrived : List (Update T)}
    (h : Kept ((heldOf merged).map (·.serial) + ((arrived : Multiset (Update T)).map (·.serial) + hand)) s)
    (hkeyed : ∀ c w, merged.get? c = some w → w.clientId = c) (hclients : (arrived.map (·.clientId)).Nodup)
    (hb : ∀ old ∈ heldOf merged, ∀ w ∈ arrived, old.clientId = w.clientId →
      Before s.log w.clientId old.serial w.serial) :
    Kept ((heldOf (absorb s merged arrived).2).map (·.serial) + hand) (absorb s merged arrived).1 := by
  induction arrived generalizing s merged with
  | nil => simpa [Compass.absorb] using h
  | cons u arrived ih =>
    obtain ⟨hu, hclients⟩ := List.nodup_cons.mp hclients
    have hkeyed' : ∀ c w, (merged.insert u.clientId u).get? c = some w → w.clientId = c := by
      intro c w hc
      rw [Dict.get?_insert] at hc
      split_ifs at hc with he
      · cases hc
        exact he
      · exact hkeyed c w hc
    have hinsert : heldOf (merged.insert u.clientId u) = {u} + heldOf (merged.erase u.clientId) :=
      heldOf_insert merged u.clientId u
    have hother : ∀ w ∈ arrived, u.clientId ≠ w.clientId :=
      fun w hw he ↦ hu (List.mem_map.mpr ⟨w, hw, he.symm⟩)
    rw [Compass.absorb]
    rw [← Multiset.cons_coe, Multiset.map_cons, ← Multiset.singleton_add] at h
    cases hm : merged.get? u.clientId with
    | none =>
      rw [heldOf_of_none hm] at hinsert
      refine ih (h.of_hand _ ?_) hkeyed' hclients fun old ho w hw he ↦ ?_
      · rw [hinsert, Multiset.map_add, Multiset.map_singleton]
        abel
      · rw [hinsert, Multiset.mem_add, Multiset.mem_singleton] at ho
        obtain rfl | ho := ho
        · exact absurd he (hother w hw)
        · exact hb old ho w (List.mem_cons_of_mem u hw) he
    | some old =>
      have hsplit := heldOf_of_some hm
      have hold : old ∈ heldOf merged := hsplit ▸ Multiset.mem_add.mpr (.inl (Multiset.mem_singleton_self old))
      have hbefore := hb old hold u List.mem_cons_self (hkeyed _ _ hm)
      rw [hsplit, Multiset.map_add, Multiset.map_singleton, add_assoc] at h
      refine ih ((h.supersede hbefore).of_hand _ ?_) hkeyed' hclients fun w' ho w hw he ↦ ?_
      · rw [hinsert, Multiset.map_add, Multiset.map_singleton]
        abel
      · rw [hinsert, Multiset.mem_add, Multiset.mem_singleton] at ho
        obtain rfl | ho := ho
        · exact absurd he (hother w hw)
        · have ho' : w' ∈ heldOf merged := hsplit ▸ Multiset.mem_add.mpr (.inr ho)
          exact (hb w' ho' w (List.mem_cons_of_mem u hw) he).trans (List.sublist_append_left _ _)

end Keep

end SplitFleet.Compass
