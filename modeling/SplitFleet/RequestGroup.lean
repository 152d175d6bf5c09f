import SplitFleet.Lib.Python
import SplitFleet.Lib.StableSort
import Mathlib.Logic.Function.Basic

set_option autoImplicit false

namespace SplitFleet.RequestGroup

open Lib

abbrev Cid := String

abbrev Sid := String

/-- A `ClientRequestGroup`. The event of a request is named by the request's number. -/
structure Group (β : Type) where
  sid : Sid
  batches : List β
  events : List ℕ
  cids : List Cid
  ready : Bool
  initializing : Bool

variable {β : Type}

namespace Group

def fresh (sid : Sid) : Group β := ⟨sid, [], [], [], false, true⟩

def add (g : Group β) (batch : β) (event : ℕ) (cid : Cid) : Group β :=
  { g with batches := g.batches ++ [batch], events := g.events ++ [event], cids := g.cids ++ [cid] }

def markAsReady (g : Group β) : Group β := { g with ready := true }

def numBatches (g : Group β) : ℕ := g.batches.length

/-- The state after `is_new`, which answers with the flag it clears. -/
def clearNew (g : Group β) : Group β := { g with initializing := false }

/-- `get_data`: the batches and the events, each sorted by cid. -/
def getData (g : Group β) : List β × List ℕ :=
  (sortByKey (fun a b ↦ decide (a ≤ b)) g.cids g.batches,
    sortByKey (fun a b ↦ decide (a ≤ b)) g.cids g.events)

end Group

/-- What `callback_fn` removes: the entry `requestId` of a table of groups. -/
structure Callback where
  table : ℕ
  requestId : String
  deriving DecidableEq

/-- The part of the strategy that groups requests. The inner dictionaries and the groups are objects
that outlive `requests_state`, so both are kept by number. -/
structure Routing (β : Type) where
  processClientsAsBatch : Bool
  cidToSidMapping : Dict Cid Sid
  roundActiveClients : List Cid
  requestsState : Dict (Sid × String) ℕ
  tables : ℕ → Dict String ℕ
  tableCount : ℕ
  groups : ℕ → Group β
  groupCount : ℕ

namespace Routing

def start (batch : Bool) (mapping : Dict Cid Sid) (active : List Cid) : Routing β :=
  ⟨batch, mapping, active, .empty, fun _ ↦ .empty, 0, fun _ ↦ .fresh "", 0⟩

/-- `requests_state.setdefault(key, {})`. -/
def openTable (r : Routing β) (key : Sid × String) : Routing β × ℕ :=
  match r.requestsState.get? key with
  | some table => (r, table)
  | none => ({ r with
      requestsState := r.requestsState.insert key r.tableCount
      tables := Function.update r.tables r.tableCount .empty
      tableCount := r.tableCount + 1 }, r.tableCount)

def newGroup (r : Routing β) (table : ℕ) (requestId : String) (sid : Sid) : Routing β :=
  { r with
    groups := Function.update r.groups r.groupCount (.fresh sid)
    tables := Function.update r.tables table ((r.tables table).insert requestId r.groupCount)
    groupCount := r.groupCount + 1 }

/-- `route_client_request`; no answer models the `KeyError` of an unmapped cid. -/
def routeClientRequest (r : Routing β) (cid : Cid) (method requestId : String) :
    Option (Routing β × ℕ × Option Callback) :=
  match r.cidToSidMapping.get? cid with
  | none => none
  | some sid =>
    let (r, table) := r.openTable (sid, method)
    match (r.tables table).values.find? fun g ↦ !(r.groups g).ready with
    | some g => some (r, g, none)
    | none => some (r.newGroup table requestId sid, r.groupCount, some ⟨table, requestId⟩)

def modifyGroup (r : Routing β) (g : ℕ) (f : Group β → Group β) : Routing β :=
  { r with groups := Function.update r.groups g (f (r.groups g)) }

/-- The groups that `requests_state` lists. -/
def listed (r : Routing β) : List ℕ := r.requestsState.values.flatMap fun table ↦ (r.tables table).values

def isComplete (r : Routing β) (g : Group β) : Bool :=
  !r.processClientsAsBatch || g.numBatches = r.roundActiveClients.length

def markReadyRequests (r : Routing β) : Routing β :=
  { r with groups := fun g ↦
      if g ∈ r.listed ∧ r.isComplete (r.groups g) then (r.groups g).markAsReady else r.groups g }

def removeActive (r : Routing β) (cid : Cid) : Routing β :=
  { r with roundActiveClients := r.roundActiveClients.erase cid }

/-- No answer models the `ValueError` of a client that is not active. -/
def markClientAsDone (r : Routing β) (cid : Cid) : Option (Routing β) :=
  if cid ∈ r.roundActiveClients then some (r.removeActive cid).markReadyRequests else none

def runCallback (r : Routing β) : Option Callback → Routing β
  | none => r
  | some c => { r with
      tables := Function.update r.tables c.table ((r.tables c.table).erase c.requestId) }

/-- The locked body of `_compute_response`: the group joined, its callback, and whether this request
leads it. -/
def join (r : Routing β) (n : ℕ) (cid : Cid) (method requestId : String) (batch : β) :
    Option (Routing β × ℕ × Option Callback × Bool) :=
  match r.routeClientRequest cid method requestId with
  | none => none
  | some (r, g, callback) =>
    let r := r.modifyGroup g (·.add batch n cid)
    let isNew := (r.groups g).initializing
    some ((r.modifyGroup g .clearNew).markReadyRequests, g, callback, isNew)

end Routing

/-! ### What the locked sections do to the groups -/

/-- The same group at two times, between which it may have become ready. -/
structure Group.Later (a b : Group β) : Prop where
  sid : b.sid = a.sid
  batches : b.batches = a.batches
  events : b.events = a.events
  cids : b.cids = a.cids
  initializing : b.initializing = a.initializing
  ready : a.ready = true → b.ready = true

theorem Group.Later.refl (a : Group β) : a.Later a := ⟨rfl, rfl, rfl, rfl, rfl, id⟩

theorem Group.Later.getData {a b : Group β} (h : a.Later b) : b.getData = a.getData := by
  simp only [Group.getData, h.batches, h.events, h.cids]

namespace Routing

variable {r r' : Routing β}

theorem later_markReadyRequests (r : Routing β) (x : ℕ) :
    (r.groups x).Later (r.markReadyRequests.groups x) := by
  simp only [markReadyRequests]
  split_ifs
  · exact ⟨rfl, rfl, rfl, rfl, rfl, fun _ ↦ rfl⟩
  · exact .refl _

/-- After `mark_ready_requests` every listed group of the right size is ready. -/
theorem ready_markReadyRequests {x : ℕ} (hl : x ∈ r.markReadyRequests.listed)
    (hc : r.markReadyRequests.isComplete (r.markReadyRequests.groups x) = true) :
    (r.markReadyRequests.groups x).ready = true := by
  have hb : (r.markReadyRequests.groups x).numBatches = (r.groups x).numBatches :=
    congrArg List.length (later_markReadyRequests r x).batches
  have hc' : r.isComplete (r.groups x) = true := by
    rw [isComplete, hb] at hc
    exact hc
  have hl' : x ∈ r.listed := hl
  simp [markReadyRequests, hl', hc', Group.markAsReady]

theorem markReadyRequests_of_not_mem {x : ℕ} (h : x ∉ r.markReadyRequests.listed) :
    r.markReadyRequests.groups x = r.groups x :=
  if_neg fun hx ↦ h hx.1

theorem markClientAsDone_eq_some {cid : Cid} (h : r.markClientAsDone cid = some r') :
    cid ∈ r.roundActiveClients ∧ r' = (r.removeActive cid).markReadyRequests := by
  unfold markClientAsDone at h
  split_ifs at h with hc
  exact ⟨hc, (Option.some.inj h).symm⟩

theorem mem_listed {x : ℕ} :
    x ∈ r.listed ↔ ∃ key table requestId, r.requestsState.get? key = some table ∧
      (r.tables table).get? requestId = some x := by
  simp only [listed, List.mem_flatMap, Dict.mem_values_iff]
  constructor
  · rintro ⟨table, ⟨key, hk⟩, requestId, hx⟩
    exact ⟨key, table, requestId, hk, hx⟩
  · rintro ⟨key, table, requestId, hk, hx⟩
    exact ⟨table, ⟨key, hk⟩, requestId, hx⟩

theorem openTable_spec (r : Routing β) (key : Sid × String) :
    (r.openTable key).1.groups = r.groups ∧ (r.openTable key).1.groupCount = r.groupCount ∧
    (r.openTable key).1.requestsState.get? key = some (r.openTable key).2 ∧
    (∀ key', key' ≠ key → (r.openTable key).1.requestsState.get? key' = r.requestsState.get? key') ∧
    (r.openTable key = (r, (r.openTable key).2) ∨
      ((r.openTable key).1.tables (r.openTable key).2 = .empty ∧
        ∀ table ≠ (r.openTable key).2, (r.openTable key).1.tables table = r.tables table)) := by
  unfold openTable
  cases h : r.requestsState.get? key with
  | some table => exact ⟨rfl, rfl, h, fun _ _ ↦ rfl, .inl rfl⟩
  | none =>
    refine ⟨rfl, rfl, ?_, fun key' hne ↦ ?_, .inr ⟨?_, fun table hne ↦ ?_⟩⟩
    · simp
    · simp [Ne.symm hne]
    · exact Function.update_self ..
    · exact Function.update_of_ne hne ..

theorem runCallback_eq (r : Routing β) (c : Option Callback) :
    r.runCallback c = { r with tables := (r.runCallback c).tables } := by
  cases c <;> rfl

@[simp] theorem groups_runCallback (r : Routing β) (c : Option Callback) :
    (r.runCallback c).groups = r.groups := by
  cases c <;> rfl

@[simp] theorem groupCount_runCallback (r : Routing β) (c : Option Callback) :
    (r.runCallback c).groupCount = r.groupCount := by
  cases c <;> rfl

theorem get?_runCallback {c : Option Callback} {table x : ℕ} {id : String} :
    ((r.runCallback c).tables table).get? id = some x ↔
      (r.tables table).get? id = some x ∧ c ≠ some ⟨table, id⟩ := by
  cases c with
  | none => simp [runCallback]
  | some c =>
    obtain ⟨t, id'⟩ := c
    simp only [runCallback, Function.update_apply]
    split_ifs with ht
    · subst ht
      rw [Dict.get?_erase]
      split_ifs with hid
      · simp [hid]
      · simp [hid]
    · simp [Ne.symm ht]

theorem ready_markReadyRequests_cases {x : ℕ} (h : (r.markReadyRequests.groups x).ready = true) :
    (r.groups x).ready = true ∨
      r.markReadyRequests.isComplete (r.markReadyRequests.groups x) = true := by
  by_cases hx : x ∈ r.listed ∧ r.isComplete (r.groups x) = true
  · have hg : r.markReadyRequests.groups x = (r.groups x).markAsReady := if_pos hx
    rw [hg]
    exact .inr hx.2
  · have hg : r.markReadyRequests.groups x = r.groups x := if_neg hx
    rw [hg] at h
    exact .inl h

/-- A group with a request added, and no longer new. -/
def enter (r : Routing β) (g n : ℕ) (cid : Cid) (batch : β) : Routing β :=
  (r.modifyGroup g (·.add batch n cid)).modifyGroup g .clearNew

theorem groups_enter_self (r : Routing β) (g n : ℕ) (cid : Cid) (batch : β) :
    (r.enter g n cid batch).groups g = ((r.groups g).add batch n cid).clearNew := by
  simp [enter, modifyGroup]

theorem groups_enter_of_ne {x g : ℕ} (hx : x ≠ g) (n : ℕ) (cid : Cid) (batch : β) :
    (r.enter g n cid batch).groups x = r.groups x := by
  simp [enter, modifyGroup, hx]

theorem openTable_cases (r : Routing β) (key : Sid × String) :
    r.requestsState.get? key = some (r.openTable key).2 ∧ (r.openTable key).1 = r ∨
    r.requestsState.get? key = none ∧ (r.openTable key).2 = r.tableCount ∧
      (r.openTable key).1.tableCount = r.tableCount + 1 ∧
      (r.openTable key).1.tables (r.openTable key).2 = .empty := by
  unfold openTable
  cases h : r.requestsState.get? key with
  | some table => exact .inl ⟨rfl, rfl⟩
  | none => exact .inr ⟨rfl, rfl, rfl, Function.update_self ..⟩

section Join

variable {n : ℕ} {cid : Cid} {method requestId : String} {batch : β} {g : ℕ}
  {callback : Option Callback} {isNew : Bool}

/-- A request enters the first group of its table that is not ready, or leads a new group. -/
theorem join_eq (h : r.join n cid method requestId batch = some (r', g, callback, isNew)) :
    ∃ sid opened table, r.cidToSidMapping.get? cid = some sid ∧
      r.openTable (sid, method) = (opened, table) ∧
      ((g ∈ (opened.tables table).values ∧ (opened.groups g).ready = false ∧ callback = none ∧
          isNew = (opened.groups g).initializing ∧
          r' = (opened.enter g n cid batch).markReadyRequests) ∨
        ((∀ x ∈ (opened.tables table).values, (opened.groups x).ready = true) ∧
          g = opened.groupCount ∧ callback = some ⟨table, requestId⟩ ∧ isNew = true ∧
          r' = ((opened.newGroup table requestId sid).enter g n cid batch).markReadyRequests)) := by
  unfold join routeClientRequest at h
  cases hs : r.cidToSidMapping.get? cid with
  | none => simp [hs] at h
  | some sid =>
    simp only [hs] at h
    refine ⟨sid, (r.openTable (sid, method)).1, (r.openTable (sid, method)).2, rfl, rfl, ?_⟩
    cases hf : ((r.openTable (sid, method)).1.tables (r.openTable (sid, method)).2).values.find?
        fun x ↦ !((r.openTable (sid, method)).1.groups x).ready with
    | some g' =>
      rw [hf] at h
      simp only [Option.some.injEq, Prod.mk.injEq] at h
      obtain ⟨rfl, rfl, rfl, rfl⟩ := h
      refine .inl ⟨List.mem_of_find?_eq_some hf, by simpa using List.find?_some hf, rfl, ?_, rfl⟩
      simp [modifyGroup, Group.add]
    | none =>
      rw [hf] at h
      simp only [Option.some.injEq, Prod.mk.injEq] at h
      obtain ⟨rfl, rfl, rfl, rfl⟩ := h
      refine .inr ⟨fun x hx ↦ ?_, rfl, rfl, ?_, rfl⟩
      · simpa using List.find?_eq_none.mp hf x hx
      · simp [modifyGroup, newGroup, Group.add, Group.fresh]

/-- A request joins a listed group that is not ready, or leads a new group. -/
theorem join_cases (h : r.join n cid method requestId batch = some (r', g, callback, isNew)) :
    ∃ sid table, r.cidToSidMapping.get? cid = some sid ∧
      r'.requestsState.get? (sid, method) = some table ∧
      (∀ key', key' ≠ (sid, method) → r'.requestsState.get? key' = r.requestsState.get? key') ∧
      (∀ x ≠ g, (r.groups x).Later (r'.groups x)) ∧
      ((∃ id, (r.tables table).get? id = some g ∧ (r.groups g).ready = false ∧ callback = none ∧
          isNew = (r.groups g).initializing ∧ r'.tables = r.tables ∧ r'.groupCount = r.groupCount ∧
          r.requestsState.get? (sid, method) = some table ∧
          ((r.groups g).add batch n cid).clearNew.Later (r'.groups g)) ∨
        (g = r.groupCount ∧ callback = some ⟨table, requestId⟩ ∧ isNew = true ∧
          r'.groupCount = r.groupCount + 1 ∧
          (r'.tables table).get? requestId = some g ∧
          (∀ id x, (r'.tables table).get? id = some x →
            x = g ∧ id = requestId ∨ (r.tables table).get? id = some x ∧ (r.groups x).ready = true) ∧
          (∀ table' ≠ table, r'.tables table' = r.tables table') ∧
          ((Group.fresh sid).add batch n cid).clearNew.Later (r'.groups g))) := by
  obtain ⟨sid, opened, table, hs, hopened, hcase⟩ := join_eq h
  obtain ⟨hgroups, hcount, hkey, hother, htables⟩ := openTable_spec r (sid, method)
  have hcases := openTable_cases r (sid, method)
  rw [hopened] at hgroups hcount hkey hother htables hcases
  simp only at hgroups hcount hkey hother htables hcases
  have hlater : ∀ x, ((opened.enter g n cid batch).groups x).Later
      ((opened.enter g n cid batch).markReadyRequests.groups x) :=
    later_markReadyRequests (opened.enter g n cid batch)
  rcases hcase with ⟨hmem, hready, rfl, rfl, rfl⟩ | ⟨hall, rfl, rfl, rfl, rfl⟩
  · obtain ⟨id, hid⟩ := (Dict.mem_values_iff _).mp hmem
    -- a table that was just opened lists nothing, so this one was there
    rcases hcases with ⟨hkey', rfl⟩ | ⟨-, -, -, hempty⟩
    · refine ⟨sid, table, hs, hkey, hother, fun x hx ↦ ?_, .inl ?_⟩
      · have hl := hlater x
        rwa [groups_enter_of_ne hx] at hl
      · have hl := hlater g
        rw [groups_enter_self] at hl
        exact ⟨id, hid, hready, rfl, rfl, rfl, rfl, hkey', hl⟩
    · rw [hempty] at hid
      cases hid
  · have hlater := later_markReadyRequests
      ((opened.newGroup table requestId sid).enter opened.groupCount n cid batch)
    refine ⟨sid, table, hs, hkey, hother, fun x hx ↦ ?_, .inr ⟨hcount, rfl, rfl, ?_, ?_, ?_, ?_, ?_⟩⟩
    · have hl := hlater x
      rw [groups_enter_of_ne hx] at hl
      simpa only [newGroup, Function.update_of_ne hx, hgroups] using hl
    · exact congrArg (· + 1) hcount
    · change ((Function.update opened.tables table _) table).get? requestId = _
      rw [Function.update_self]
      simp
    · intro id x hx
      change ((Function.update opened.tables table _) table).get? id = some x at hx
      rw [Function.update_self, Dict.get?_insert] at hx
      split_ifs at hx with hid
      · cases hx
        exact .inl ⟨rfl, hid.symm⟩
      · have hready := hall x ((Dict.mem_values_iff _).mpr ⟨id, hx⟩)
        rw [hgroups] at hready
        rcases hcases with ⟨-, rfl⟩ | ⟨-, -, -, hempty⟩
        · exact .inr ⟨hx, hready⟩
        · rw [hempty] at hx
          cases hx
    · intro table' hne
      change Function.update opened.tables table _ table' = _
      rw [Function.update_of_ne hne]
      rcases htables with heq | ⟨-, hold⟩
      · rw [show opened = r from congrArg Prod.fst heq]
      · exact hold table' hne
    · have hl := hlater opened.groupCount
      rw [groups_enter_self] at hl
      simpa only [newGroup, Function.update_self] using hl

/-- A join touches no group that stays unlisted. -/
theorem groups_join_of_not_mem
    (h : r.join n cid method requestId batch = some (r', g, callback, isNew)) {x : ℕ} (hx : x ≠ g)
    (hl : x ∉ r'.listed) : r'.groups x = r.groups x := by
  obtain ⟨sid, opened, table, -, hopened, hcase⟩ := join_eq h
  have hgroups := (openTable_spec r (sid, method)).1
  rw [hopened] at hgroups
  rcases hcase with ⟨-, -, -, -, rfl⟩ | ⟨-, rfl, -, -, rfl⟩
  · rw [markReadyRequests_of_not_mem hl, groups_enter_of_ne hx, hgroups]
  · rw [markReadyRequests_of_not_mem hl, groups_enter_of_ne hx, ← hgroups]
    exact Function.update_of_ne hx ..

/-- What a join leaves as it was, and what it makes ready. -/
structure JoinFrame (r r' : Routing β) (g : ℕ) (key : Sid × String) (table : ℕ) (requestId : String) :
    Prop where
  processClientsAsBatch : r'.processClientsAsBatch = r.processClientsAsBatch
  cidToSidMapping : r'.cidToSidMapping = r.cidToSidMapping
  roundActiveClients : r'.roundActiveClients = r.roundActiveClients
  opened : r.requestsState.get? key = some table ∧ r'.tableCount = r.tableCount ∨
    r.requestsState.get? key = none ∧ table = r.tableCount ∧ r'.tableCount = r.tableCount + 1
  kept : ∀ id x, r.requestsState.get? key = some table → id ≠ requestId →
    (r.tables table).get? id = some x → (r'.tables table).get? id = some x
  complete : ∀ x ∈ r'.listed, r'.isComplete (r'.groups x) = true → (r'.groups x).ready = true
  ready : ∀ x, (r'.groups x).ready = true → x ≠ g ∧ (r.groups x).ready = true ∨
    r'.isComplete (r'.groups x) = true

theorem join_frame (h : r.join n cid method requestId batch = some (r', g, callback, isNew)) :
    ∃ sid table, r.cidToSidMapping.get? cid = some sid ∧
      r'.requestsState.get? (sid, method) = some table ∧
      JoinFrame r r' g (sid, method) table requestId := by
  obtain ⟨sid, opened, table, hs, hopened, hcase⟩ := join_eq h
  have hgroups := (openTable_spec r (sid, method)).1
  have hkey := (openTable_spec r (sid, method)).2.2.1
  have hcases := openTable_cases r (sid, method)
  have hframe : (r.openTable (sid, method)).1.processClientsAsBatch = r.processClientsAsBatch ∧
      (r.openTable (sid, method)).1.cidToSidMapping = r.cidToSidMapping ∧
      (r.openTable (sid, method)).1.roundActiveClients = r.roundActiveClients := by
    unfold openTable
    cases r.requestsState.get? (sid, method) <;> exact ⟨rfl, rfl, rfl⟩
  rw [hopened] at hgroups hkey hcases hframe
  have hready : ∀ r₀ : Routing β, (∀ x ≠ g, r₀.groups x = r.groups x) → (r₀.groups g).ready = false →
      ∀ x, (r₀.markReadyRequests.groups x).ready = true → x ≠ g ∧ (r.groups x).ready = true ∨
        r₀.markReadyRequests.isComplete (r₀.markReadyRequests.groups x) = true := by
    intro r₀ hne hg x hx
    rcases ready_markReadyRequests_cases hx with hx | hx
    · have hxg : x ≠ g := by
        rintro rfl
        rw [hg] at hx
        cases hx
      exact .inl ⟨hxg, hne x hxg ▸ hx⟩
    · exact .inr hx
  rcases hcase with ⟨-, hnready, -, -, rfl⟩ | ⟨-, rfl, -, -, rfl⟩
  · refine ⟨sid, table, hs, hkey, hframe.1, hframe.2.1, hframe.2.2, ?_, fun id x hk _ hx ↦ ?_,
      fun x hx hc ↦ ready_markReadyRequests hx hc, ?_⟩
    · rcases hcases with ⟨hk, rfl⟩ | ⟨hk, ht, hc, -⟩
      · exact .inl ⟨hk, rfl⟩
      · exact .inr ⟨hk, ht, hc⟩
    · rcases hcases with ⟨-, rfl⟩ | ⟨hnone, -⟩
      · exact hx
      · rw [hnone] at hk
        cases hk
    · refine hready _ (fun x hx ↦ ?_) ?_
      · rw [groups_enter_of_ne hx, hgroups]
      · rw [groups_enter_self]
        exact hnready
  · refine ⟨sid, table, hs, hkey, hframe.1, hframe.2.1, hframe.2.2, ?_, fun id x hk hne hx ↦ ?_,
      fun x hx hc ↦ ready_markReadyRequests hx hc, ?_⟩
    · rcases hcases with ⟨hk, rfl⟩ | ⟨hk, ht, hc, -⟩
      · exact .inl ⟨hk, rfl⟩
      · exact .inr ⟨hk, ht, hc⟩
    · rcases hcases with ⟨-, rfl⟩ | ⟨hnone, -⟩
      · change ((Function.update opened.tables table _) table).get? id = some x
        rw [Function.update_self, Dict.get?_insert, if_neg (Ne.symm hne)]
        exact hx
      · rw [hnone] at hk
        cases hk
    · refine hready _ (fun x hx ↦ ?_) ?_
      · rw [groups_enter_of_ne hx, ← hgroups]
        exact Function.update_of_ne hx ..
      · rw [groups_enter_self]
        simp [newGroup, Group.add, Group.clearNew, Group.fresh]

/-- Every group that a table lists has been made, is not new any more and is for the server model of
the key that lists it; no two keys share a table. -/
structure WellFormed (r : Routing β) : Prop where
  initialized : ∀ g < r.groupCount, (r.groups g).initializing = false
  born : ∀ table id g, (r.tables table).get? id = some g → g < r.groupCount
  opened : ∀ key table, r.requestsState.get? key = some table → table < r.tableCount
  unopened : ∀ table id g, (r.tables table).get? id = some g → table < r.tableCount
  distinct : ∀ key key' table, r.requestsState.get? key = some table →
    r.requestsState.get? key' = some table → key = key'
  owned : ∀ key table id g, r.requestsState.get? key = some table →
    (r.tables table).get? id = some g → (r.groups g).sid = key.1

namespace WellFormed

theorem of_start (batch : Bool) (mapping : Dict Cid Sid) (active : List Cid) :
    (start batch mapping active : Routing β).WellFormed where
  initialized g hg := absurd hg (Nat.not_lt_zero g)
  born _ _ _ hx := nomatch hx
  opened _ _ hk := nomatch hk
  unopened _ _ _ hx := nomatch hx
  distinct _ _ _ hk := nomatch hk
  owned _ _ _ _ hk := nomatch hk

theorem runCallback (h : r.WellFormed) (c : Option Callback) : (r.runCallback c).WellFormed := by
  have hframe : (r.runCallback c).requestsState = r.requestsState ∧
      (r.runCallback c).tableCount = r.tableCount := by
    cases c <;> exact ⟨rfl, rfl⟩
  constructor
  · simpa using h.initialized
  · intro table id g hx
    rw [groupCount_runCallback]
    exact h.born table id g (get?_runCallback.mp hx).1
  · simpa only [hframe.1, hframe.2] using h.opened
  · intro table id g hx
    rw [hframe.2]
    exact h.unopened table id g (get?_runCallback.mp hx).1
  · simpa only [hframe.1] using h.distinct
  · intro key table id g hk hx
    rw [groups_runCallback]
    exact h.owned key table id g (hframe.1 ▸ hk) (get?_runCallback.mp hx).1

/-- The tables that a new round no longer reaches keep their groups. -/
theorem reset (h : r.WellFormed) (mapping : Dict Cid Sid) (active : List Cid) :
    WellFormed { r with
      cidToSidMapping := mapping
      roundActiveClients := active
      requestsState := .empty } where
  initialized := h.initialized
  born := h.born
  opened _ _ hk := nomatch hk
  unopened := h.unopened
  distinct _ _ _ hk := nomatch hk
  owned _ _ _ _ hk := nomatch hk

/-- The group that a request joins is for the server model of its client, and it is made by this
request if it leads it. -/
theorem joined (h : r.WellFormed)
    (hj : r.join n cid method requestId batch = some (r', g, callback, isNew)) {sid : Sid}
    (hs : r.cidToSidMapping.get? cid = some sid) :
    (r'.groups g).sid = sid ∧ g < r'.groupCount ∧ r.groupCount ≤ r'.groupCount ∧
      (g < r.groupCount → (r.groups g).sid = sid ∧ isNew = false) ∧
      (isNew = true → g = r.groupCount ∧ (r'.groups g).cids = [cid]) := by
  obtain ⟨sid', table, hs', -, -, -, hcase⟩ := join_cases hj
  rw [hs] at hs'
  cases hs'
  rcases hcase with ⟨id, hx, -, -, hnew, -, hcount, hkey, hlater⟩ | ⟨hg, -, -, hcount, -, -, -, hlater⟩
  · have hg := h.born table id g hx
    have hsid := h.owned (sid, method) table id g hkey hx
    have hold : isNew = false := hnew.trans (h.initialized g hg)
    refine ⟨hlater.sid.trans hsid, hcount ▸ hg, hcount.ge, fun _ ↦ ⟨hsid, hold⟩, fun hn ↦ ?_⟩
    rw [hold] at hn
    cases hn
  · exact ⟨hlater.sid, by omega, by omega, fun hlt ↦ by omega, fun _ ↦ ⟨hg, hlater.cids⟩⟩

/-- The groups for other server models stay as they are, but for becoming ready. -/
theorem others (h : r.WellFormed)
    (hj : r.join n cid method requestId batch = some (r', g, callback, isNew)) {sid : Sid}
    (hs : r.cidToSidMapping.get? cid = some sid) {x : ℕ} (hx : x < r.groupCount)
    (hne : (r.groups x).sid ≠ sid) : (r.groups x).Later (r'.groups x) := by
  obtain ⟨-, -, -, -, -, hothers, -⟩ := join_cases hj
  apply hothers
  rintro rfl
  exact hne ((h.joined hj hs).2.2.2.1 hx).1

theorem join (h : r.WellFormed)
    (hj : r.join n cid method requestId batch = some (r', g, callback, isNew)) : r'.WellFormed := by
  obtain ⟨sid, table, hsid, hkey, hkeys, hothers, hcase⟩ := join_cases hj
  obtain ⟨sid', table', hsid', hkey', hframe⟩ := join_frame hj
  have hjoined := h.joined hj hsid
  rw [hsid] at hsid'
  cases hsid'
  rw [hkey] at hkey'
  cases hkey'
  -- the table of the request is an old one, or it has just been opened
  have htable : table < r'.tableCount ∧ r.tableCount ≤ r'.tableCount := by
    rcases hframe.opened with ⟨hold, hcount⟩ | ⟨-, rfl, hcount⟩
    · exact ⟨hcount ▸ h.opened _ _ hold, hcount.ge⟩
    · omega
  have hfresh : ∀ key, key ≠ (sid, method) → r.requestsState.get? key ≠ some table := by
    intro key hne hk
    rcases hframe.opened with ⟨hold, -⟩ | ⟨-, rfl, -⟩
    · exact hne (h.distinct _ _ _ hk hold)
    · exact absurd (h.opened _ _ hk) (Nat.lt_irrefl _)
  have hentry : ∀ t id x, (r'.tables t).get? id = some x →
      x = g ∧ t = table ∨ (r.tables t).get? id = some x := by
    intro t id x hx
    rcases hcase with ⟨-, -, -, -, -, htables, -⟩ | ⟨-, -, -, -, -, hold, hsame, -⟩
    · exact .inr (htables ▸ hx)
    · by_cases ht : t = table
      · subst ht
        rcases hold id x hx with ⟨rfl, -⟩ | ⟨hx, -⟩
        · exact .inl ⟨rfl, rfl⟩
        · exact .inr hx
      · exact .inr (hsame t ht ▸ hx)
  constructor
  · intro x hx
    by_cases hxg : x = g
    · subst hxg
      rcases hcase with ⟨-, -, -, -, -, -, -, -, hlater⟩ | ⟨-, -, -, -, -, -, -, hlater⟩
      · exact hlater.initializing
      · exact hlater.initializing
    · rw [(hothers x hxg).initializing]
      apply h.initialized
      rcases hcase with ⟨-, -, -, -, -, -, hcount, -⟩ | ⟨hg, -, -, hcount, -⟩
      · exact hcount ▸ hx
      · omega
  · intro t id x hx
    rcases hentry t id x hx with ⟨rfl, -⟩ | hx
    · exact hjoined.2.1
    · exact (h.born t id x hx).trans_le hjoined.2.2.1
  · intro key t hk
    by_cases hkk : key = (sid, method)
    · rw [hkk, hkey] at hk
      cases hk
      exact htable.1
    · rw [hkeys key hkk] at hk
      exact (h.opened key t hk).trans_le htable.2
  · intro t id x hx
    rcases hentry t id x hx with ⟨-, rfl⟩ | hx
    · exact htable.1
    · exact (h.unopened t id x hx).trans_le htable.2
  · intro key key' t hk hk'
    by_cases hkk : key = (sid, method) <;> by_cases hkk' : key' = (sid, method)
    · exact hkk.trans hkk'.symm
    · rw [hkk, hkey] at hk
      rw [hkeys key' hkk'] at hk'
      cases hk
      exact absurd hk' (hfresh key' hkk')
    · rw [hkk', hkey] at hk'
      rw [hkeys key hkk] at hk
      cases hk'
      exact absurd hk (hfresh key hkk)
    · rw [hkeys key hkk] at hk
      rw [hkeys key' hkk'] at hk'
      exact h.distinct key key' t hk hk'
  · intro key t id x hk hx
    by_cases hkk : key = (sid, method)
    · subst hkk
      rw [hkey] at hk
      cases hk
      by_cases hxg : x = g
      · exact hxg ▸ hjoined.1
      · rw [(hothers x hxg).sid]
        rcases hentry table id x hx with ⟨rfl, -⟩ | hx
        · exact absurd rfl hxg
        · rcases hframe.opened with ⟨hold, -⟩ | ⟨-, rfl, -⟩
          · exact h.owned _ _ _ _ hold hx
          · exact absurd (h.unopened _ _ _ hx) (Nat.lt_irrefl _)
    · rw [hkeys key hkk] at hk
      rcases hentry t id x hx with ⟨-, rfl⟩ | hx
      · exact absurd hk (hfresh key hkk)
      · have hown := h.owned key t id x hk hx
        by_cases hxg : x = g
        · -- the group that was joined is listed by one key only
          subst hxg
          rw [hjoined.1, ← hown]
          exact ((hjoined.2.2.2.1 (h.born t id x hx)).1).symm
        · rw [(hothers x hxg).sid]
          exact hown

end WellFormed

end Join

end Routing

end SplitFleet.RequestGroup
