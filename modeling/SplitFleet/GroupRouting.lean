import SplitFleet.Lib.Lists
import SplitFleet.RequestGroup

set_option autoImplicit false

namespace SplitFleet.GroupRouting

open Lib RequestGroup

/-- What a request's event is set to. -/
inductive Outcome (ρ : Type)
  | response (r : ρ)
  | error (text : String)
  deriving DecidableEq

/-- Where a call of `_compute_response` is. The leader of a group waits for its readiness, has the
group computed and hands out the responses; the others wait for their events. -/
inductive Pc (ρ : Type)
  | absent
  | leading (g : ℕ) (callback : Option Callback)
  | computing (g : ℕ) (callback : Option Callback)
  | computed (g : ℕ) (callback : Option Callback) (events : List ℕ) (responses : List ρ)
  | waiting (g : ℕ)
  | done (g : ℕ)

namespace Pc

variable {ρ : Type}

/-- The group that the request has joined. -/
def group : Pc ρ → Option ℕ
  | absent => none
  | leading g _ | computing g _ | computed g _ _ _ | waiting g | done g => some g

/-- The group whose outcomes the request still has to hand out. -/
def leads : Pc ρ → Option (ℕ × Option Callback)
  | leading g callback | computing g callback | computed g callback _ _ => some (g, callback)
  | absent | waiting _ | done _ => none

theorem group_of_leads {pc : Pc ρ} {g : ℕ} {callback : Option Callback}
    (h : pc.leads = some (g, callback)) : pc.group = some g := by
  cases pc <;> simp_all [leads, group]

end Pc

structure World (β ρ : Type) where
  routing : Routing β
  count : ℕ
  /-- The cid and the method of a request. -/
  request : ℕ → Option (Cid × String)
  batch : ℕ → Option β
  pcs : ℕ → Pc ρ
  /-- What was set on each event, oldest first. -/
  outcomes : ℕ → List (Outcome ρ)
  /-- What the server model answered for each batch of a group. -/
  computed : ℕ → List (β × ρ)
  /-- The exception that ended the leader of a group. -/
  failure : ℕ → Option String

variable {β ρ : Type}

inductive Action (β ρ : Type)
  | arrive (cid : Cid) (method requestId : String) (batch : β)
  | start (n : ℕ)
  | compute (n : ℕ) (responses : List ρ)
  | publish (n : ℕ)
  | fail (n : ℕ) (error : String)
  | take (n : ℕ)
  | leave (n : ℕ)
  | markDone (cid : Cid)
  | reset
  | reconfigure (mapping : Dict Cid Sid) (active : List Cid)

namespace World

def start (r : Routing β) : World β ρ :=
  ⟨r, 0, fun _ ↦ none, fun _ ↦ none, fun _ ↦ .absent, fun _ ↦ [], fun _ ↦ [], fun _ ↦ none⟩

def setPc (w : World β ρ) (n : ℕ) (pc : Pc ρ) : World β ρ :=
  { w with pcs := Function.update w.pcs n pc }

/-- A loop of `set_result` or `set_error` calls. -/
def deliver (w : World β ρ) (l : List (ℕ × Outcome ρ)) : World β ρ :=
  { w with outcomes := fun n ↦ w.outcomes n ++ valuesAt n l }

/-- The world after the locked section of a request that has joined the group `g`. -/
def arrived (w : World β ρ) (cid : Cid) (method : String) (batch : β) (r : Routing β) (g : ℕ)
    (callback : Option Callback) (isNew : Bool) : World β ρ :=
  { w with
    routing := r
    count := w.count + 1
    request := Function.update w.request w.count (some (cid, method))
    batch := Function.update w.batch w.count (some batch)
    pcs := Function.update w.pcs w.count (if isNew then .leading g callback else .waiting g) }

def arrive (w : World β ρ) (cid : Cid) (method requestId : String) (batch : β) :
    Option (World β ρ) :=
  match w.routing.join w.count cid method requestId batch with
  | none => none
  | some (r, g, callback, isNew) => some (w.arrived cid method batch r g callback isNew)

/-- `_compute_group`: the method answers with one response for each batch, in order. -/
def compute (w : World β ρ) (n g : ℕ) (callback : Option Callback) (responses : List ρ) :
    Option (World β ρ) :=
  let (batches, events) := (w.routing.groups g).getData
  if responses.length = batches.length then
    some ({ w with computed := Function.update w.computed g (batches.zip responses) }.setPc n
      (.computed g callback events responses))
  else none

def publish (w : World β ρ) (n g : ℕ) (callback : Option Callback) (events : List ℕ)
    (responses : List ρ) : World β ρ :=
  { (w.deliver ((events.zip responses).map fun p ↦ (p.1, .response p.2))).setPc n (.waiting g) with
    routing := w.routing.runCallback callback }

/-- The leader leaves by an exception: every event of the group gets it, the callback runs. -/
def fail (w : World β ρ) (n g : ℕ) (callback : Option Callback) (error : String) : World β ρ :=
  { (w.deliver ((w.routing.groups g).events.map fun e ↦ (e, .error error))).setPc n (.done g) with
    routing := w.routing.runCallback callback
    failure := Function.update w.failure g (some error) }

end World

def step (w : World β ρ) : Action β ρ → Option (World β ρ)
  | .arrive cid method requestId batch => w.arrive cid method requestId batch
  | .start n =>
    match w.pcs n with
    | .leading g callback =>
      if (w.routing.groups g).ready then some (w.setPc n (.computing g callback)) else none
    | _ => none
  | .compute n responses =>
    match w.pcs n with
    | .computing g callback => w.compute n g callback responses
    | _ => none
  | .publish n =>
    match w.pcs n with
    | .computed g callback events responses => some (w.publish n g callback events responses)
    | _ => none
  | .fail n error =>
    match w.pcs n with
    | .leading g callback | .computing g callback | .computed g callback _ _ =>
      some (w.fail n g callback error)
    | _ => none
  | .take n =>
    match w.pcs n with
    | .waiting g => if w.outcomes n = [] then none else some (w.setPc n (.done g))
    | _ => none
  | .leave n => -- a cancelled `event.wait()` sets nothing
    match w.pcs n with
    | .waiting g => some (w.setPc n (.done g))
    | _ => none
  | .markDone cid => (w.routing.markClientAsDone cid).map fun r ↦ { w with routing := r }
  | .reset => some { w with routing := { w.routing with requestsState := .empty } }
  | .reconfigure mapping active => some { w with routing := { w.routing with
      cidToSidMapping := mapping
      roundActiveClients := active } }

/-- The worlds that some order of atomic steps reaches from a servicer without requests. -/
inductive Reachable : World β ρ → Prop
  | start (batch : Bool) (mapping : Dict Cid Sid) (active : List Cid) :
      Reachable (.start (.start batch mapping active))
  | step {w w' : World β ρ} (a : Action β ρ) (h : Reachable w) (hs : step w a = some w') : Reachable w'

/-! ### The invariant -/

namespace World

theorem pcs_setPc_self (w : World β ρ) (n : ℕ) (pc : Pc ρ) : (w.setPc n pc).pcs n = pc :=
  Function.update_self ..

theorem pcs_setPc_of_ne {w : World β ρ} {n m : ℕ} {pc : Pc ρ} (h : m ≠ n) :
    (w.setPc n pc).pcs m = w.pcs m :=
  Function.update_of_ne h ..

def events (w : World β ρ) (g : ℕ) : List ℕ := (w.routing.groups g).events

def Led (w : World β ρ) (g : ℕ) : Prop := ∃ n callback, (w.pcs n).leads = some (g, callback)

/-- Every request of the group has one outcome: the group's exception, or its own share of what the
server model computed, the batches and responses being those of the requests in some order. -/
def Answered (w : World β ρ) (g : ℕ) : Prop :=
  (∃ error, w.failure g = some error ∧ ∀ n ∈ w.events g, w.outcomes n = [.error error]) ∨
  ∃ order : List ℕ, order.Perm (w.events g) ∧
    (w.computed g).map (fun p ↦ (some p.1, [Outcome.response p.2])) =
      order.map fun n ↦ (w.batch n, w.outcomes n)

/-- What a leader knows about its group. -/
def Stage (w : World β ρ) : Pc ρ → Prop
  | .computing g _ => (w.routing.groups g).ready = true
  | .computed g _ events responses =>
    (w.routing.groups g).ready = true ∧ events = (w.routing.groups g).getData.2 ∧
      responses.length = (w.routing.groups g).getData.1.length ∧
      w.computed g = (w.routing.groups g).getData.1.zip responses
  | _ => True

theorem Answered.congr {w w' : World β ρ} {g : ℕ} (h : w.Answered g)
    (he : w'.events g = w.events g) (hf : w'.failure g = w.failure g)
    (hc : w'.computed g = w.computed g)
    (ho : ∀ n ∈ w.events g, w'.batch n = w.batch n ∧ w'.outcomes n = w.outcomes n) :
    w'.Answered g := by
  rcases h with ⟨error, hw, hall⟩ | ⟨order, hperm, hmap⟩
  · refine .inl ⟨error, hf.trans hw, fun n hn ↦ ?_⟩
    rw [he] at hn
    rw [(ho n hn).2, hall n hn]
  · refine .inr ⟨order, he ▸ hperm, ?_⟩
    rw [hc, hmap]
    refine List.map_congr_left fun n hn ↦ ?_
    obtain ⟨hb, ho⟩ := ho n (hperm.mem_iff.mp hn)
    rw [hb, ho]

/-- While its group stays as it is, a leader keeps what it knows. -/
theorem Stage.later {w w' : World β ρ} {pc : Pc ρ} (h : w.Stage pc)
    (hg : ∀ x, pc.group = some x → (w.routing.groups x).ready = true →
      (w.routing.groups x).Later (w'.routing.groups x))
    (hc : w'.computed = w.computed) : w'.Stage pc := by
  cases pc with
  | computing g c => exact (hg g rfl h).ready h
  | computed g c events responses =>
    obtain ⟨hr, he, hl, hw⟩ := h
    refine ⟨(hg g rfl hr).ready hr, ?_⟩
    rw [(hg g rfl hr).getData, hc]
    exact ⟨he, hl, hw⟩
  | absent => trivial
  | leading => trivial
  | waiting => trivial
  | done => trivial

end World

structure Sound (w : World β ρ) : Prop where
  fresh : ∀ n, w.count ≤ n → w.pcs n = .absent ∧ w.outcomes n = []
  joined : ∀ n < w.count, ∃ g, (w.pcs n).group = some g
  unborn : ∀ g, w.routing.groupCount ≤ g → w.events g = []
  begun : ∀ g < w.routing.groupCount, (w.routing.groups g).initializing = false
  member : ∀ g n, n ∈ w.events g ↔ (w.pcs n).group = some g
  nodup : ∀ g, (w.events g).Nodup
  aligned : ∀ g, (w.routing.groups g).cids.length = (w.events g).length ∧
    (w.routing.groups g).batches.map some = (w.events g).map w.batch
  leader : ∀ n m g c c', (w.pcs n).leads = some (g, c) → (w.pcs m).leads = some (g, c') → n = m
  listed : ∀ table id g, (w.routing.tables table).get? id = some g →
    ∃ n, (w.pcs n).leads = some (g, some ⟨table, id⟩)
  pending : ∀ g, w.Led g → ∀ n ∈ w.events g, w.outcomes n = []
  answered : ∀ g < w.routing.groupCount, ¬w.Led g → w.Answered g
  stage : ∀ n, w.Stage (w.pcs n)

namespace Sound

variable {w w' : World β ρ}

theorem of_start (batch : Bool) (mapping : Dict Cid Sid) (active : List Cid) :
    Sound (.start (.start batch mapping active) : World β ρ) where
  fresh _ _ := ⟨rfl, rfl⟩
  joined _ hn := absurd hn (Nat.not_lt_zero _)
  unborn _ _ := rfl
  begun _ hg := absurd hg (Nat.not_lt_zero _)
  member g n := by simp [World.events, World.start, Routing.start, Group.fresh, Pc.group]
  nodup _ := List.nodup_nil
  aligned _ := ⟨rfl, rfl⟩
  leader n m g c c' h := nomatch h
  listed table id g h := nomatch h
  pending g h := by
    obtain ⟨n, c, h⟩ := h
    cases h
  answered _ hg := absurd hg (Nat.not_lt_zero _)
  stage _ := trivial

theorem born (h : Sound w) {n g : ℕ} (hn : (w.pcs n).group = some g) : g < w.routing.groupCount := by
  by_contra hg
  have hmem := (h.member g n).mpr hn
  rw [h.unborn g (by omega)] at hmem
  cases hmem

/-- Steps that leave the requests alone and at most make groups ready. -/
theorem later (h : Sound w) {r : Routing β} (hg : ∀ x, (w.routing.groups x).Later (r.groups x))
    (ht : r.tables = w.routing.tables) (hc : r.groupCount = w.routing.groupCount) :
    Sound { w with routing := r } := by
  have he : ∀ g, World.events { w with routing := r } g = w.events g := fun g ↦ (hg g).events
  refine
    { fresh := h.fresh
      joined := h.joined
      leader := h.leader
      unborn := fun g hle ↦ (he g).trans (h.unborn g (hc ▸ hle))
      begun := fun g hlt ↦ (hg g).initializing.trans (h.begun g (hc ▸ hlt))
      member := fun g n ↦ ?_
      nodup := fun g ↦ ?_
      aligned := fun g ↦ ?_
      listed := fun table id g hl ↦ h.listed table id g (ht ▸ hl)
      pending := fun g hl n hn ↦ ?_
      answered := fun g hlt hl ↦
        (h.answered g (hc ▸ hlt) hl).congr (he g) rfl rfl fun _ _ ↦ ⟨rfl, rfl⟩
      stage := fun n ↦ ?_ }
  · rw [he]
    exact h.member g n
  · rw [he]
    exact h.nodup g
  · rw [he, (hg g).cids, (hg g).batches]
    exact h.aligned g
  · rw [he] at hn
    exact h.pending g hl n hn
  · exact (h.stage n).later (fun x _ _ ↦ hg x) rfl

/-- Steps of one request that keep its group and its leadership. -/
theorem setPc (h : Sound w) {n : ℕ} {pc : Pc ρ} (hn : n < w.count)
    (hgroup : pc.group = (w.pcs n).group) (hleads : pc.leads = (w.pcs n).leads)
    (hstage : w.Stage pc) : Sound (w.setPc n pc) := by
  have hg : ∀ m, ((w.setPc n pc).pcs m).group = (w.pcs m).group := by
    intro m
    by_cases hm : m = n
    · subst hm
      rw [World.pcs_setPc_self, hgroup]
    · rw [World.pcs_setPc_of_ne hm]
  have hl : ∀ m, ((w.setPc n pc).pcs m).leads = (w.pcs m).leads := by
    intro m
    by_cases hm : m = n
    · subst hm
      rw [World.pcs_setPc_self, hleads]
    · rw [World.pcs_setPc_of_ne hm]
  have hled : ∀ g, (w.setPc n pc).Led g ↔ w.Led g := fun g ↦ by simp only [World.Led, hl]
  refine
    { fresh := fun m hm ↦ ?_
      joined := fun m hm ↦ by simpa only [hg] using h.joined m hm
      unborn := h.unborn
      begun := h.begun
      member := fun g m ↦ (h.member g m).trans (by rw [hg])
      nodup := h.nodup
      aligned := h.aligned
      leader := fun m m' g c c' hm hm' ↦ h.leader m m' g c c' (hl m ▸ hm) (hl m' ▸ hm')
      listed := fun table id g hx ↦ ?_
      pending := fun g hx ↦ h.pending g ((hled g).mp hx)
      answered := fun g hlt hx ↦ h.answered g hlt (fun hy ↦ hx ((hled g).mpr hy))
      stage := fun m ↦ ?_ }
  · have hne : m ≠ n := by
      rintro rfl
      exact absurd hn (Nat.not_lt.mpr hm)
    rw [World.pcs_setPc_of_ne hne]
    exact h.fresh m hm
  · obtain ⟨m, hm⟩ := h.listed table id g hx
    exact ⟨m, (hl m).trans hm⟩
  · by_cases hm : m = n
    · subst hm
      rw [World.pcs_setPc_self]
      exact hstage
    · rw [World.pcs_setPc_of_ne hm]
      exact h.stage m

theorem lt_count (h : Sound w) {n g : ℕ} (hn : (w.pcs n).group = some g) : n < w.count := by
  by_contra hc
  rw [(h.fresh n (by omega)).1] at hn
  cases hn

theorem compute (h : Sound w) {n g : ℕ} {callback : Option Callback} {responses : List ρ}
    (hn : w.pcs n = .computing g callback)
    (hs : w.compute n g callback responses = some w') : Sound w' := by
  have hled : (w.pcs n).leads = some (g, callback) := by rw [hn]; rfl
  have hlt : n < w.count := h.lt_count (Pc.group_of_leads hled)
  have hready : (w.routing.groups g).ready = true := by
    have hst := h.stage n
    rw [hn] at hst
    exact hst
  simp only [World.compute] at hs
  split_ifs at hs with hlen
  obtain rfl := Option.some.inj hs
  have h₁ : Sound { w with
      computed := Function.update w.computed g ((w.routing.groups g).getData.1.zip responses) } := by
    refine { h with answered := fun x hx hnled ↦ ?_, stage := fun m ↦ ?_ }
    · have hne : x ≠ g := by
        rintro rfl
        exact hnled ⟨n, callback, hled⟩
      exact (h.answered x hx hnled).congr rfl rfl (Function.update_of_ne hne ..) fun _ _ ↦ ⟨rfl, rfl⟩
    · have hst := h.stage m
      cases hp : w.pcs m with
      | computed x c events rs =>
        rw [hp] at hst
        obtain ⟨hr, he, hl, hw⟩ := hst
        have hne : x ≠ g := by
          rintro rfl
          have hm : (w.pcs m).leads = some (x, c) := by rw [hp]; rfl
          obtain rfl := h.leader m n x c callback hm hled
          rw [hn] at hp
          cases hp
        exact ⟨hr, he, hl, (Function.update_of_ne hne ..).trans hw⟩
      | computing x c =>
        rw [hp] at hst
        exact hst
      | absent => trivial
      | leading => trivial
      | waiting => trivial
      | done => trivial
  refine h₁.setPc hlt ?_ ?_ ⟨hready, rfl, hlen, Function.update_self ..⟩
  · change _ = (w.pcs n).group
    rw [hn]
    rfl
  · change _ = (w.pcs n).leads
    rw [hn]
    rfl

end Sound

/-- What an arriving request does: it is added to one group, which either was there and not ready, or
is new and led by the request. -/
structure Arrival (w w' : World β ρ) (cid : Cid) (batch : β) (g : ℕ) : Prop where
  count : w'.count = w.count + 1
  request : w'.batch = Function.update w.batch w.count (some batch)
  outcomes : w'.outcomes = w.outcomes
  computed : w'.computed = w.computed
  failure : w'.failure = w.failure
  others : ∀ x ≠ g, (w.routing.groups x).Later (w'.routing.groups x)
  events : w'.events g = w.events g ++ [w.count]
  batches : (w'.routing.groups g).batches = (w.routing.groups g).batches ++ [batch]
  cids : (w'.routing.groups g).cids = (w.routing.groups g).cids ++ [cid]
  initializing : (w'.routing.groups g).initializing = false
  route : (w.Led g ∧ (w.routing.groups g).ready = false ∧
      w'.pcs = Function.update w.pcs w.count (.waiting g) ∧
      w'.routing.tables = w.routing.tables ∧ w'.routing.groupCount = w.routing.groupCount) ∨
    ∃ table id, g = w.routing.groupCount ∧
      w'.pcs = Function.update w.pcs w.count (.leading g (some ⟨table, id⟩)) ∧
      w'.routing.groupCount = w.routing.groupCount + 1 ∧
      ∀ table' id' x, (w'.routing.tables table').get? id' = some x →
        (x = g ∧ table' = table ∧ id' = id) ∨ (w.routing.tables table').get? id' = some x

theorem arrival_of_join {w : World β ρ} (h : Sound w) {cid : Cid} {method requestId : String} {batch : β}
    {r : Routing β} {g : ℕ} {callback : Option Callback} {isNew : Bool}
    (hj : w.routing.join w.count cid method requestId batch = some (r, g, callback, isNew)) :
    Arrival w (w.arrived cid method batch r g callback isNew) cid batch g := by
  obtain ⟨sid, table, -, -, -, hothers, hcase⟩ := Routing.join_cases hj
  rcases hcase with ⟨id, hid, hready, rfl, hnew, htables, hcount, -, hlater⟩ |
    ⟨hg, rfl, rfl, hcount, -, hold, hsame, hlater⟩
  · obtain ⟨m, hm⟩ := h.listed table id g hid
    have hinit := h.begun g (h.born (Pc.group_of_leads hm))
    refine ⟨rfl, rfl, rfl, rfl, rfl, hothers, hlater.events, hlater.batches, hlater.cids,
      hlater.initializing, .inl ⟨⟨m, _, hm⟩, hready, ?_, htables, hcount⟩⟩
    rw [hnew, hinit]
    rfl
  · obtain ⟨hcids, hbatches⟩ := h.aligned g
    have hnone : w.events g = [] := h.unborn g hg.ge
    rw [hnone] at hcids hbatches
    have hb := List.map_eq_nil_iff.mp hbatches
    have hc := List.eq_nil_of_length_eq_zero hcids
    refine ⟨rfl, rfl, rfl, rfl, rfl, hothers, ?_, ?_, ?_, hlater.initializing,
      .inr ⟨table, requestId, hg, rfl, hcount, fun table' id' x hx ↦ ?_⟩⟩
    · rw [hnone]
      exact hlater.events
    · rw [hb]
      exact hlater.batches
    · rw [hc]
      exact hlater.cids
    · by_cases ht : table' = table
      · subst ht
        rcases hold id' x hx with ⟨hxg, hid⟩ | ⟨hx, -⟩
        · exact .inl ⟨hxg, rfl, hid⟩
        · exact .inr hx
      · exact .inr (hsame table' ht ▸ hx)

theorem arrival {w w' : World β ρ} (h : Sound w) {cid : Cid} {method requestId : String} {batch : β}
    (hs : w.arrive cid method requestId batch = some w') : ∃ g, Arrival w w' cid batch g := by
  unfold World.arrive at hs
  cases hj : w.routing.join w.count cid method requestId batch with
  | none => rw [hj] at hs; cases hs
  | some j =>
    rw [hj] at hs
    obtain rfl := Option.some.inj hs
    exact ⟨_, arrival_of_join h hj⟩

namespace Arrival

variable {w w' : World β ρ} {cid : Cid} {batch : β} {g : ℕ}

theorem pcs_of_ne (A : Arrival w w' cid batch g) {m : ℕ} (hm : m ≠ w.count) : w'.pcs m = w.pcs m := by
  rcases A.route with ⟨-, -, hpcs, -⟩ | ⟨_, _, -, hpcs, -⟩ <;> rw [hpcs, Function.update_of_ne hm]

theorem group_self (A : Arrival w w' cid batch g) : (w'.pcs w.count).group = some g := by
  rcases A.route with ⟨-, -, hpcs, -⟩ | ⟨_, _, -, hpcs, -⟩ <;> rw [hpcs, Function.update_self] <;> rfl

theorem stage_self (A : Arrival w w' cid batch g) : w'.Stage (w'.pcs w.count) := by
  rcases A.route with ⟨-, -, hpcs, -⟩ | ⟨_, _, -, hpcs, -⟩ <;> rw [hpcs, Function.update_self] <;>
    trivial

/-- A request leads a group on arrival only if the group is new. -/
theorem eq_groupCount (A : Arrival w w' cid batch g) {x : ℕ} {c : Option Callback}
    (hl : (w'.pcs w.count).leads = some (x, c)) : x = g ∧ g = w.routing.groupCount := by
  rcases A.route with ⟨-, -, hpcs, -⟩ | ⟨_, _, hg, hpcs, -⟩ <;>
    rw [hpcs, Function.update_self] at hl <;> cases hl
  exact ⟨rfl, hg⟩

theorem ne_of_ready (A : Arrival w w' cid batch g) {x : ℕ} (hx : x < w.routing.groupCount)
    (hr : (w.routing.groups x).ready = true) : x ≠ g := by
  rintro rfl
  rcases A.route with ⟨-, hready, -⟩ | ⟨_, _, hg, -⟩
  · rw [hready] at hr
    cases hr
  · omega

theorem led_of_led (h : Sound w) (A : Arrival w w' cid batch g) {x : ℕ} (hl : w.Led x) : w'.Led x := by
  obtain ⟨m, c, hm⟩ := hl
  have hne : m ≠ w.count := (h.lt_count (Pc.group_of_leads hm)).ne
  exact ⟨m, c, A.pcs_of_ne hne ▸ hm⟩

theorem led (h : Sound w) (A : Arrival w w' cid batch g) : w'.Led g := by
  rcases A.route with ⟨hled, -⟩ | ⟨_, _, -, hpcs, -⟩
  · exact A.led_of_led h hled
  · exact ⟨w.count, _, by rw [hpcs, Function.update_self]; rfl⟩

theorem led_or (A : Arrival w w' cid batch g) {x : ℕ} (hl : w'.Led x) :
    w.Led x ∨ x = g ∧ g = w.routing.groupCount := by
  obtain ⟨m, c, hm⟩ := hl
  by_cases hne : m = w.count
  · subst hne
    exact .inr (A.eq_groupCount hm)
  · exact .inl ⟨m, c, A.pcs_of_ne hne ▸ hm⟩

theorem born_or (A : Arrival w w' cid batch g) {x : ℕ} (hx : x < w'.routing.groupCount) :
    x < w.routing.groupCount ∨ x = g := by
  rcases A.route with ⟨-, -, -, -, hc⟩ | ⟨_, _, hg, -, hc, -⟩ <;> omega

theorem born (h : Sound w) (A : Arrival w w' cid batch g) {x : ℕ} (hx : x < w.routing.groupCount ∨ x = g) :
    x < w'.routing.groupCount := by
  rcases A.route with ⟨⟨m, c, hm⟩, -, -, -, hc⟩ | ⟨_, _, hg, -, hc, -⟩
  · have hb := h.born (Pc.group_of_leads hm)
    omega
  · omega

theorem listed (h : Sound w) (A : Arrival w w' cid batch g) {table x : ℕ} {id : String}
    (hx : (w'.routing.tables table).get? id = some x) :
    ∃ n, (w'.pcs n).leads = some (x, some ⟨table, id⟩) := by
  have hold : (w.routing.tables table).get? id = some x →
      ∃ n, (w'.pcs n).leads = some (x, some ⟨table, id⟩) := by
    intro hx
    obtain ⟨m, hm⟩ := h.listed table id x hx
    exact ⟨m, A.pcs_of_ne (h.lt_count (Pc.group_of_leads hm)).ne ▸ hm⟩
  rcases A.route with ⟨-, -, -, htables, -⟩ | ⟨table', id', hg, hpcs, -, htables⟩
  · rw [htables] at hx
    exact hold hx
  · rcases htables table id x hx with ⟨rfl, rfl, rfl⟩ | hx
    · exact ⟨w.count, by rw [hpcs, Function.update_self]; rfl⟩
    · exact hold hx

theorem events_of_ne (A : Arrival w w' cid batch g) {x : ℕ} (hx : x ≠ g) : w'.events x = w.events x :=
  (A.others x hx).events

end Arrival

theorem Sound.arrive {w w' : World β ρ} (h : Sound w) {cid : Cid} {batch : β} {g : ℕ}
    (A : Arrival w w' cid batch g) : Sound w' := by
  have hold : ∀ x m, m ∈ w.events x → m ≠ w.count := fun x m hm ↦
    (h.lt_count ((h.member x m).mp hm)).ne
  have hself : ∀ x, w.count ∉ w.events x := fun x hm ↦ hold x _ hm rfl
  have hbatch : ∀ x, ∀ m ∈ w.events x, w'.batch m = w.batch m := fun x m hm ↦ by
    rw [A.request, Function.update_of_ne (hold x m hm)]
  refine
    { fresh := fun m hm ↦ ?_
      joined := fun m hm ↦ ?_
      unborn := fun x hx ↦ ?_
      begun := fun x hx ↦ ?_
      member := fun x m ↦ ?_
      nodup := fun x ↦ ?_
      aligned := fun x ↦ ?_
      leader := fun m m' x c c' hm hm' ↦ ?_
      listed := fun table id x hx ↦ A.listed h hx
      pending := fun x hx m hm ↦ ?_
      answered := fun x hx hled ↦ ?_
      stage := fun m ↦ ?_ }
  · rw [A.count] at hm
    rw [A.pcs_of_ne (by omega), A.outcomes]
    exact h.fresh m (by omega)
  · by_cases hmc : m = w.count
    · exact ⟨g, hmc ▸ A.group_self⟩
    · rw [A.count] at hm
      rw [A.pcs_of_ne hmc]
      exact h.joined m (by omega)
  · have hne : x ≠ g := by
      rintro rfl
      exact absurd (A.born h (.inr rfl)) (Nat.not_lt.mpr hx)
    rw [A.events_of_ne hne]
    refine h.unborn x (Nat.le_of_not_lt fun hlt ↦ ?_)
    exact absurd (A.born h (.inl hlt)) (Nat.not_lt.mpr hx)
  · by_cases hxg : x = g
    · exact hxg ▸ A.initializing
    · rw [(A.others x hxg).initializing]
      exact h.begun x ((A.born_or hx).resolve_right hxg)
  · by_cases hm : m = w.count
    · subst hm
      rw [A.group_self]
      by_cases hxg : x = g
      · subst hxg
        simp [A.events]
      · rw [A.events_of_ne hxg]
        exact ⟨fun hm ↦ absurd hm (hself x), fun he ↦ absurd (Option.some.inj he).symm hxg⟩
    · rw [A.pcs_of_ne hm, ← h.member x m]
      by_cases hxg : x = g
      · subst hxg
        simp [A.events, hm]
      · rw [A.events_of_ne hxg]
  · by_cases hxg : x = g
    · subst hxg
      rw [A.events]
      exact (h.nodup x).append (List.nodup_singleton _) (List.disjoint_singleton.mpr (hself x))
    · rw [A.events_of_ne hxg]
      exact h.nodup x
  · obtain ⟨hc, hb⟩ := h.aligned x
    have hmap : (w.events x).map w'.batch = (w.events x).map w.batch :=
      List.map_congr_left (hbatch x)
    by_cases hxg : x = g
    · subst hxg
      rw [A.events, A.cids, A.batches, List.map_append, List.map_append, hmap, ← hb, A.request]
      simp [hc]
    · rw [A.events_of_ne hxg, (A.others x hxg).cids, (A.others x hxg).batches, hmap]
      exact ⟨hc, hb⟩
  · -- a group that is already led is not the new one
    have hfresh : ∀ k y d d', (w'.pcs w.count).leads = some (y, d) → (w.pcs k).leads = some (y, d') → False := by
      intro k y d d' hy hk
      obtain ⟨rfl, hg⟩ := A.eq_groupCount hy
      have := h.born (Pc.group_of_leads hk)
      omega
    by_cases hmn : m = w.count <;> by_cases hmn' : m' = w.count
    · rw [hmn, hmn']
    · subst hmn
      rw [A.pcs_of_ne hmn'] at hm'
      exact (hfresh _ _ _ _ hm hm').elim
    · subst hmn'
      rw [A.pcs_of_ne hmn] at hm
      exact (hfresh _ _ _ _ hm' hm).elim
    · rw [A.pcs_of_ne hmn] at hm
      rw [A.pcs_of_ne hmn'] at hm'
      exact h.leader m m' x c c' hm hm'
  · have hm' : m ∈ w.events x ∨ m = w.count := by
      by_cases hxg : x = g
      · subst hxg
        simpa [A.events] using hm
      · exact .inl (A.events_of_ne hxg ▸ hm)
    rw [A.outcomes]
    rcases hm' with hm' | rfl
    · rcases A.led_or hx with hx | ⟨rfl, hg⟩
      · exact h.pending x hx m hm'
      · rw [h.unborn x hg.ge] at hm'
        cases hm'
    · exact (h.fresh _ le_rfl).2
  · have hne : x ≠ g := by
      rintro rfl
      exact hled (A.led h)
    refine (h.answered x ((A.born_or hx).resolve_right hne) fun hl ↦ hled (A.led_of_led h hl)).congr
      (A.events_of_ne hne) (congrFun A.failure x) (congrFun A.computed x) fun m hm ↦ ?_
    exact ⟨hbatch x m hm, congrFun A.outcomes m⟩
  · by_cases hm : m = w.count
    · exact hm ▸ A.stage_self
    · rw [A.pcs_of_ne hm]
      refine (h.stage m).later (fun x hx hr ↦ A.others x ?_) A.computed
      exact A.ne_of_ready (h.born hx) hr

/-- A leader leaves and its callback runs, after every request of its group has got its outcome. -/
theorem Sound.finish {w w' : World β ρ} (h : Sound w) {n g : ℕ} {callback : Option Callback}
    (hn : (w.pcs n).leads = some (g, callback)) (hr : w'.routing = w.routing.runCallback callback)
    (hc : w'.count = w.count) (hb : w'.batch = w.batch) (hcomp : w'.computed = w.computed)
    (hpcs : ∀ m ≠ n, w'.pcs m = w.pcs m) (hself : w'.pcs n = .waiting g ∨ w'.pcs n = .done g)
    (hout : ∀ m, m ∉ w.events g → w'.outcomes m = w.outcomes m)
    (hfail : ∀ x ≠ g, w'.failure x = w.failure x) (hans : w'.Answered g) : Sound w' := by
  have hlt : n < w.count := h.lt_count (Pc.group_of_leads hn)
  have he : ∀ x, w'.events x = w.events x := fun x ↦ by
    rw [World.events, hr, Routing.groups_runCallback, World.events]
  have hgroups : w'.routing.groups = w.routing.groups := by rw [hr, Routing.groups_runCallback]
  have hcount : w'.routing.groupCount = w.routing.groupCount := by
    rw [hr, Routing.groupCount_runCallback]
  have hgroup : ∀ m, (w'.pcs m).group = (w.pcs m).group := by
    intro m
    by_cases hm : m = n
    · subst hm
      rw [Pc.group_of_leads hn]
      rcases hself with hself | hself <;> rw [hself] <;> rfl
    · rw [hpcs m hm]
  have hnone : (w'.pcs n).leads = none := by
    rcases hself with hself | hself <;> rw [hself] <;> rfl
  have hleads : ∀ m x c, (w'.pcs m).leads = some (x, c) ↔ (w.pcs m).leads = some (x, c) ∧ x ≠ g := by
    intro m x c
    by_cases hm : m = n
    · subst hm
      rw [hnone, hn]
      refine ⟨nofun, fun hl ↦ ?_⟩
      obtain ⟨hl, hne⟩ := hl
      cases hl
      exact absurd rfl hne
    · rw [hpcs m hm]
      refine ⟨fun hl ↦ ⟨hl, ?_⟩, And.left⟩
      rintro rfl
      exact hm (h.leader m n x c callback hl hn)
  have hled : ∀ x, w'.Led x ↔ w.Led x ∧ x ≠ g := fun x ↦ by simp [World.Led, hleads]
  have hdisj : ∀ x ≠ g, ∀ m ∈ w.events x, w'.outcomes m = w.outcomes m := by
    intro x hx m hm
    refine hout m fun hm' ↦ hx ?_
    have h₁ := (h.member x m).mp hm
    rw [(h.member g m).mp hm'] at h₁
    exact (Option.some.inj h₁).symm
  refine
    { fresh := fun m hm ↦ ?_
      joined := fun m hm ↦ by simpa only [hgroup] using h.joined m (hc ▸ hm)
      unborn := fun x hx ↦ (he x).trans (h.unborn x (hcount ▸ hx))
      begun := fun x hx ↦ hgroups ▸ h.begun x (hcount ▸ hx)
      member := fun x m ↦ ?_
      nodup := fun x ↦ he x ▸ h.nodup x
      aligned := fun x ↦ ?_
      leader := fun m m' x c c' hm hm' ↦
        h.leader m m' x c c' ((hleads m x c).mp hm).1 ((hleads m' x c').mp hm').1
      listed := fun table id x hx ↦ ?_
      pending := fun x hx m hm ↦ ?_
      answered := fun x hx hx' ↦ ?_
      stage := fun m ↦ ?_ }
  · rw [hc] at hm
    have hm' : m ∉ w.events g := fun hm' ↦ by
      have := h.lt_count ((h.member g m).mp hm')
      omega
    rw [hpcs m (by omega), hout m hm']
    exact h.fresh m hm
  · rw [he, h.member, hgroup]
  · rw [he, hgroups, hb]
    exact h.aligned x
  · rw [hr, Routing.get?_runCallback] at hx
    obtain ⟨hx, hne⟩ := hx
    obtain ⟨m, hm⟩ := h.listed table id x hx
    refine ⟨m, (hleads m x _).mpr ⟨hm, ?_⟩⟩
    -- the entry of the group itself is the one that the callback removes
    rintro rfl
    obtain rfl := h.leader m n x _ _ hm hn
    rw [hn] at hm
    cases hm
    exact hne rfl
  · obtain ⟨hx, hne⟩ := (hled x).mp hx
    rw [he] at hm
    rw [hdisj x hne m hm]
    exact h.pending x hx m hm
  · by_cases hxg : x = g
    · exact hxg ▸ hans
    · have hnled : ¬w.Led x := fun hl ↦ hx' ((hled x).mpr ⟨hl, hxg⟩)
      refine (h.answered x (hcount ▸ hx) hnled).congr (he x) (hfail x hxg) (congrFun hcomp x) ?_
      exact fun m hm ↦ ⟨congrFun hb m, hdisj x hxg m hm⟩
  · by_cases hm : m = n
    · subst hm
      rcases hself with hself | hself <;> rw [hself] <;> trivial
    · rw [hpcs m hm]
      refine (h.stage m).later (fun x _ _ ↦ ?_) hcomp
      rw [hgroups]
      exact .refl _

theorem Sound.publish {w : World β ρ} (h : Sound w) {n g : ℕ} {callback : Option Callback}
    {events : List ℕ} {responses : List ρ} (hn : w.pcs n = .computed g callback events responses) :
    Sound (w.publish n g callback events responses) := by
  have hled : (w.pcs n).leads = some (g, callback) := by
    rw [hn]
    rfl
  have hst := h.stage n
  rw [hn] at hst
  obtain ⟨-, rfl, hlen, hcomp⟩ := hst
  obtain ⟨hcids, hbatches⟩ := h.aligned g
  set order := (w.routing.groups g).getData.2 with horder
  set batches := (w.routing.groups g).getData.1 with hbs
  have hperm : order.Perm (w.events g) :=
    sortByKey_perm (fun a b ↦ decide (a ≤ b)) hcids.ge
  have hnodup : order.Nodup := hperm.nodup_iff.mpr (h.nodup g)
  have hmap : batches.map some = order.map w.batch := by
    rw [hbs, horder, Group.getData, ← sortByKey_map, ← sortByKey_map, hbatches]
    rfl
  have hlen' : order.length = responses.length := by
    have hl := congrArg List.length hmap
    simpa [hlen] using hl.symm
  have hkeys : (order.zip (responses.map Outcome.response)).map Prod.fst = order :=
    List.map_fst_zip (by simp [hlen'])
  have hdeliver : ∀ m, (w.publish n g callback order responses).outcomes m =
      w.outcomes m ++ valuesAt m (order.zip (responses.map Outcome.response)) := by
    intro m
    rw [List.zip_map_right]
    rfl
  refine h.finish hled rfl rfl rfl rfl (fun m hm ↦ World.pcs_setPc_of_ne hm)
    (.inl (World.pcs_setPc_self ..)) (fun m hm ↦ ?_) (fun _ _ ↦ rfl) (.inr ⟨order, ?_, ?_⟩)
  · rw [hdeliver, valuesAt_eq_nil, List.append_nil]
    rw [hkeys]
    exact fun hm' ↦ hm (hperm.mem_iff.mp hm')
  · simpa [World.events, World.publish] using hperm
  · have hout : order.map (w.publish n g callback order responses).outcomes =
        responses.map fun r ↦ [Outcome.response r] := by
      calc order.map (w.publish n g callback order responses).outcomes
          = order.map fun m ↦ valuesAt m (order.zip (responses.map Outcome.response)) := by
            refine List.map_congr_left fun m hm ↦ ?_
            rw [hdeliver, h.pending g ⟨n, _, hled⟩ m (hperm.mem_iff.mp hm), List.nil_append]
        _ = (responses.map Outcome.response).map ([·]) :=
            map_valuesAt_zip hnodup (by simp [hlen'])
        _ = responses.map fun r ↦ [Outcome.response r] := by
            rw [List.map_map]
            rfl
    calc (w.computed g).map (fun p ↦ (some p.1, [Outcome.response p.2]))
        = (batches.map some).zip (responses.map fun r ↦ [Outcome.response r]) := by
          rw [hcomp, List.zip_map]
          rfl
      _ = (order.map w.batch).zip (order.map (w.publish n g callback order responses).outcomes) := by
          rw [hmap, hout]
      _ = order.map fun m ↦ (w.batch m, (w.publish n g callback order responses).outcomes m) :=
          List.zip_map' ..

theorem Sound.fail {w : World β ρ} (h : Sound w) {n g : ℕ} {callback : Option Callback}
    (error : String) (hn : (w.pcs n).leads = some (g, callback)) :
    Sound (w.fail n g callback error) := by
  have hkeys : ((w.events g).map fun e ↦ (e, (Outcome.error error : Outcome ρ))).map Prod.fst = w.events g := by
    simp [Function.comp_def]
  refine h.finish hn rfl rfl rfl rfl (fun m hm ↦ World.pcs_setPc_of_ne hm)
    (.inr (World.pcs_setPc_self ..)) (fun m hm ↦ ?_) (fun x hx ↦ Function.update_of_ne hx ..)
    (.inl ⟨error, Function.update_self .., fun m hm ↦ ?_⟩)
  · change w.outcomes m ++ valuesAt m ((w.events g).map fun e ↦ (e, Outcome.error error)) = _
    rw [valuesAt_eq_nil (by rwa [hkeys]), List.append_nil]
  · have hm' : m ∈ w.events g := by simpa [World.events, World.fail] using hm
    change w.outcomes m ++ valuesAt m ((w.events g).map fun e ↦ (e, Outcome.error error)) = _
    rw [h.pending g ⟨n, _, hn⟩ m hm', List.nil_append]
    have hnodup := h.nodup g
    rw [← hkeys] at hnodup
    exact valuesAt_of_mem hnodup (List.mem_map.mpr ⟨m, hm', rfl⟩)

theorem step_sound {w w' : World β ρ} {a : Action β ρ} (h : Sound w) (hs : step w a = some w') :
    Sound w' := by
  cases a with
  | arrive cid method requestId batch =>
    obtain ⟨g, A⟩ := arrival h hs
    exact h.arrive A
  | start n =>
    cases hp : w.pcs n with
    | leading g c =>
      simp only [step, hp] at hs
      split_ifs at hs with hready
      obtain rfl := Option.some.inj hs
      have hlt : n < w.count := h.lt_count (g := g) (by rw [hp]; rfl)
      exact h.setPc hlt (by rw [hp]; rfl) (by rw [hp]; rfl) hready
    | _ => simp [step, hp] at hs
  | compute n responses =>
    cases hp : w.pcs n with
    | computing g c =>
      simp only [step, hp] at hs
      exact h.compute hp hs
    | _ => simp [step, hp] at hs
  | publish n =>
    cases hp : w.pcs n with
    | computed g c events responses =>
      simp only [step, hp] at hs
      obtain rfl := Option.some.inj hs
      exact h.publish hp
    | _ => simp [step, hp] at hs
  | fail n error =>
    cases hl : (w.pcs n).leads with
    | none =>
      cases hp : w.pcs n <;> simp [hp, Pc.leads] at hl <;> simp [step, hp] at hs
    | some l =>
      obtain ⟨g, c⟩ := l
      have hw : w' = w.fail n g c error := by
        cases hp : w.pcs n <;> simp [hp, Pc.leads] at hl <;> simp [step, hp] at hs <;>
          rw [← hs, hl.1, hl.2]
      exact hw ▸ h.fail error hl
  | take n =>
    cases hp : w.pcs n with
    | waiting g =>
      simp only [step, hp] at hs
      split_ifs at hs
      obtain rfl := Option.some.inj hs
      have hlt : n < w.count := h.lt_count (g := g) (by rw [hp]; rfl)
      exact h.setPc hlt (by rw [hp]; rfl) (by rw [hp]; rfl) trivial
    | _ => simp [step, hp] at hs
  | leave n =>
    cases hp : w.pcs n with
    | waiting g =>
      simp only [step, hp] at hs
      obtain rfl := Option.some.inj hs
      have hlt : n < w.count := h.lt_count (g := g) (by rw [hp]; rfl)
      exact h.setPc hlt (by rw [hp]; rfl) (by rw [hp]; rfl) trivial
    | _ => simp [step, hp] at hs
  | markDone cid =>
    obtain ⟨r, hr, rfl⟩ := Option.map_eq_some_iff.mp hs
    obtain ⟨-, rfl⟩ := Routing.markClientAsDone_eq_some hr
    exact h.later (fun x ↦ Routing.later_markReadyRequests (w.routing.removeActive cid) x) rfl rfl
  | reset =>
    obtain rfl := Option.some.inj hs
    exact h.later (fun _ ↦ .refl _) rfl rfl
  | reconfigure mapping active =>
    obtain rfl := Option.some.inj hs
    exact h.later (fun _ ↦ .refl _) rfl rfl

theorem Reachable.sound {w : World β ρ} (h : Reachable w) : Sound w := by
  induction h with
  | start batch mapping active => exact .of_start batch mapping active
  | step a _ hs ih => exact step_sound ih hs

/-! ### Routing of the outcomes -/

def run (w : World β ρ) : List (Action β ρ) → Option (World β ρ)
  | [] => some w
  | a :: actions => (step w a).bind fun w ↦ run w actions

theorem Reachable.run {w w' : World β ρ} (h : Reachable w) {actions : List (Action β ρ)}
    (hs : run w actions = some w') : Reachable w' := by
  induction actions generalizing w with
  | nil =>
    obtain rfl := Option.some.inj hs
    exact h
  | cons a actions ih =>
    obtain ⟨w₁, hs₁, hs⟩ := Option.bind_eq_some_iff.mp hs
    exact ih (h.step a hs₁) hs

/-- What holds of the requests in a world. -/
structure Routed (w : World β ρ) : Prop where
  /-- No request is in two groups, or twice in one. -/
  one_group : ∀ n g g', n ∈ w.events g → n ∈ w.events g' → g = g'
  once : ∀ g, (w.events g).Nodup
  /-- No step adds a request to a group that is ready. -/
  closed : ∀ a w', step w a = some w' → ∀ g < w.routing.groupCount,
    (w.routing.groups g).ready = true → w'.events g = w.events g
  at_most_one : ∀ n, (w.outcomes n).length ≤ 1
  unanswered : ∀ g n, n ∈ w.events g → w.Led g → w.outcomes n = []
  /-- Once its leader is through, every request of a group has its own outcome. -/
  answered : ∀ g n, n ∈ w.events g → ¬w.Led g → w.Answered g
  /-- The leader of a ready group can get through by its own steps. -/
  finishes : ∀ n g callback, (w.pcs n).leads = some (g, callback) →
    (w.routing.groups g).ready = true → ∀ answer : List β → List ρ,
    (∀ batches, (answer batches).length = batches.length) → ∃ actions w',
      run w actions = some w' ∧ ¬w'.Led g ∧ w'.Answered g ∧
      ∀ a ∈ actions, a = .start n ∨ a = .publish n ∨
        a = .compute n (answer (w.routing.groups g).getData.1)

theorem World.Answered.length {w : World β ρ} {g n : ℕ} (h : w.Answered g) (hn : n ∈ w.events g) :
    (w.outcomes n).length = 1 := by
  rcases h with ⟨error, -, hall⟩ | ⟨order, hperm, hmap⟩
  · rw [hall n hn]
    rfl
  · have hmem : (w.batch n, w.outcomes n) ∈ order.map fun m ↦ (w.batch m, w.outcomes m) :=
      List.mem_map_of_mem (hperm.mem_iff.mpr hn)
    rw [← hmap] at hmem
    obtain ⟨p, -, hp⟩ := List.mem_map.mp hmem
    rw [← (Prod.mk.inj hp).2]
    rfl

theorem events_of_ready {w w' : World β ρ} {a : Action β ρ} (h : Sound w) (hs : step w a = some w')
    {g : ℕ} (hg : g < w.routing.groupCount) (hr : (w.routing.groups g).ready = true) :
    w'.events g = w.events g := by
  cases a with
  | arrive cid method requestId batch =>
    obtain ⟨x, A⟩ := arrival h hs
    exact A.events_of_ne (A.ne_of_ready hg hr)
  | start n =>
    cases hp : w.pcs n <;> simp [step, hp] at hs
    obtain ⟨-, rfl⟩ := hs
    rfl
  | compute n responses =>
    cases hp : w.pcs n <;> simp [step, hp, World.compute] at hs
    obtain ⟨-, rfl⟩ := hs
    rfl
  | publish n =>
    cases hp : w.pcs n <;> simp [step, hp] at hs
    obtain rfl := hs
    simp [World.events, World.publish]
  | fail n error =>
    cases hp : w.pcs n <;> simp [step, hp] at hs <;> obtain rfl := hs <;>
      simp [World.events, World.fail]
  | take n =>
    cases hp : w.pcs n <;> simp [step, hp] at hs
    obtain ⟨-, rfl⟩ := hs
    rfl
  | leave n =>
    cases hp : w.pcs n <;> simp [step, hp] at hs
    obtain rfl := hs
    rfl
  | markDone cid =>
    obtain ⟨r, hr, rfl⟩ := Option.map_eq_some_iff.mp hs
    obtain ⟨-, rfl⟩ := Routing.markClientAsDone_eq_some hr
    exact (Routing.later_markReadyRequests (w.routing.removeActive cid) g).events
  | reset =>
    obtain rfl := Option.some.inj hs
    rfl
  | reconfigure mapping active =>
    obtain rfl := Option.some.inj hs
    rfl

/-- From any of its three stages the leader of a ready group gets through. -/
theorem leader_finishes {w : World β ρ} (h : Sound w) {n g : ℕ} {callback : Option Callback}
    (hn : (w.pcs n).leads = some (g, callback)) (hr : (w.routing.groups g).ready = true)
    {responses : List ρ} (hl : responses.length = (w.routing.groups g).getData.1.length) :
    ∃ actions w', run w actions = some w' ∧ ¬w'.Led g ∧ w'.Answered g ∧
      ∀ a ∈ actions, a = .start n ∨ a = .publish n ∨ a = .compute n responses := by
  have hpublish : ∀ w₁ : World β ρ, Sound w₁ → w₁.routing.groups = w.routing.groups → ∀ c evs rs,
      w₁.pcs n = .computed g c evs rs → ∃ w', step w₁ (.publish n) = some w' ∧ ¬w'.Led g ∧ w'.Answered g := by
    intro w₁ h₁ hg c evs rs hp
    have hs : step w₁ (.publish n) = some (w₁.publish n g c evs rs) := by simp only [step, hp]
    have h₂ := step_sound h₁ hs
    have hlead₁ : (w₁.pcs n).leads = some (g, c) := by
      rw [hp]
      rfl
    have hnled : ¬(w₁.publish n g c evs rs).Led g := by
      rintro ⟨m, d, hm⟩
      by_cases hmn : m = n
      · subst hmn
        rw [World.publish, World.pcs_setPc_self] at hm
        cases hm
      · rw [World.publish, World.pcs_setPc_of_ne hmn] at hm
        exact hmn (h₁.leader m n g d c hm hlead₁)
    have hborn := h₁.born (Pc.group_of_leads hlead₁)
    refine ⟨_, hs, hnled, h₂.answered g ?_ hnled⟩
    simpa [World.publish] using hborn
  have hcompute : ∀ w₁ : World β ρ, Sound w₁ → w₁.routing.groups = w.routing.groups → ∀ c,
      w₁.pcs n = .computing g c → ∃ w', run w₁ [.compute n responses, .publish n] = some w' ∧
        ¬w'.Led g ∧ w'.Answered g := by
    intro w₁ h₁ hg c hp
    obtain ⟨w₂, hs₂⟩ : ∃ w₂, w₁.compute n g c responses = some w₂ := by
      simp only [World.compute, hg, if_pos hl]
      exact ⟨_, rfl⟩
    have hs : step w₁ (.compute n responses) = some w₂ := by simp only [step, hp, hs₂]
    have hw₂ : w₂.routing.groups = w.routing.groups ∧
        ∃ evs, w₂.pcs n = .computed g c evs responses := by
      simp only [World.compute, hg, if_pos hl] at hs₂
      obtain rfl := Option.some.inj hs₂
      exact ⟨hg, _, World.pcs_setPc_self ..⟩
    obtain ⟨hg₂, evs, hp₂⟩ := hw₂
    obtain ⟨w', hs', hw'⟩ := hpublish w₂ (step_sound h₁ hs) hg₂ c evs responses hp₂
    exact ⟨w', by simp [run, hs, hs'], hw'⟩
  cases hp : w.pcs n with
  | leading x c =>
    rw [hp] at hn
    obtain ⟨rfl, rfl⟩ := Prod.mk.inj (Option.some.inj hn)
    have hs : step w (.start n) = some (w.setPc n (.computing x c)) := by simp only [step, hp, if_pos hr]
    obtain ⟨w', hw', hans⟩ := hcompute _ (step_sound h hs) rfl c (World.pcs_setPc_self ..)
    exact ⟨[.start n, .compute n responses, .publish n], w', by simp [run, hs] at hw' ⊢; exact hw',
      hans.1, hans.2, by simp⟩
  | computing x c =>
    rw [hp] at hn
    obtain ⟨rfl, rfl⟩ := Prod.mk.inj (Option.some.inj hn)
    obtain ⟨w', hw', hans⟩ := hcompute w h rfl c hp
    exact ⟨_, w', hw', hans.1, hans.2, by simp⟩
  | computed x c evs rs =>
    rw [hp] at hn
    obtain ⟨rfl, rfl⟩ := Prod.mk.inj (Option.some.inj hn)
    obtain ⟨w', hw', hans⟩ := hpublish w h rfl c evs rs hp
    exact ⟨[.publish n], w', by simp [run, hw'], hans.1, hans.2, by simp⟩
  | absent => rw [hp] at hn; cases hn
  | waiting => rw [hp] at hn; cases hn
  | done => rw [hp] at hn; cases hn

theorem routed {w : World β ρ} (hw : Reachable w) : Routed w := by
  have h := hw.sound
  refine
    { one_group := fun n g g' hn hn' ↦ ?_
      once := h.nodup
      closed := fun a w' hs g hg hr ↦ events_of_ready h hs hg hr
      at_most_one := fun n ↦ ?_
      unanswered := fun g n hn hl ↦ h.pending g hl n hn
      answered := fun g n hn hl ↦ h.answered g (h.born ((h.member g n).mp hn)) hl
      finishes := fun n g callback hn hr answer ha ↦ leader_finishes h hn hr (ha _) }
  · have hg := (h.member g n).mp hn
    rw [(h.member g' n).mp hn'] at hg
    exact (Option.some.inj hg).symm
  · cases hg : (w.pcs n).group with
    | none =>
      have hn : w.count ≤ n := by
        by_contra hlt
        obtain ⟨g, hg'⟩ := h.joined n (by omega)
        rw [hg] at hg'
        cases hg'
      simp [(h.fresh n hn).2]
    | some g =>
      have hn := (h.member g n).mpr hg
      by_cases hl : w.Led g
      · simp [h.pending g hl n hn]
      · exact ((h.answered g (h.born hg) hl).length hn).le

theorem run_eq_some {w w' : World β ρ} {a : Action β ρ} {actions : List (Action β ρ)} :
    run w (a :: actions) = some w' ↔ ∃ w₁, step w a = some w₁ ∧ run w₁ actions = some w' :=
  Option.bind_eq_some_iff

theorem run_append (w : World β ρ) (actions actions' : List (Action β ρ)) :
    run w (actions ++ actions') = (run w actions).bind fun w ↦ run w actions' := by
  induction actions generalizing w with
  | nil => rfl
  | cons a actions ih => simp only [List.cons_append, run, ih, Option.bind_assoc]

/-- Request 0 leads a group that is not ready and that `requests_state` no longer lists. -/
structure Orphaned (w : World β ρ) : Prop where
  sound : Sound w
  leading : ∃ callback, w.pcs 0 = .leading 0 callback
  unready : (w.routing.groups 0).ready = false
  unlisted : 0 ∉ w.routing.listed

theorem Orphaned.outcomes {w : World β ρ} (h : Orphaned w) : w.outcomes 0 = [] := by
  obtain ⟨c, hp⟩ := h.leading
  have hmem : 0 ∈ w.events 0 := by
    rw [h.sound.member, hp]
    rfl
  exact h.sound.pending 0 ⟨0, c, by rw [hp]; rfl⟩ 0 hmem

theorem unlisted_join {r r' : Routing β} {n : ℕ} {cid : Cid} {method requestId : String} {batch : β}
    {g : ℕ} {callback : Option Callback} {isNew : Bool}
    (h : r.join n cid method requestId batch = some (r', g, callback, isNew)) {x : ℕ}
    (hx : x < r.groupCount) (hr : (r.groups x).ready = false) (hl : x ∉ r.listed) :
    x ≠ g ∧ x ∉ r'.listed := by
  obtain ⟨sid, table, -, hkey, hother, -, hcase⟩ := Routing.join_cases h
  rcases hcase with ⟨id, hid, -, -, -, htables, -, hkey', -⟩ | ⟨rfl, -, -, -, -, hold, hsame, -⟩
  · refine ⟨?_, fun hx' ↦ hl ?_⟩
    · rintro rfl
      exact hl (Routing.mem_listed.mpr ⟨_, table, id, hkey', hid⟩)
    · obtain ⟨key, table', id', hk, hx'⟩ := Routing.mem_listed.mp hx'
      rw [htables] at hx'
      by_cases hkeys : key = (sid, method)
      · subst hkeys
        rw [hkey] at hk
        obtain rfl := Option.some.inj hk
        exact Routing.mem_listed.mpr ⟨_, table, id', hkey', hx'⟩
      · rw [hother key hkeys] at hk
        exact Routing.mem_listed.mpr ⟨key, table', id', hk, hx'⟩
  · refine ⟨hx.ne, fun hx' ↦ ?_⟩
    obtain ⟨key, table', id', hk, hx'⟩ := Routing.mem_listed.mp hx'
    by_cases ht : table' = table
    · subst ht
      -- the other groups of the table are ready, or a new group would not have been made
      rcases hold id' x hx' with ⟨rfl, -⟩ | ⟨-, hready⟩
      · exact absurd hx (Nat.lt_irrefl _)
      · rw [hready] at hr
        cases hr
    · rw [hsame table' ht] at hx'
      have hkeys : key ≠ (sid, method) := by
        rintro rfl
        rw [hkey] at hk
        exact ht (Option.some.inj hk).symm
      rw [hother key hkeys] at hk
      exact hl (Routing.mem_listed.mpr ⟨key, table', id', hk, hx'⟩)

theorem unlisted_runCallback {r : Routing β} {c : Option Callback} {x : ℕ} (hl : x ∉ r.listed) :
    x ∉ (r.runCallback c).listed := by
  intro hx
  obtain ⟨key, table, id, hk, hx⟩ := Routing.mem_listed.mp hx
  have hstate : (r.runCallback c).requestsState = r.requestsState := by cases c <;> rfl
  rw [hstate] at hk
  exact hl (Routing.mem_listed.mpr ⟨key, table, id, hk, (Routing.get?_runCallback.mp hx).1⟩)

theorem Orphaned.step {w w' : World β ρ} {a : Action β ρ} (h : Orphaned w)
    (hs : step w a = some w') (ha : ∀ n error, a ≠ .fail n error) : Orphaned w' := by
  have hsound := step_sound h.sound hs
  obtain ⟨c, hp⟩ := h.leading
  have hlead : (w.pcs 0).leads = some (0, c) := by
    rw [hp]
    rfl
  cases a with
  | arrive cid method requestId batch =>
    have hborn := h.sound.born (Pc.group_of_leads hlead)
    simp only [GroupRouting.step, World.arrive] at hs
    cases hj : w.routing.join w.count cid method requestId batch with
    | none => rw [hj] at hs; cases hs
    | some j =>
      obtain ⟨r, g, callback, isNew⟩ := j
      rw [hj] at hs
      obtain rfl := Option.some.inj hs
      obtain ⟨hne, hl⟩ := unlisted_join hj hborn h.unready h.unlisted
      have hcount : 0 ≠ w.count := (h.sound.lt_count (Pc.group_of_leads hlead)).ne
      refine ⟨hsound, ⟨c, (Function.update_of_ne hcount ..).trans hp⟩, ?_, hl⟩
      change (r.groups 0).ready = false
      rw [Routing.groups_join_of_not_mem hj hne hl]
      exact h.unready
  | start n =>
    cases hq : w.pcs n <;> simp [GroupRouting.step, hq] at hs
    obtain ⟨hready, rfl⟩ := hs
    have hn : 0 ≠ n := by
      rintro rfl
      rw [hp] at hq
      cases hq
      rw [h.unready] at hready
      cases hready
    exact ⟨hsound, ⟨c, (World.pcs_setPc_of_ne hn).trans hp⟩, h.unready, h.unlisted⟩
  | compute n responses =>
    cases hq : w.pcs n <;> simp [GroupRouting.step, hq, World.compute] at hs
    obtain ⟨-, rfl⟩ := hs
    have hn : 0 ≠ n := by
      rintro rfl
      rw [hp] at hq
      cases hq
    exact ⟨hsound, ⟨c, (World.pcs_setPc_of_ne hn).trans hp⟩, h.unready, h.unlisted⟩
  | publish n =>
    cases hq : w.pcs n <;> simp [GroupRouting.step, hq] at hs
    obtain rfl := hs
    have hn : 0 ≠ n := by
      rintro rfl
      rw [hp] at hq
      cases hq
    refine ⟨hsound, ⟨c, (World.pcs_setPc_of_ne hn).trans hp⟩, ?_, unlisted_runCallback h.unlisted⟩
    simpa [World.publish] using h.unready
  | fail n error => exact absurd rfl (ha n error)
  | take n =>
    cases hq : w.pcs n <;> simp [GroupRouting.step, hq] at hs
    obtain ⟨-, rfl⟩ := hs
    have hn : 0 ≠ n := by
      rintro rfl
      rw [hp] at hq
      cases hq
    exact ⟨hsound, ⟨c, (World.pcs_setPc_of_ne hn).trans hp⟩, h.unready, h.unlisted⟩
  | leave n =>
    cases hq : w.pcs n <;> simp [GroupRouting.step, hq] at hs
    obtain rfl := hs
    have hn : 0 ≠ n := by
      rintro rfl
      rw [hp] at hq
      cases hq
    exact ⟨hsound, ⟨c, (World.pcs_setPc_of_ne hn).trans hp⟩, h.unready, h.unlisted⟩
  | markDone cid =>
    obtain ⟨r, hr, rfl⟩ := Option.map_eq_some_iff.mp hs
    obtain ⟨-, rfl⟩ := Routing.markClientAsDone_eq_some hr
    have hsame := @Routing.markReadyRequests_of_not_mem _ (w.routing.removeActive cid) 0 h.unlisted
    exact ⟨hsound, ⟨c, hp⟩, (congrArg Group.ready hsame).trans h.unready, h.unlisted⟩
  | reset =>
    obtain rfl := Option.some.inj hs
    refine ⟨hsound, ⟨c, hp⟩, h.unready, fun hl ↦ ?_⟩
    obtain ⟨key, table, id, hk, -⟩ := Routing.mem_listed.mp hl
    cases hk
  | reconfigure mapping active =>
    obtain rfl := Option.some.inj hs
    exact ⟨hsound, ⟨c, hp⟩, h.unready, h.unlisted⟩

theorem Orphaned.run {w w' : World β ρ} {actions : List (Action β ρ)} (h : Orphaned w)
    (hs : run w actions = some w') (ha : ∀ n error, Action.fail n error ∉ actions) : Orphaned w' := by
  induction actions generalizing w with
  | nil =>
    obtain rfl := Option.some.inj hs
    exact h
  | cons a actions ih =>
    obtain ⟨w₁, hs₁, hs⟩ := run_eq_some.mp hs
    refine ih (h.step hs₁ fun n error he ↦ ha n error ?_) hs fun n error hm ↦ ha n error ?_
    · exact he ▸ List.mem_cons_self
    · exact List.mem_cons_of_mem _ hm

/-- Two active clients share a server model; one sends its request, then the round's requests are
reset. -/
def orphaning : List (Action ℕ ℕ) := [.arrive "a" "train_tail" "r0" 5, .reset]

def sharedModel : Routing ℕ :=
  .start true (((Dict.empty : Dict Cid Sid).insert "a" "").insert "b" "") ["a", "b"]

theorem orphaning_orphans : ∃ w, run (.start sharedModel) orphaning = some w ∧ Orphaned w := by
  have hr : ∃ w, run (.start sharedModel) orphaning = some w ∧
      w.pcs 0 = .leading 0 (some ⟨0, "r0"⟩) ∧ (w.routing.groups 0).ready = false ∧
      w.routing.listed = [] := ⟨_, rfl, rfl, rfl, rfl⟩
  obtain ⟨w, hw, hp, hready, hl⟩ := hr
  have hreach : Reachable w := (Reachable.start true _ _).run hw
  exact ⟨w, hw, hreach.sound, ⟨_, hp⟩, hready, by simp [hl]⟩

/-- A reset can leave a request without an outcome for good: nothing makes its group ready any more. -/
theorem orphan_never_answered :
    ¬∀ w : World ℕ ℕ, Reachable w → ∀ n g, n ∈ w.events g → ∃ actions w', run w actions = some w' ∧
      (∀ m error, Action.fail m error ∉ actions) ∧ (w'.outcomes n).length = 1 := by
  intro hclaim
  obtain ⟨w, hw, ho⟩ := orphaning_orphans
  obtain ⟨c, hp⟩ := ho.leading
  have hmem : 0 ∈ w.events 0 := by
    rw [ho.sound.member, hp]
    rfl
  obtain ⟨actions, w', hs, hfail, hlen⟩ := hclaim w ((Reachable.start true _ _).run hw) 0 0 hmem
  rw [(ho.run hs hfail).outcomes] at hlen
  cases hlen

/-- Client `b` sends first; the group is sorted by cid, and each gets its own answer. -/
theorem batchRun_routed : ∃ w : World ℕ ℕ, Routed w ∧
    run (.start sharedModel) [.arrive "b" "train_tail" "r0" 7, .arrive "a" "train_tail" "r1" 5,
      .start 0, .compute 0 [50, 70], .publish 0] = some w ∧
    w.outcomes 0 = [.response 70] ∧ w.outcomes 1 = [.response 50] := by
  have hstart : ∃ w : World ℕ ℕ, run (.start sharedModel) [.arrive "b" "train_tail" "r0" 7,
      .arrive "a" "train_tail" "r1" 5, .start 0] = some w ∧
      w.pcs 0 = .computing 0 (some ⟨0, "r0"⟩) ∧ w.outcomes = (fun _ ↦ []) ∧
      w.routing.groups 0 = ⟨"", [7, 5], [0, 1], ["b", "a"], true, false⟩ := ⟨_, rfl, rfl, rfl, rfl⟩
  obtain ⟨w, hw, hp, ho, hg⟩ := hstart
  have hdata : (w.routing.groups 0).getData = ([5, 7], [1, 0]) := by
    have hab : ("b" : Cid) ≤ "a" ↔ False := by decide
    simp [hg, Group.getData, sortByKey, List.mergeSort, hab]
  have hend : ∃ w', run w [.compute 0 [50, 70], .publish 0] = some w' ∧
      w'.outcomes 0 = [.response 70] ∧ w'.outcomes 1 = [.response 50] := by
    simp [run, step, hp, World.compute, hdata, World.setPc, World.publish, World.deliver, ho, valuesAt]
  obtain ⟨w', hw', ho'⟩ := hend
  have hrun := run_append (.start sharedModel) [.arrive "b" "train_tail" "r0" 7,
    .arrive "a" "train_tail" "r1" 5, .start 0] [.compute 0 [50, 70], .publish 0]
  rw [hw, Option.bind_some, hw'] at hrun
  exact ⟨w', routed ((Reachable.start true _ _).run hrun), hrun, ho'⟩

end SplitFleet.GroupRouting
