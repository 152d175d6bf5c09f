import SplitFleet.OwnedAggregation
import SplitFleet.Strategy

set_option autoImplicit false

namespace SplitFleet.OwnedEquivalence

open Lib StateOwnership Reassembly OwnedAggregation Strategy

/-- A client and its suffix replica after training: each stage holds a full state and has changed
only what the manifest gives it. -/
structure Client (initial : List Tensor) where
  cid : Cid
  manifest : Manifest
  weight : ℚ
  clientState : List Tensor
  serverState : List Tensor
  weight_pos : 0 < weight
  names_length : manifest.names.length = initial.length
  owners_length : manifest.owners.length = initial.length
  owners_known : manifest.owners.any Owner.isUnknown = false
  client_owned : ChangesOnly .prefixStage manifest.owners initial clientState
  server_owned : ChangesOnly .suffixStage manifest.owners initial serverState

variable {initial : List Tensor}

namespace Client

def logical (c : Client initial) : List Tensor × ℚ :=
  (mergeOwned c.manifest.owners initial c.clientState c.serverState, c.weight)

/-- What the prefix uploads: its slice, or its full state. -/
def prefixParameters (owned : Bool) (c : Client initial) : List Tensor :=
  if owned then slice .prefixStage c.manifest.owners c.clientState else c.clientState

def suffixParameters (owned : Bool) (c : Client initial) : List Tensor :=
  if owned then slice .suffixStage c.manifest.owners c.serverState else c.serverState

def suffixResult (owned : Bool) (numExamples : Cid → ℤ) (c : Client initial) : ServerFitRes :=
  ⟨some c.cid, c.suffixParameters owned, some c.manifest.digest, numExamples c.cid⟩

def pending (owned : Bool) (c : Client initial) : Cid × (List Tensor × ℚ) :=
  (c.cid, (c.prefixParameters owned, c.weight))

def ownedUpdate (c : Client initial) : OwnedUpdate :=
  ⟨c.manifest, c.prefixParameters true, c.suffixParameters true, c.weight⟩

end Client

/-- The strategy with the owned exchange switched on or off. -/
def exchanging (S : Settings) (hp : S.perClient = true) (owned : Bool) : Settings :=
  { S with ownedStateExchange := owned, owned_perClient := fun _ ↦ hp }

/-- The stores when the suffix results of `round` arrive. -/
def stores (s : Stores) (round : ℕ) (owned : Bool) (clients : List (Client initial)) : Stores :=
  let s := s.setOwnership round (Dict.ofList (clients.map fun c ↦ (c.cid, c.manifest)))
  ((s.setInitialClient round initial).setInitialServer round initial).setPending round
    (Dict.ofList (clients.map (Client.pending owned)))

def outcome (S : Settings) (hp : S.perClient = true) (s : Stores) (round : ℕ) (owned : Bool)
    (numExamples : Cid → ℤ) (clients served : List (Client initial)) :
    Except PyError (Option (List Tensor)) :=
  (aggregateServerFit (exchanging S hp owned) (stores s round owned clients) round
    (served.map (Client.suffixResult owned numExamples))).2

/-! ### One client -/

theorem Client.valid (c : Client initial) : Valid initial c.ownedUpdate c.logical := by
  have hc := c.client_owned.schema
  have hs := c.server_owned.schema
  refine ⟨_, _, validateOwned_slice c.names_length c.owners_length c.owners_known hc,
    validateOwned_slice c.names_length c.owners_length c.owners_known hs,
    finitePositive_eq_ok_iff.mpr ⟨rfl, c.weight_pos⟩, ?_⟩
  exact (ownedValues_slices c.owners_length hc.length_eq hs.length_eq).symm

/-! ### The results against the pending updates -/

theorem get?_ofList_map {α υ : Type} {f : α → Cid} {g : α → υ} {l : List α} (h : (l.map f).Nodup)
    {a : α} (ha : a ∈ l) : (Dict.ofList (l.map fun x ↦ (f x, g x))).get? (f a) = some (g a) := by
  have hk : ((l.map fun x ↦ (f x, g x)).map Prod.fst).Nodup := by simpa [Function.comp_def] using h
  rw [Dict.get?_ofList hk, Dict.lookup_eq_some_iff hk]
  exact List.mem_map.mpr ⟨a, ha, rfl⟩

section Lookup

variable {owned : Bool} {numExamples : Cid → ℤ} {clients served : List (Client initial)}

theorem serverUpdates_get? (hs : (served.map Client.cid).Nodup) {c : Client initial} (hc : c ∈ served) :
    (serverUpdates (served.map (Client.suffixResult owned numExamples))).get? c.cid =
      some (c.suffixResult owned numExamples) := by
  have h := @get?_ofList_map _ _ Client.cid (Client.suffixResult owned numExamples) _ hs _ hc
  rw [serverUpdates, List.filterMap_map]
  have hf : ((fun res : ServerFitRes ↦ res.sid.map (·, res)) ∘ Client.suffixResult owned numExamples) =
      fun x : Client initial ↦ some (x.cid, x.suffixResult owned numExamples) := rfl
  rw [hf, List.filterMap_eq_map']
  exact h

theorem ownedUpdates_eq {manifests : Dict Cid Manifest} {updates : Dict Cid ServerFitRes}
    (hm : ∀ c ∈ clients, manifests.get? c.cid = some c.manifest)
    (hu : ∀ c ∈ clients, updates.get? c.cid = some (c.suffixResult true numExamples)) :
    ownedUpdates manifests updates (clients.map (Client.pending true)) =
      .ok (clients.map Client.ownedUpdate) := by
  induction clients with
  | nil => rfl
  | cons c cs ih =>
    have hr := ih (fun c' hc' ↦ hm c' (List.mem_cons_of_mem _ hc'))
      (fun c' hc' ↦ hu c' (List.mem_cons_of_mem _ hc'))
    simp only [List.map_cons, Client.pending, ownedUpdates, hm c List.mem_cons_self,
      hu c List.mem_cons_self]
    simp only [Client.suffixResult, ne_eq, not_true_eq_false, if_false]
    rw [hr]
    rfl

theorem logicalUpdates_eq (S : Settings) (htied : S.tiedStateGroups = [])
    (hn : S.logicalStateNames.length = initial.length) {updates : Dict Cid ServerFitRes}
    (hu : ∀ c ∈ clients, updates.get? c.cid = some (c.suffixResult false numExamples)) :
    logicalUpdates S initial initial updates (clients.map (Client.pending false)) =
      .ok (clients.map Client.logical) := by
  induction clients with
  | nil => rfl
  | cons c cs ih =>
    have hr := ih (fun c' hc' ↦ hu c' (List.mem_cons_of_mem _ hc'))
    have hx := reassembleNamedState_owned S.tiedWeightUpdateMode hn c.owners_length c.client_owned
      c.server_owned
    rw [List.map_cons, List.map_cons, Client.pending]
    simp only [logicalUpdates, hu c List.mem_cons_self, htied]
    change (do
      let merged ← reassembleNamedState S.logicalStateNames initial initial c.clientState c.serverState
        [] S.tiedWeightUpdateMode
      let tail ← logicalUpdates S initial initial updates (cs.map (Client.pending false))
      Except.ok ((merged, c.weight) :: tail)) = _
    rw [hx, hr]
    rfl

end Lookup

/-! ### The two exchanges -/

theorem forall₂_valid (clients : List (Client initial)) :
    List.Forall₂ (Valid initial) (clients.map Client.ownedUpdate) (clients.map Client.logical) := by
  induction clients with
  | nil => exact .nil
  | cons c cs ih => exact .cons c.valid ih

section Outcome

variable (S : Settings) (hp : S.perClient = true) (s : Stores) (round : ℕ) (numExamples : Cid → ℤ)
  {clients served : List (Client initial)}

theorem outcome_nil (owned : Bool) :
    outcome S hp s round owned numExamples clients [] = .ok none := rfl

theorem outcome_cons (owned : Bool) (hc : clients ≠ []) (hs : served ≠ [])
    (hd : (clients.map Client.cid).Nodup) :
    outcome S hp s round owned numExamples clients served =
      (aggregatePairs (exchanging S hp owned)
        (some (Dict.ofList (clients.map fun c ↦ (c.cid, c.manifest)))) round initial initial
        (Dict.ofList (clients.map (Client.pending owned)))
        (serverUpdates (served.map (Client.suffixResult owned numExamples)))).map some := by
  have hk : ((clients.map (Client.pending owned)).map Prod.fst).Nodup := by
    simpa [Client.pending, Function.comp_def] using hd
  have he : (served.map (Client.suffixResult owned numExamples)).isEmpty = false := by
    simpa [List.isEmpty_eq_false_iff] using hs
  have hc' : (Dict.ofList (clients.map (Client.pending owned))).entries.isEmpty = false := by
    rw [Dict.entries_ofList hk]
    simpa [List.isEmpty_eq_false_iff] using hc
  have hpc : (exchanging S hp owned).perClient = true := hp
  unfold outcome aggregateServerFit
  simp only [he, hpc, Bool.false_eq_true, if_false, if_true, stores, Stores.setPending,
    Stores.setInitialClient, Stores.setInitialServer, Stores.setOwnership, Stores.popRound, Stores.put, Function.update_self,
    hc']
  cases owned
  · simp only [exchanging, Bool.false_eq_true, if_false]
    cases aggregatePairs _ _ _ _ _ _ _ <;> rfl
  · simp only [exchanging, if_true]
    cases aggregatePairs _ _ _ _ _ _ _ <;> rfl

theorem outcome_owned (hc : clients ≠ []) (hd : (clients.map Client.cid).Nodup)
    (hs : served.Perm clients) :
    outcome S hp s round true numExamples clients served =
      .ok (some (policyState S.integerAggregationPolicy initial (clients.map Client.logical))) := by
  have hk : ((clients.map (Client.pending true)).map Prod.fst).Nodup := by
    simpa [Client.pending, Function.comp_def] using hd
  have hds : (served.map Client.cid).Nodup := (hs.map Client.cid).nodup_iff.mpr hd
  have hm : ∀ c ∈ clients, (Dict.ofList (clients.map fun c ↦ (c.cid, c.manifest))).get? c.cid =
      some c.manifest := fun c h ↦ get?_ofList_map hd h
  have hu := ownedUpdates_eq hm
    (fun c h ↦ @serverUpdates_get? _ true numExamples _ hds c (hs.mem_iff.mpr h))
  rw [outcome_cons S hp s round numExamples true hc (fun h ↦ hc (by simpa [h] using hs)) hd]
  have ha := @aggregateOwned_eq _ S.integerAggregationPolicy _ _ (forall₂_valid clients)
    (by simpa using hc)
  simp only [aggregatePairs, exchanging, if_true, Dict.entries_ofList hk, hu, bind, Except.bind, ha]
  rfl

theorem outcome_full (htied : S.tiedStateGroups = [])
    (hn : S.logicalStateNames.length = initial.length) (hc : clients ≠ [])
    (hd : (clients.map Client.cid).Nodup) (hs : served.Perm clients) :
    outcome S hp s round false numExamples clients served =
      .ok (some (weightedMean (clients.map Client.logical))) := by
  have hk : ((clients.map (Client.pending false)).map Prod.fst).Nodup := by
    simpa [Client.pending, Function.comp_def] using hd
  have hds : (served.map Client.cid).Nodup := (hs.map Client.cid).nodup_iff.mpr hd
  have hu := logicalUpdates_eq (exchanging S hp false) htied hn
    (fun c h ↦ @serverUpdates_get? _ false numExamples _ hds c (hs.mem_iff.mpr h))
  rw [outcome_cons S hp s round numExamples false hc (fun h ↦ hc (by simpa [h] using hs)) hd]
  have hne : clients.map Client.logical ≠ [] := by simpa using hc
  have he : (clients.map Client.logical).isEmpty = false := by
    simpa [List.isEmpty_eq_false_iff] using hc
  have hr := S.aggregate.run_eq _ hne
  simp only [exchanging] at hu
  simp only [aggregatePairs, exchanging, Bool.false_eq_true, if_false, Dict.entries_ofList hk, hu, bind,
    Except.bind, he, hr]
  rfl

/-- One position of the owned aggregate `x` against the full aggregate `y`; `top` is the
elementwise maximum there. -/
def Corresponds (policy : IntegerPolicy) (base top x y : Tensor) : Prop :=
  x.dtype = base.dtype ∧ y.dtype = base.dtype.promoted ∧
    if base.dtype.inexact then x = y
    else match policy with
      | .weightedRound => x = (y.mapTo y.dtype (fun q ↦ Tensor.rint q)).astype base.dtype
      | .maximum => x = top.astype base.dtype

theorem corresponds_policyState (policy : IntegerPolicy) {updates : List (List Tensor × ℚ)} {i : ℕ}
    {base y top : Tensor} (hy : (weightedMean updates)[i]? = some y)
    (hd : y.dtype = base.dtype.promoted) (ht : (maximumState updates)[i]? = some top)
    (hb : initial[i]? = some base) :
    ∃ x, (policyState policy initial updates)[i]? = some x ∧ Corresponds policy base top x y := by
  refine ⟨_, by rw [policyState, List.getElem?_mapIdx, hb, Option.map_some], ?_⟩
  have hmean : (weightedMean updates).getD i base = y := by
    rw [List.getD_eq_getElem?_getD, hy, Option.getD_some]
  have hmax : (maximumState updates).getD i base = top := by
    rw [List.getD_eq_getElem?_getD, ht, Option.getD_some]
  simp only [hmean, hmax]
  by_cases hx : base.dtype.inexact = true
  · refine ⟨?_, hd, ?_⟩ <;> simp [takesMaximum, hx, hd, DType.promoted]
  · cases policy with
    | weightedRound => exact ⟨by simp [takesMaximum, hx, Tensor.astype, Tensor.mapTo], hd, by
        simp [takesMaximum, hx]⟩
    | maximum => exact ⟨by simp [takesMaximum, hx, Tensor.astype, Tensor.mapTo], hd, by
        simp [takesMaximum, hx]⟩

/-- Float tensors agree exactly; an integer tensor keeps its dtype under the owned exchange only,
where the integer policy decides its entries. -/
theorem owned_exchange_corresponds (htied : S.tiedStateGroups = [])
    (hn : S.logicalStateNames.length = initial.length) (hd : (clients.map Client.cid).Nodup)
    (hs : served.Perm clients) :
    (clients = [] ∧ ∀ owned, outcome S hp s round owned numExamples clients served = .ok none) ∨
    ∃ x y, outcome S hp s round true numExamples clients served = .ok (some x) ∧
      outcome S hp s round false numExamples clients served = .ok (some y) ∧
      x.length = initial.length ∧ y.length = initial.length ∧
      ∀ (i : ℕ) base, initial[i]? = some base → ∃ a b top, x[i]? = some a ∧ y[i]? = some b ∧
        (maximumState (clients.map Client.logical))[i]? = some top ∧
        Corresponds S.integerAggregationPolicy base top a b := by
  by_cases hc : clients = []
  · subst hc
    obtain rfl := hs.eq_nil
    exact .inl ⟨rfl, outcome_nil S hp s round numExamples⟩
  · have hne : clients.map Client.ownedUpdate ≠ [] := by simpa using hc
    have hv := forall₂_valid clients
    refine .inr ⟨_, _, outcome_owned S hp s round numExamples hc hd hs,
      outcome_full S hp s round numExamples htied hn hc hd hs, List.length_mapIdx,
      weightedMean_length (by simpa using hc) (length_of_mem hv), ?_⟩
    intro i base hb
    obtain ⟨y, top, hy, hyd, ht⟩ := weightedMean_getElem? hv hne hb
    obtain ⟨x, hx, hxy⟩ := corresponds_policyState S.integerAggregationPolicy hy hyd ht hb
    exact ⟨x, y, top, hx, hy, ht, hxy⟩

end Outcome

/-! ### An integer counter -/

/-- A client whose prefix owns one integer counter. -/
def counter (cid : Cid) (value : ℚ) : Client [⟨⟨.int, 8⟩, [], [0]⟩] where
  cid := cid
  manifest := ⟨["steps"], [.prefixStage], ""⟩
  weight := 1
  clientState := [⟨⟨.int, 8⟩, [], [value]⟩]
  serverState := [⟨⟨.int, 8⟩, [], [0]⟩]
  weight_pos := one_pos
  names_length := rfl
  owners_length := rfl
  owners_known := rfl
  client_owned := ⟨.cons ⟨rfl, rfl⟩ .nil, fun i hi ↦ by cases i <;> simp_all⟩
  server_owned := ⟨.cons ⟨rfl, rfl⟩ .nil, fun i _ ↦ rfl⟩

def counterSettings (policy : IntegerPolicy) : Settings :=
  ⟨true, true, fun _ ↦ rfl, policy, .reject, ["steps"], [], false, "cut",
    fun _ ↦ .ok ⟨"plan", "cut", "", ⟨["steps"], [.prefixStage], ""⟩⟩, default⟩

theorem counters_correspond :
    ∃ x y, outcome (counterSettings .weightedRound) rfl .fresh 1 true (fun _ ↦ 1)
        [counter "a" 0, counter "b" 1] [counter "b" 1, counter "a" 0] = .ok (some x) ∧
      outcome (counterSettings .weightedRound) rfl .fresh 1 false (fun _ ↦ 1)
        [counter "a" 0, counter "b" 1] [counter "b" 1, counter "a" 0] = .ok (some y) ∧
      ∃ a b top, x = [a] ∧ y = [b] ∧ Corresponds .weightedRound ⟨⟨.int, 8⟩, [], [0]⟩ top a b := by
  rcases owned_exchange_corresponds (counterSettings .weightedRound) rfl .fresh 1 (fun _ ↦ 1) rfl rfl
    (by decide) (List.Perm.swap (counter "a" 0) (counter "b" 1) []) with
    ⟨h, -⟩ | ⟨x, y, hx, hy, hlx, hly, h⟩
  · cases h
  · obtain ⟨a, b, top, ha, hb, -, hab⟩ := h 0 _ rfl
    obtain ⟨a', rfl⟩ := List.length_eq_one_iff.mp hlx
    obtain ⟨b', rfl⟩ := List.length_eq_one_iff.mp hly
    cases ha
    cases hb
    exact ⟨_, _, hx, hy, a, b, top, rfl, rfl, hab⟩

/-- The two exchanges differ on an integer counter: one rounds and keeps the dtype. -/
theorem exchanges_differ :
    ¬ ∀ (S : Settings) (hp : S.perClient = true) (s : Stores) (round : ℕ) (numExamples : Cid → ℤ)
      (initial : List Tensor) (clients : List (Client initial)), S.tiedStateGroups = [] →
      S.logicalStateNames.length = initial.length → (clients.map Client.cid).Nodup →
      outcome S hp s round true numExamples clients clients =
        outcome S hp s round false numExamples clients clients := by
  intro h
  let clients := [counter "a" 0, counter "b" 1]
  have hne : clients ≠ [] := by simp [clients]
  have hd : (clients.map Client.cid).Nodup := by decide
  have hs : clients.Perm clients := .refl clients
  have ho := outcome_owned (counterSettings .weightedRound) rfl .fresh 1 (fun _ ↦ 1) hne hd hs
  have hf := outcome_full (counterSettings .weightedRound) rfl .fresh 1 (fun _ ↦ 1) rfl rfl hne hd hs
  have heq := (ho.symm.trans (h (counterSettings .weightedRound) rfl .fresh 1 (fun _ ↦ 1) _ clients
    rfl rfl hd)).trans hf
  revert heq
  decide +kernel

end SplitFleet.OwnedEquivalence
