import SplitFleet.Lib.Lists
import SplitFleet.OwnedAggregation
import SplitFleet.ServerRounds

set_option autoImplicit false

namespace SplitFleet.Publication

open Lib StateOwnership Reassembly OwnedAggregation Strategy ServerRounds

variable (S : Settings)

/-- The suffix results that reached the server. -/
def suffixes (r : RoundInput) : List ServerFitRes :=
  match r.collected with
  | .ok qs => qs
  | .error _ => []

def usable (r : RoundInput) : List FitRes := r.results.filter (fun p ↦ 0 < p.numExamples)

/-- The clients with a positive-example prefix result and a suffix result of the round. -/
def complete (r : RoundInput) : List (FitRes × ServerFitRes) :=
  (usable r).filterMap fun p ↦ ((suffixes r).find? fun q ↦ q.sid = some p.cid).map (p, ·)

/-- `u` is the weighted logical state of one complete client, reassembled from the pair that the
round began with. -/
def Reassembles (s : Stores) (g : Globals) (round : ℕ) (r : RoundInput) (pq : FitRes × ServerFitRes)
    (u : List Tensor × ℚ) : Prop :=
  u.2 = reduceWeight pq.1.numExamples ∧
    if S.ownedStateExchange then
      ∃ configured config,
        (configureFit S s round g.client r.selected r.plan).2 = .ok configured ∧
        (pq.1.cid, config) ∈ configured ∧
        Valid g.client ⟨config.ownership, pq.1.parameters, pq.2.parameters, u.2⟩ u
    else
      reassembleNamedState S.logicalStateNames g.client g.server pq.1.parameters pq.2.parameters
        S.tiedStateGroups S.tiedWeightUpdateMode = .ok u.1

/-- `m` is the aggregate of the logical states of exactly the complete clients of the round. -/
def Publishes (s : Stores) (g : Globals) (round : ℕ) (r : RoundInput) (m : List Tensor) : Prop :=
  ∃ U, List.Forall₂ (Reassembles S s g round r) (complete r) U ∧ U ≠ [] ∧
    m = if S.ownedStateExchange then policyState S.integerAggregationPolicy g.client U
      else weightedMean U

/-- Between rounds no reassembled state waits for publication. -/
def Idle (s : Stores) : Prop := ∀ round, s.reassembledClientStates round = none

theorem Idle.discardRoundState {s : Stores} (h : Idle s) (through : ℤ) :
    Idle (s.discardRoundState through) := by
  intro round
  simp [Stores.discardRoundState, Stores.dropThrough, h round]

/-! ### What the configuring calls leave -/

theorem planRoundPlacements_frame {s s' : Stores} {round : ℕ} {cids : List Cid} {training : Bool}
    {plan answer : Except PyError (Dict Cid String)}
    (h : planRoundPlacements S s round cids training plan = (s', answer)) :
    ∃ placed, s' = { s with roundPlacementAssignments := placed } := by
  unfold planRoundPlacements at h
  dsimp only at h
  cases hc : s.roundPlacementAssignments round training with
  | some cached =>
    rw [hc] at h
    dsimp only at h
    split_ifs at h <;> exact ⟨_, (congrArg Prod.fst h).symm⟩
  | none =>
    rw [hc] at h
    dsimp only at h
    split at h
    · exact ⟨_, (congrArg Prod.fst h).symm⟩
    · split_ifs at h <;> exact ⟨_, (congrArg Prod.fst h).symm⟩

/-- The manifest on record for a client of a round. -/
def manifestOf (s : Stores) (round : ℕ) (cid : Cid) : Option Manifest :=
  (s.roundOwnership round).bind (·.get? cid)

theorem manifestOf_recordOwnership (s : Stores) (round : ℕ) (cid a : Cid) (m : Manifest) :
    manifestOf (s.recordOwnership round cid m) round a =
      if cid = a then some m else manifestOf s round a := by
  cases h : s.roundOwnership round <;> simp [manifestOf, Stores.recordOwnership,
    Stores.setOwnership, Stores.put, h]

theorem configureClients_frame (round : ℕ) (assignments : Dict Cid String) (cids : List Cid)
    (s : Stores) :
    ∃ owned, (configureClients S round assignments s cids).1 = { s with roundOwnership := owned } := by
  induction cids generalizing s with
  | nil => exact ⟨_, rfl⟩
  | cons cid rest ih =>
    rw [configureClients]
    cases clientConfig S assignments cid with
    | error e => exact ⟨_, rfl⟩
    | ok config =>
      obtain ⟨owned, h⟩ := ih (if S.ownedStateExchange then s.recordOwnership round cid config.ownership
        else s)
      refine ⟨owned, h.trans ?_⟩
      by_cases ho : S.ownedStateExchange = true
      · simp [ho, Stores.recordOwnership, Stores.setOwnership]
      · simp [ho]

/-- A configured client has its own configuration, and under the owned exchange its manifest is on
record; other clients keep theirs. -/
theorem configureClients_ok {round : ℕ} {assignments : Dict Cid String} {cids : List Cid}
    {s : Stores} {configured : List (Cid × AutosplitConfig)}
    (h : (configureClients S round assignments s cids).2 = .ok configured) (cid : Cid) :
    (cid ∈ cids → ∃ config, (cid, config) ∈ configured ∧ clientConfig S assignments cid = .ok config ∧
      (S.ownedStateExchange = true → manifestOf (configureClients S round assignments s cids).1 round cid =
        some config.ownership)) ∧
    (cid ∉ cids → manifestOf (configureClients S round assignments s cids).1 round cid =
      manifestOf s round cid) := by
  induction cids generalizing s configured with
  | nil => exact ⟨fun hm ↦ absurd hm List.not_mem_nil, fun _ ↦ rfl⟩
  | cons head rest ih =>
    rw [configureClients] at h ⊢
    cases hc : clientConfig S assignments head with
    | error e => simp [hc] at h
    | ok config =>
      simp only [hc] at h ⊢
      set s' := if S.ownedStateExchange then s.recordOwnership round head config.ownership else s with hs'
      cases hr : (configureClients S round assignments s' rest).2 with
      | error e => simp [hr, Except.map] at h
      | ok tail =>
        simp only [hr, Except.map, Except.ok.injEq] at h
        subst h
        obtain ⟨hin, hout⟩ := ih hr
        refine ⟨fun hm ↦ ?_, fun hm ↦ ?_⟩
        · by_cases hrest : cid ∈ rest
          · obtain ⟨config', hmem, hcfg, hown⟩ := hin hrest
            exact ⟨config', List.mem_cons_of_mem _ hmem, hcfg, hown⟩
          · obtain rfl : cid = head := (List.mem_cons.mp hm).resolve_right hrest
            refine ⟨config, List.mem_cons_self, hc, fun ho ↦ ?_⟩
            rw [hout hrest, hs', if_pos ho, manifestOf_recordOwnership, if_pos rfl]
        · rw [List.mem_cons, not_or] at hm
          rw [hout hm.2, hs']
          by_cases ho : S.ownedStateExchange = true
          · rw [if_pos ho, manifestOf_recordOwnership, if_neg (Ne.symm hm.1)]
          · rw [if_neg ho]

theorem configureFit_ok {s s' : Stores} {round : ℕ} {parameters : List Tensor} {selected : List Cid}
    {plan : Except PyError (Dict Cid String)} {configured : List (Cid × AutosplitConfig)}
    (h : configureFit S s round parameters selected plan = (s', .ok configured)) (hi : Idle s) :
    Idle s' ∧ s'.roundInitialClientStates round = some parameters ∧
      ∀ cid ∈ selected, ∃ config, (cid, config) ∈ configured ∧
        (S.ownedStateExchange = true → manifestOf s' round cid = some config.ownership) := by
  unfold configureFit at h
  dsimp only at h
  split at h
  · cases h
  · rename_i s₂ assignments hplan
    obtain ⟨placed, rfl⟩ := planRoundPlacements_frame S hplan
    obtain ⟨owned, hf⟩ := configureClients_frame S round assignments selected _
    rw [h] at hf
    refine ⟨?_, ?_, fun cid hcid ↦ ?_⟩
    · obtain rfl : s' = _ := hf
      exact hi.discardRoundState ((round : ℤ) - 1)
    · obtain rfl : s' = _ := hf
      exact Function.update_self ..
    · obtain ⟨config, hmem, -, hown⟩ := (configureClients_ok S (congrArg Prod.snd h) cid).1 hcid
      rw [h] at hown
      exact ⟨config, hmem, hown⟩

theorem configureServerFit_ok {s s' : Stores} {round : ℕ} {parameters : List Tensor} {cids : List Cid}
    {plan : Except PyError (Dict Cid String)} {configured : List (Cid × AutosplitConfig)}
    (h : configureServerFit S s round parameters cids plan = (s', .ok configured)) :
    (Idle s → Idle s') ∧ s'.roundInitialClientStates = s.roundInitialClientStates ∧
      s'.roundOwnership = s.roundOwnership ∧
      ∃ initial, s'.roundInitialServerStates round = some initial ∧
        (S.ownedStateExchange = false → initial = parameters) := by
  unfold configureServerFit at h
  dsimp only at h
  split at h
  · cases h
  · rename_i initial hsrc
    split at h
    · cases h
    · rename_i s₂ assignments hplan
      obtain ⟨placed, rfl⟩ := planRoundPlacements_frame S hplan
      obtain rfl : _ = s' := congrArg Prod.fst h
      refine ⟨id, rfl, rfl, initial, Function.update_self .., fun ho ↦ ?_⟩
      simpa [ho, eq_comm] using hsrc

/-! ### What the aggregating calls leave -/

def pendingOf (p : FitRes) : Cid × (List Tensor × ℚ) :=
  (p.cid, (p.parameters, reduceWeight p.numExamples))

/-- Under per-client scope `aggregate_fit` stores the usable results and never publishes. -/
theorem aggregateFit_ok (hp : S.perClient = true) {s s' : Stores} {round : ℕ} {results : List FitRes}
    {observed metrics : Except PyError Unit} {published : Option (List Tensor)}
    (h : aggregateFit S s round results observed metrics = (s', .ok published)) :
    published = none ∧ s' = s.setPending round
      (Dict.ofList ((results.filter (fun p ↦ 0 < p.numExamples)).map pendingOf)) := by
  unfold aggregateFit at h
  dsimp only at h
  cases observed with
  | error e => cases h
  | ok _ =>
    dsimp only at h
    by_cases he : (results.filter (fun p ↦ 0 < p.numExamples)).isEmpty = true
    · rw [if_pos he, if_pos hp, Prod.mk.injEq, Except.ok.injEq] at h
      rw [List.isEmpty_iff.mp he]
      exact ⟨h.2.symm, h.1.symm⟩
    · rw [if_neg he] at h
      cases metrics with
      | error e => cases h
      | ok _ =>
        dsimp only at h
        rw [if_pos hp] at h
        split at h
        · cases h
        · rw [Prod.mk.injEq, Except.ok.injEq] at h
          exact ⟨h.2.symm, h.1.symm⟩

/-- Either no suffix aggregate comes out, or it is the aggregate of the stored pairs and waits as
the client's half. -/
theorem aggregateServerFit_ok (hp : S.perClient = true) {s s' : Stores} {round : ℕ}
    {qs : List ServerFitRes} {server : Option (List Tensor)} (hi : Idle s)
    (h : aggregateServerFit S s round qs = (s', .ok server)) :
    (server = none ∧ Idle s') ∨
    ∃ m client initialClient initialServer, server = some m ∧
      s.pendingClientUpdates round = some client ∧
      s.roundInitialClientStates round = some initialClient ∧
      s.roundInitialServerStates round = some initialServer ∧
      aggregatePairs S (s.roundOwnership round) round initialClient initialServer client
        (serverUpdates qs) = .ok m ∧
      ∀ k, s'.reassembledClientStates k = if k = round then some m else none := by
  unfold aggregateServerFit at h
  by_cases hq : qs.isEmpty = true
  · rw [if_pos hq] at h
    cases h
    exact .inl ⟨rfl, hi.discardRoundState round⟩
  · rw [if_neg hq, if_pos hp] at h
    dsimp only at h
    cases hc : s.pendingClientUpdates round with
    | none => simp [hc] at h
    | some client =>
      simp only [hc] at h
      by_cases he : client.entries.isEmpty = true
      · rw [if_pos he] at h
        cases h
        exact .inl ⟨rfl, hi⟩
      · rw [if_neg he] at h
        cases hic : s.roundInitialClientStates round with
        | none => simp [hic] at h
        | some initialClient =>
          cases his : s.roundInitialServerStates round with
          | none => simp [hic, his] at h
          | some initialServer =>
            simp only [hic, his] at h
            have ho : (s.popRound round).roundOwnership = s.roundOwnership := rfl
            rw [ho] at h
            split at h
            · cases h
            · rename_i m hm
              cases h
              refine .inr ⟨m, client, initialClient, initialServer, rfl, rfl, rfl, rfl, hm, fun k ↦ ?_⟩
              by_cases hk : k = round
              · subst hk
                simp [Stores.setReassembled, Stores.put]
              · have hik := hi k
                cases howned : S.ownedStateExchange <;>
                  simp [Stores.setReassembled, Stores.put, Stores.popOwnership, Stores.popRound, hk, hik]

theorem serverUpdates_get? {qs : List ServerFitRes} (h : (qs.filterMap ServerFitRes.sid).Nodup)
    (cid : Cid) : (serverUpdates qs).get? cid = qs.find? fun q ↦ q.sid = some cid := by
  have hk : (qs.filterMap fun res ↦ res.sid.map (·, res)).map Prod.fst = qs.filterMap ServerFitRes.sid := by
    rw [List.map_filterMap]
    congr 1
    funext q
    cases q.sid <;> rfl
  rw [serverUpdates, Dict.get?_ofList (hk ▸ h)]
  clear h hk
  induction qs with
  | nil => rfl
  | cons q qs ih =>
    cases hq : q.sid with
    | none => simpa [hq] using ih
    | some sid =>
      by_cases hs : sid = cid
      · simp [hq, hs, Dict.lookup]
      · simpa [hq, hs, Dict.lookup] using ih

theorem ownedUpdates_pairs {manifests : Dict Cid Manifest} {updates : Dict Cid ServerFitRes}
    {ps : List FitRes} {owned : List OwnedUpdate}
    (h : ownedUpdates manifests updates (ps.map pendingOf) = .ok owned) :
    List.Forall₂ (fun (pq : FitRes × ServerFitRes) u ↦ manifests.get? pq.1.cid = some u.manifest ∧
        u = ⟨u.manifest, pq.1.parameters, pq.2.parameters, reduceWeight pq.1.numExamples⟩)
      (ps.filterMap fun p ↦ (updates.get? p.cid).map (p, ·)) owned := by
  induction ps generalizing owned with
  | nil =>
    cases h
    exact .nil
  | cons p ps ih =>
    rw [List.map_cons, pendingOf, ownedUpdates] at h
    cases hu : updates.get? p.cid with
    | none => simpa [hu] using ih (by simpa [hu] using h)
    | some q =>
      simp only [hu] at h
      cases hm : manifests.get? p.cid with
      | none => simp [hm] at h
      | some m =>
        simp only [hm] at h
        split at h
        · cases h
        · obtain ⟨tail, ht, h⟩ := bind_eq_ok h
          cases h
          rw [List.filterMap_cons, hu]
          exact .cons ⟨hm, rfl⟩ (ih ht)

theorem logicalUpdates_pairs {initialClient initialServer : List Tensor}
    {updates : Dict Cid ServerFitRes} {ps : List FitRes} {U : List (List Tensor × ℚ)}
    (h : logicalUpdates S initialClient initialServer updates (ps.map pendingOf) = .ok U) :
    List.Forall₂ (fun (pq : FitRes × ServerFitRes) u ↦ u.2 = reduceWeight pq.1.numExamples ∧
        reassembleNamedState S.logicalStateNames initialClient initialServer pq.1.parameters
          pq.2.parameters S.tiedStateGroups S.tiedWeightUpdateMode = .ok u.1)
      (ps.filterMap fun p ↦ (updates.get? p.cid).map (p, ·)) U := by
  induction ps generalizing U with
  | nil =>
    cases h
    exact .nil
  | cons p ps ih =>
    rw [List.map_cons, pendingOf, logicalUpdates] at h
    cases hu : updates.get? p.cid with
    | none => simpa [hu] using ih (by simpa [hu] using h)
    | some q =>
      simp only [hu] at h
      obtain ⟨merged, hm, h⟩ := bind_eq_ok h
      obtain ⟨tail, ht, h⟩ := bind_eq_ok h
      cases h
      rw [List.filterMap_cons, hu]
      exact .cons ⟨rfl, hm⟩ (ih ht)

/-! ### One round -/

theorem fst_mem_usable {r : RoundInput} {pq : FitRes × ServerFitRes} (h : pq ∈ complete r) :
    pq.1 ∈ r.results := by
  obtain ⟨p, hp, hpq⟩ := List.mem_filterMap.mp h
  obtain ⟨q, -, rfl⟩ := Option.map_eq_some_iff.mp hpq
  exact (List.mem_filter.mp hp).1

theorem pending_entries (r : RoundInput) :
    (Dict.ofList ((usable r).map pendingOf)).entries = (usable r).map pendingOf := by
  apply Dict.entries_ofList
  rw [List.map_map]
  exact (List.filter_sublist.map FitRes.cid).nodup r.results_nodup

/-- The pairs that the stores of a round hold aggregate to what the round may publish. -/
theorem publishes_of_aggregatePairs {s s₁ : Stores} {g : Globals} {round : ℕ} {r : RoundInput}
    {configured : List (Cid × AutosplitConfig)} {initialServer m : List Tensor}
    (hcf : (configureFit S s round g.client r.selected r.plan).2 = .ok configured)
    (hown : ∀ cid ∈ r.selected, ∃ config, (cid, config) ∈ configured ∧
      (S.ownedStateExchange = true → manifestOf s₁ round cid = some config.ownership))
    (hserver : S.ownedStateExchange = false → initialServer = g.server)
    (h : aggregatePairs S (s₁.roundOwnership round) round g.client initialServer
      (Dict.ofList ((usable r).map pendingOf)) (serverUpdates (suffixes r)) = .ok m) :
    Publishes S s g round r m := by
  have hq : ((suffixes r).filterMap ServerFitRes.sid).Nodup := by
    unfold suffixes
    split
    · rename_i qs hqs
      exact r.suffixes_nodup qs hqs
    · exact List.nodup_nil
  have hcomplete : (usable r).filterMap (fun p ↦ ((serverUpdates (suffixes r)).get? p.cid).map (p, ·)) =
      complete r := by
    simp only [serverUpdates_get? hq, complete]
  unfold aggregatePairs at h
  rw [pending_entries] at h
  by_cases ho : S.ownedStateExchange = true
  · rw [if_pos ho] at h
    cases hm : s₁.roundOwnership round with
    | none => simp [hm] at h
    | some manifests =>
      simp only [hm] at h
      obtain ⟨owned, hu, h⟩ := bind_eq_ok h
      obtain ⟨hne, U, hU⟩ := valid_of_aggregateOwned h
      have hm' : m = policyState S.integerAggregationPolicy g.client U := by
        have := (aggregateOwned_eq hU hne).symm.trans h
        exact (Except.ok.inj this).symm
      have hpairs := ownedUpdates_pairs hu
      rw [hcomplete] at hpairs
      have hpairs := (List.forall₂_and_left _ _).mpr ⟨fun pq hpq ↦ fst_mem_usable hpq, hpairs⟩
      refine ⟨U, forall₂_trans ?_ hpairs hU, ?_, by rw [if_pos ho, hm']⟩
      · rintro pq u x ⟨hmem, hget, hu'⟩ hx
        have hx2 : x.2 = reduceWeight pq.1.numExamples := by
          obtain ⟨_, _, _, _, hw, -⟩ := hx
          rw [hu'] at hw
          exact (Option.some.inj (finitePositive_eq_ok_iff.mp hw).1).symm
        obtain ⟨config, hcfg, hman⟩ := hown _ (r.results_selected _ hmem)
        have hman : u.manifest = config.ownership := by
          have := hman ho
          rw [manifestOf, hm, Option.bind_some, hget] at this
          exact Option.some.inj this
        refine ⟨hx2, ?_⟩
        rw [if_pos ho]
        refine ⟨configured, config, hcf, hcfg, ?_⟩
        rw [hx2, ← hman, ← hu']
        exact hx
      · rintro rfl
        cases hU
        exact hne rfl
  · rw [if_neg ho] at h
    obtain ⟨U, hU, h⟩ := bind_eq_ok h
    have hpairs := logicalUpdates_pairs S hU
    rw [hcomplete, hserver (by simpa using ho)] at hpairs
    split_ifs at h with hne
    have hne' : U ≠ [] := by simpa using hne
    refine ⟨U, hpairs.imp ?_, hne', ?_⟩
    · rintro pq u ⟨h₁, h₂⟩
      exact ⟨h₁, by rw [if_neg ho]; exact h₂⟩
    · rw [if_neg ho, ← S.aggregate.run_eq U hne']
      exact (Except.ok.inj h).symm

theorem Idle.popReassembled {s : Stores} {round : ℕ} (h : ∀ k, k ≠ round → s.reassembledClientStates k = none) :
    Idle (s.popReassembled round) := by
  intro k
  by_cases hk : k = round
  · simp [Stores.popReassembled, Stores.pop, hk]
  · simp [Stores.popReassembled, Stores.pop, hk, h k hk]

/-- The aggregating half of a round, on the stores that the configuring half left. -/
theorem aggregateRound_ok (hp : S.perClient = true) {s s₁ s' : Stores} {g : Globals} {round : ℕ}
    {r : RoundInput} {res : RoundResult} {configured : List (Cid × AutosplitConfig)}
    {initialServer : List Tensor} (hi : Idle s₁)
    (hcf : (configureFit S s round g.client r.selected r.plan).2 = .ok configured)
    (hown : ∀ cid ∈ r.selected, ∃ config, (cid, config) ∈ configured ∧
      (S.ownedStateExchange = true → manifestOf s₁ round cid = some config.ownership))
    (hic : s₁.roundInitialClientStates round = some g.client)
    (his : s₁.roundInitialServerStates round = some initialServer)
    (hserver : S.ownedStateExchange = false → initialServer = g.server)
    (h : aggregateRound S s₁ round r.results (suffixes r) r.observed r.metrics = (s', .ok res)) :
    Idle s' ∧ (res = some (none, none) ∨
      ∃ m, res = some (some m, some m) ∧ Publishes S s g round r m) := by
  unfold aggregateRound at h
  split at h
  · cases h
  · rename_i s₂ client haf
    obtain ⟨rfl, rfl⟩ := aggregateFit_ok S hp haf
    split at h
    · cases h
    · rename_i s₃ server has
      have hi₂ : Idle (s₁.setPending round (Dict.ofList ((usable r).map pendingOf))) := hi
      rcases aggregateServerFit_ok S hp hi₂ has with ⟨rfl, hi₃⟩ |
        ⟨m, pend, ic, is, rfl, hpend, hic', his', hagg, hre⟩
      · simp only [finalizeRound, hi₃ round, Prod.mk.injEq, Except.ok.injEq] at h
        obtain ⟨rfl, rfl⟩ := h
        exact ⟨.popReassembled fun k _ ↦ hi₃ k, .inl rfl⟩
      · have hround := hre round
        rw [if_pos rfl] at hround
        simp only [finalizeRound, hround, Prod.mk.injEq, Except.ok.injEq] at h
        obtain ⟨rfl, rfl⟩ := h
        refine ⟨.popReassembled fun k hk ↦ by rw [hre k, if_neg hk], .inr ⟨m, rfl, ?_⟩⟩
        have hput : (s₁.setPending round (Dict.ofList ((usable r).map pendingOf))).pendingClientUpdates
            round = some (Dict.ofList ((usable r).map pendingOf)) := Function.update_self ..
        obtain rfl : Dict.ofList ((usable r).map pendingOf) = pend :=
          Option.some.inj (hput.symm.trans hpend)
        obtain rfl : g.client = ic := Option.some.inj (hic.symm.trans hic')
        obtain rfl : initialServer = is := Option.some.inj (his.symm.trans his')
        exact publishes_of_aggregatePairs S hcf hown hserver hagg

/-- What a round that does not raise can return. -/
theorem fitRound_ok (hp : S.perClient = true) {s s' : Stores} {g : Globals} {round : ℕ}
    {r : RoundInput} {res : RoundResult} (hi : Idle s)
    (h : fitRound S s g round r = (s', .ok res)) :
    Idle s' ∧ (res = none ∨ res = some (none, none) ∨
      ∃ m, res = some (some m, some m) ∧ Publishes S s g round r m) := by
  unfold fitRound at h
  split at h
  · cases h
  · rename_i s₁ configured hcf
    obtain ⟨hi₁, hic, hown⟩ := configureFit_ok S hcf hi
    split_ifs at h with hempty
    · cases h
      exact ⟨hi₁, .inl rfl⟩
    · split at h
      · cases h
      · rename_i s₂ replicas hcs
        obtain ⟨hi₂, hic₂, ho₂, initialServer, his, hserver⟩ := configureServerFit_ok S hcs
        split at h
        · cases h
        · cases h
        · rename_i qs _ hqs
          have hsuf : suffixes r = qs := by rw [suffixes, hqs]
          rw [← hsuf] at h
          have hown₂ : ∀ cid ∈ r.selected, ∃ config, (cid, config) ∈ configured ∧
              (S.ownedStateExchange = true → manifestOf s₂ round cid = some config.ownership) := by
            simpa only [manifestOf, ho₂] using hown
          obtain ⟨hi', hres⟩ := aggregateRound_ok S hp (hi₂ hi₁) (congrArg Prod.snd hcf) hown₂
            (hic₂ ▸ hic) his hserver h
          exact ⟨hi', .inr hres⟩

/-! ### Whole runs -/

theorem evaluateRound_idle {s s' : Stores} {round : ℕ} {r : RoundInput} {x : Except PyError Unit}
    (h : evaluateRound S s round r = (s', x)) (hi : Idle s) : Idle s' := by
  unfold evaluateRound at h
  split at h
  · rename_i s₁ e hplan
    obtain ⟨placed, rfl⟩ := planRoundPlacements_frame S hplan
    cases h
    exact hi
  · rename_i s₁ assignments hplan
    obtain ⟨placed, rfl⟩ := planRoundPlacements_frame S hplan
    cases h
    exact hi

/-- The published pair is the old one or two copies of the round's aggregate. -/
def Safe (rec : Record) : Prop :=
  (rec.after = rec.before ∨
    ∃ m, rec.after = ⟨m, m⟩ ∧ Publishes S rec.stores rec.before rec.round rec.input m) ∧
  (complete rec.input = [] → rec.after = rec.before ∧
    (rec.result = .ok none ∨ rec.result = .ok (some (none, none)) ∨ ∃ e, rec.result = .error e))

theorem client_eq_nil {s : Stores} {g : Globals} {round : ℕ} {r : RoundInput}
    (h : Publishes S s g round r []) : g.client = [] := by
  obtain ⟨U, hU, hne, hm⟩ := h
  apply List.eq_nil_of_length_eq_zero
  by_cases ho : S.ownedStateExchange = true
  · rw [if_pos ho] at hm
    have hl : (policyState S.integerAggregationPolicy g.client U).length = g.client.length :=
      List.length_mapIdx
    rw [← hl, ← hm, List.length_nil]
  · rw [if_neg ho] at hm
    have hlen : ∀ u ∈ U, u.1.length = S.logicalStateNames.length ∧
        g.client.length = S.logicalStateNames.length := by
      intro u hu
      obtain ⟨i, hi, rfl⟩ := List.getElem_of_mem hu
      have hR := hU.get (hU.length_eq ▸ hi) hi
      simp only [Reassembles, if_neg ho] at hR
      obtain ⟨h₁, h₂, -⟩ := reassembleNamedState_length hR.2
      exact ⟨h₁, h₂⟩
    obtain ⟨u, hu⟩ := List.exists_mem_of_ne_nil U hne
    rw [(hlen u hu).2, ← weightedMean_length hne fun v hv ↦ (hlen v hv).1, ← hm, List.length_nil]

theorem safe_of_fitRound (hp : S.perClient = true) {s s' : Stores} {g : Globals} {round : ℕ}
    {r : RoundInput} {res : RoundResult} (hi : Idle s) (h : fitRound S s g round r = (s', .ok res)) :
    Idle s' ∧ Safe S ⟨round, r, s, g, .ok res, publish g res⟩ := by
  obtain ⟨hi', hres⟩ := fitRound_ok S hp hi h
  refine ⟨hi', ?_⟩
  rcases hres with rfl | rfl | ⟨m, rfl, hm⟩
  · exact ⟨.inl rfl, fun _ ↦ ⟨rfl, .inl rfl⟩⟩
  · exact ⟨.inl rfl, fun _ ↦ ⟨rfl, .inr (.inl rfl)⟩⟩
  · refine ⟨?_, fun hc ↦ ?_⟩
    · cases m with
      | nil =>
        have hg := client_eq_nil S hm
        obtain ⟨client, server⟩ := g
        obtain rfl : client = [] := hg
        exact .inl rfl
      | cons t ts => exact .inr ⟨t :: ts, rfl, hm⟩
    · obtain ⟨U, hU, hne, -⟩ := hm
      rw [show complete r = [] from hc] at hU
      cases hU
      exact absurd rfl hne

theorem safe_of_fitFrom (hp : S.perClient = true) {round : ℕ} {s : Stores} {g : Globals}
    {rounds : List RoundInput} (hi : Idle s) : ∀ rec ∈ fitFrom S round s g rounds, Safe S rec := by
  induction rounds generalizing round s g with
  | nil => exact fun rec h ↦ absurd h List.not_mem_nil
  | cons r rest ih =>
    rw [fitFrom]
    split
    · rename_i s' e _
      intro rec h
      obtain rfl := List.mem_singleton.mp h
      exact ⟨.inl rfl, fun _ ↦ ⟨rfl, .inr (.inr ⟨e, rfl⟩)⟩⟩
    · rename_i s' res hround
      obtain ⟨hi', hsafe⟩ := safe_of_fitRound S hp hi hround
      intro rec h
      rcases List.mem_cons.mp h with rfl | h
      · exact hsafe
      · split at h
        · exact absurd h List.not_mem_nil
        · rename_i s'' _ heval
          exact ih (evaluateRound_idle S heval hi') rec h

/-- Every round of every run either keeps the pair or publishes, as both halves, the aggregate of
its own complete clients, and `aggregate_fit` alone publishes nothing. -/
theorem publication_safe (hp : S.perClient = true) (g : Globals) (rounds : List RoundInput) :
    (∀ rec ∈ fit S g rounds, Safe S rec) ∧
    ∀ (s : Stores) (round : ℕ) (results : List FitRes) (observed metrics : Except PyError Unit),
      (aggregateFit S s round results observed metrics).2 = .ok none ∨
        ∃ e, (aggregateFit S s round results observed metrics).2 = .error e := by
  refine ⟨safe_of_fitFrom S hp fun _ ↦ rfl, fun s round results observed metrics ↦ ?_⟩
  cases h : aggregateFit S s round results observed metrics with
  | mk s' answer =>
    cases answer with
    | error e => exact .inr ⟨e, rfl⟩
    | ok published =>
      obtain ⟨rfl, -⟩ := aggregateFit_ok S hp h
      exact .inl rfl

/-! ### A round with an integer counter -/

def counterSettings : Settings :=
  ⟨true, true, fun _ ↦ rfl, .weightedRound, .reject, ["steps"], [], false, "cut",
    fun _ ↦ .ok ⟨"plan", "cut", "", ⟨["steps"], [.prefixStage], "digest"⟩⟩, default⟩

def counterState (value : ℚ) : List Tensor := [⟨⟨.int, 8⟩, [], [value]⟩]

/-- Two clients return the counters 1 and 2. -/
def counterRound : RoundInput where
  selected := ["a", "b"]
  plan := .ok Dict.empty
  initialized := .ok ()
  results := [⟨"a", 1, counterState 1, some "digest"⟩, ⟨"b", 1, counterState 2, some "digest"⟩]
  collected := .ok [⟨some "a", [], some "digest", 1⟩, ⟨some "b", [], some "digest", 1⟩]
  observed := .ok ()
  metrics := .ok ()
  evaluated := []
  evaluationPlan := .ok Dict.empty
  evaluation := .ok ()
  results_nodup := by decide
  results_selected := by simp
  suffixes_nodup := by rintro _ ⟨rfl⟩; decide

theorem counterRound_result :
    ((fit counterSettings ⟨counterState 0, []⟩ [counterRound]).map fun rec ↦ (rec.before, rec.after)) =
      [(⟨counterState 0, []⟩, ⟨counterState 2, counterState 2⟩)] := by
  decide +kernel

theorem counterRound_safe :
    (∀ rec ∈ fit counterSettings ⟨counterState 0, []⟩ [counterRound], Safe counterSettings rec) ∧
    ∀ (s : Stores) (round : ℕ) (results : List FitRes) (observed metrics : Except PyError Unit),
      (aggregateFit counterSettings s round results observed metrics).2 = .ok none ∨
        ∃ e, (aggregateFit counterSettings s round results observed metrics).2 = .error e :=
  publication_safe counterSettings rfl ⟨counterState 0, []⟩ [counterRound]

/-- The owned exchange publishes the rounded counter, which is no weighted mean. -/
theorem not_always_weightedMean :
    ¬ ∀ (S : Settings), S.perClient = true → ∀ (g : Globals) (rounds : List RoundInput),
      ∀ rec ∈ fit S g rounds, rec.after = rec.before ∨
        ∃ m U, rec.after = ⟨m, m⟩ ∧
          List.Forall₂ (Reassembles S rec.stores rec.before rec.round rec.input) (complete rec.input) U ∧
          m = weightedMean U := by
  intro h
  obtain ⟨rec, hfit, hrec⟩ := List.map_eq_singleton_iff.mp counterRound_result
  obtain ⟨hbefore, hafter⟩ := Prod.mk.inj hrec
  rcases h counterSettings rfl ⟨counterState 0, []⟩ [counterRound] rec (by simp [hfit]) with
    heq | ⟨m, U, hm, -, hU⟩
  · rw [hbefore, hafter] at heq
    revert heq
    decide
  · rw [hafter, Globals.mk.injEq] at hm
    have hmem : (⟨⟨.int, 8⟩, [], [2]⟩ : Tensor) ∈ weightedMean U := by
      rw [← hU, ← hm.1]
      exact List.mem_singleton_self _
    have hx := weightedMean_inexact _ hmem
    revert hx
    decide

end SplitFleet.Publication
