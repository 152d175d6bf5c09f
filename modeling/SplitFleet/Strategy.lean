import SplitFleet.Reassembly

set_option autoImplicit false

namespace SplitFleet.Strategy

open Lib StateOwnership Reassembly

abbrev Cid := String

/-- The part of a stage's configuration that the strategy fixes for a round. -/
structure AutosplitConfig where
  planId : String
  boundary : String
  graphContractDigest : String
  ownership : Manifest

/-- The constructor arguments. A boundary names one cached placement plan, so `autosplitConfig` is a
function of the boundary. -/
structure Settings where
  perClient : Bool
  ownedStateExchange : Bool
  owned_perClient : ownedStateExchange = true → perClient = true
  integerAggregationPolicy : IntegerPolicy
  tiedWeightUpdateMode : TiedMode
  logicalStateNames : List String
  tiedStateGroups : List (List ℕ)
  hasPlacementPolicy : Bool
  boundary : String
  autosplitConfig : String → Except PyError AutosplitConfig
  aggregate : FlowerAggregate

/-- The per-round stores, by round. -/
structure Stores where
  roundOwnership : ℕ → Option (Dict Cid Manifest)
  roundPlacementAssignments : ℕ → Bool → Option (Dict Cid String)
  roundInitialClientStates : ℕ → Option (List Tensor)
  roundInitialServerStates : ℕ → Option (List Tensor)
  pendingClientUpdates : ℕ → Option (Dict Cid (List Tensor × ℚ))
  reassembledClientStates : ℕ → Option (List Tensor)

namespace Stores

/-- `store[round] = value`. -/
def put {α : Type} (store : ℕ → Option α) (round : ℕ) (value : α) : ℕ → Option α :=
  Function.update store round (some value)

/-- `store.pop(round, None)`. -/
def pop {α : Type} (store : ℕ → Option α) (round : ℕ) : ℕ → Option α :=
  Function.update store round none

def fresh : Stores :=
  ⟨fun _ ↦ none, fun _ _ ↦ none, fun _ ↦ none, fun _ ↦ none, fun _ ↦ none, fun _ ↦ none⟩

/-- `for stale in [key for key in store if key <= through]: store.pop(stale)`. -/
def dropThrough {α : Type} (through : ℤ) (store : ℕ → Option α) : ℕ → Option α :=
  fun key ↦ if (key : ℤ) ≤ through then none else store key

def discardRoundState (s : Stores) (through : ℤ) : Stores :=
  { s with
    roundInitialClientStates := dropThrough through s.roundInitialClientStates
    roundInitialServerStates := dropThrough through s.roundInitialServerStates
    pendingClientUpdates := dropThrough through s.pendingClientUpdates
    reassembledClientStates := dropThrough through s.reassembledClientStates
    roundOwnership := dropThrough through s.roundOwnership }

def prunePlacementCache (s : Stores) (round : ℕ) : Stores :=
  { s with roundPlacementAssignments := fun key training ↦
      if key < round then none else s.roundPlacementAssignments key training }

def placeRound (s : Stores) (round : ℕ) (training : Bool) (assignments : Dict Cid String) : Stores :=
  { s with roundPlacementAssignments := fun key flag ↦
      if key = round ∧ flag = training then some assignments else s.roundPlacementAssignments key flag }

def setInitialClient (s : Stores) (round : ℕ) (state : List Tensor) : Stores :=
  { s with roundInitialClientStates := put s.roundInitialClientStates round state }

def setInitialServer (s : Stores) (round : ℕ) (state : List Tensor) : Stores :=
  { s with roundInitialServerStates := put s.roundInitialServerStates round state }

def setPending (s : Stores) (round : ℕ) (updates : Dict Cid (List Tensor × ℚ)) : Stores :=
  { s with pendingClientUpdates := put s.pendingClientUpdates round updates }

/-- The three `pop` calls that open the per-client aggregation. -/
def popRound (s : Stores) (round : ℕ) : Stores :=
  { s with
    pendingClientUpdates := pop s.pendingClientUpdates round
    roundInitialClientStates := pop s.roundInitialClientStates round
    roundInitialServerStates := pop s.roundInitialServerStates round }

def popOwnership (s : Stores) (round : ℕ) : Stores :=
  { s with roundOwnership := pop s.roundOwnership round }

def setReassembled (s : Stores) (round : ℕ) (state : List Tensor) : Stores :=
  { s with reassembledClientStates := put s.reassembledClientStates round state }

def popReassembled (s : Stores) (round : ℕ) : Stores :=
  { s with reassembledClientStates := pop s.reassembledClientStates round }

def setOwnership (s : Stores) (round : ℕ) (manifests : Dict Cid Manifest) : Stores :=
  { s with roundOwnership := put s.roundOwnership round manifests }

/-- `_round_ownership.setdefault(round, {})[cid] = manifest`. -/
def recordOwnership (s : Stores) (round : ℕ) (cid : Cid) (m : Manifest) : Stores :=
  s.setOwnership round (((s.roundOwnership round).getD Dict.empty).insert cid m)

end Stores

structure FitRes where
  cid : Cid
  numExamples : ℤ
  parameters : List Tensor
  digest : Option String

structure ServerFitRes where
  sid : Option Cid
  parameters : List Tensor
  digest : Option String
  numExamples : ℤ

variable (S : Settings)

/-- The policy's answer `plan` is read only when the round is planned for the first time. -/
def planRoundPlacements (s : Stores) (round : ℕ) (cids : List Cid) (training : Bool)
    (plan : Except PyError (Dict Cid String)) : Stores × Except PyError (Dict Cid String) :=
  match s.roundPlacementAssignments round training with
  | some cached =>
    let missing := (cids.filter (fun cid ↦ cid ∉ cached.keys)).dedup
    if missing ≠ [] then
      (s, .error (.valueError ("round " ++ toString round ++
        " placement was already fixed without clients " ++ pyReprList (missing.mergeSort (· ≤ ·)))))
    else (s, .ok cached)
  | none =>
    let assignments := if S.hasPlacementPolicy then plan
      else .ok (Dict.ofList (cids.map (fun cid ↦ (cid, S.boundary))))
    match assignments with
    | .error e => (s, .error e)
    | .ok assignments =>
      if S.hasPlacementPolicy && assignments.keys.toFinset ≠ cids.toFinset then
        (s, .error (.valueError
          "placement policy must return exactly one boundary per selected client"))
      else
        ((s.placeRound round training assignments).prunePlacementCache round, .ok assignments)

/-- `_placement_for_client` after the round is planned, then `_autosplit_config`. -/
def clientConfig (assignments : Dict Cid String) (cid : Cid) : Except PyError AutosplitConfig :=
  if S.hasPlacementPolicy then
    match assignments.get? cid with
    | some boundary => S.autosplitConfig boundary
    | none => .error (.valueError ("no round placement exists for client " ++ pyRepr cid))
  else S.autosplitConfig S.boundary

def configureClients (round : ℕ) (assignments : Dict Cid String) :
    Stores → List Cid → Stores × Except PyError (List (Cid × AutosplitConfig))
  | s, [] => (s, .ok [])
  | s, cid :: rest =>
    match clientConfig S assignments cid with
    | .error e => (s, .error e)
    | .ok config =>
      let s := if S.ownedStateExchange then s.recordOwnership round cid config.ownership else s
      let (s, configured) := configureClients round assignments s rest
      (s, configured.map ((cid, config) :: ·))

def configureFit (s : Stores) (round : ℕ) (parameters : List Tensor) (selected : List Cid)
    (plan : Except PyError (Dict Cid String)) :
    Stores × Except PyError (List (Cid × AutosplitConfig)) :=
  let s := (s.discardRoundState ((round : ℤ) - 1)).setInitialClient round parameters
  match planRoundPlacements S s round selected true plan with
  | (s, .error e) => (s, .error e)
  | (s, .ok assignments) => configureClients S round assignments s selected

/-- The suffix configurations, one per client or one shared by all. -/
def configureReplicas (assignments : Dict Cid String) (cids : List Cid) :
    Except PyError (List (Cid × AutosplitConfig)) :=
  if S.perClient then cids.mapM (fun cid ↦ (clientConfig S assignments cid).map (cid, ·))
  else
    match cids with
    | [] => .error (.keyError "list index out of range")
    | cid :: _ => (clientConfig S assignments cid).map (fun config ↦ [("", config)])

def configureServerFit (s : Stores) (round : ℕ) (parameters : List Tensor) (cids : List Cid)
    (plan : Except PyError (Dict Cid String)) :
    Stores × Except PyError (List (Cid × AutosplitConfig)) :=
  let source := if S.ownedStateExchange then s.roundInitialClientStates round else some parameters
  match source with
  | none => (s, .error (.keyError (toString round)))
  | some initial =>
    match planRoundPlacements S (s.setInitialServer round initial) round cids true plan with
    | (s, .error e) => (s, .error e)
    | (s, .ok assignments) => (s, configureReplicas S assignments cids)

/-- `AggregationPolicy.reduce_weights`, for one count. -/
def reduceWeight (count : ℤ) : ℚ := max 1 count

/-- The prefix digests of a round against the manifests it was configured with. -/
def checkPrefixDigests (manifests : Option (Dict Cid Manifest)) (round : ℕ) :
    List FitRes → Except PyError Unit
  | [] => .ok ()
  | res :: rest =>
    match manifests with
    | none => .error (.keyError (toString round))
    | some d =>
      match d.get? res.cid with
      | none => .error (.keyError res.cid)
      | some m =>
        if res.digest ≠ some m.digest then
          .error (.runtimeError "Prefix state ownership digest mismatch")
        else checkPrefixDigests manifests round rest

/-- `observed` is the outcome of the policy and selector updates, `metrics` that of the metrics
callback; either may raise. -/
def aggregateFit (s : Stores) (round : ℕ) (results : List FitRes)
    (observed metrics : Except PyError Unit) : Stores × Except PyError (Option (List Tensor)) :=
  let results := results.filter (fun res ↦ 0 < res.numExamples)
  match observed with
  | .error e => (s, .error e)
  | .ok _ =>
    if results.isEmpty then
      if S.perClient then (s.setPending round Dict.empty, .ok none)
      else (s, .ok none)
    else
      match metrics with
      | .error e => (s, .error e)
      | .ok _ =>
        if S.perClient then
          match if S.ownedStateExchange then checkPrefixDigests (s.roundOwnership round) round results
            else .ok () with
          | .error e => (s, .error e)
          | .ok _ =>
            (s.setPending round (Dict.ofList (results.map fun res ↦
              (res.cid, (res.parameters, reduceWeight res.numExamples)))), .ok none)
        else
          (s, .ok (some (S.aggregate.run
            (results.map fun res ↦ (res.parameters, reduceWeight res.numExamples)))))

/-- `server_updates`: the suffix results by the client they belong to. -/
def serverUpdates (results : List ServerFitRes) : Dict Cid ServerFitRes :=
  Dict.ofList (results.filterMap fun res ↦ res.sid.map (·, res))

def ownedUpdates (manifests : Dict Cid Manifest) (updates : Dict Cid ServerFitRes) :
    List (Cid × (List Tensor × ℚ)) → Except PyError (List OwnedUpdate)
  | [] => .ok []
  | (cid, (front, weight)) :: rest =>
    match updates.get? cid with
    | none => ownedUpdates manifests updates rest
    | some back =>
      match manifests.get? cid with
      | none => .error (.keyError cid)
      | some manifest =>
        if back.digest ≠ some manifest.digest then
          .error (.runtimeError "Suffix state ownership digest mismatch")
        else do
          let tail ← ownedUpdates manifests updates rest
          .ok (⟨manifest, front, back.parameters, weight⟩ :: tail)

def logicalUpdates (initialClient initialServer : List Tensor) (updates : Dict Cid ServerFitRes) :
    List (Cid × (List Tensor × ℚ)) → Except PyError (List (List Tensor × ℚ))
  | [] => .ok []
  | (cid, (state, weight)) :: rest =>
    match updates.get? cid with
    | none => logicalUpdates initialClient initialServer updates rest
    | some back => do
      let merged ← reassembleNamedState S.logicalStateNames initialClient initialServer state
        back.parameters S.tiedStateGroups S.tiedWeightUpdateMode
      let tail ← logicalUpdates initialClient initialServer updates rest
      .ok ((merged, weight) :: tail)

/-- The per-client branch of `aggregate_server_fit`, after the round's entries are popped. -/
def aggregatePairs (manifests : Option (Dict Cid Manifest)) (round : ℕ)
    (initialClient initialServer : List Tensor) (clientUpdates : Dict Cid (List Tensor × ℚ))
    (updates : Dict Cid ServerFitRes) : Except PyError (List Tensor) :=
  if S.ownedStateExchange then
    match manifests with
    | none => .error (.keyError (toString round))
    | some manifests => do
      let owned ← ownedUpdates manifests updates clientUpdates.entries
      aggregateOwned initialClient owned S.integerAggregationPolicy
  else do
    let logical ← logicalUpdates S initialClient initialServer updates clientUpdates.entries
    if logical.isEmpty then
      .error (.runtimeError "No client update had a matching per-client suffix result.")
    else .ok (S.aggregate.run logical)

def aggregateServerFit (s : Stores) (round : ℕ) (results : List ServerFitRes) :
    Stores × Except PyError (Option (List Tensor)) :=
  if results.isEmpty then (s.discardRoundState round, .ok none)
  else if S.perClient then
    let clientUpdates := s.pendingClientUpdates round
    let initialClient := s.roundInitialClientStates round
    let initialServer := s.roundInitialServerStates round
    let s := s.popRound round
    match clientUpdates with
    | none =>
      (s, .error (.runtimeError
        "Per-client suffix aggregation requires matching client updates first."))
    | some clientUpdates =>
      if clientUpdates.entries.isEmpty then (s, .ok none)
      else
        match initialClient, initialServer with
        | some initialClient, some initialServer =>
          let manifests := s.roundOwnership round
          let s := if S.ownedStateExchange then s.popOwnership round else s
          match aggregatePairs S manifests round initialClient initialServer clientUpdates
              (serverUpdates results) with
          | .error e => (s, .error e)
          | .ok aggregated => (s.setReassembled round aggregated, .ok (some aggregated))
        | _, _ =>
          (s, .error (.runtimeError
            "Round initial state is unavailable for logical model reassembly."))
  else
    (s.discardRoundState round, .ok (some (S.aggregate.run
      (results.map fun res ↦ (res.parameters, reduceWeight res.numExamples)))))

def finalizeRound (s : Stores) (round : ℕ) (client server : Option (List Tensor)) :
    Stores × (Option (List Tensor) × Option (List Tensor)) :=
  match s.reassembledClientStates round with
  | none => (s.popReassembled round, (client, server))
  | some reassembled => (s.popReassembled round, (some reassembled, server))

end SplitFleet.Strategy
