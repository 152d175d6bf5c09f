import SplitFleet.Strategy

set_option autoImplicit false

namespace SplitFleet.ServerRounds

open Lib StateOwnership Reassembly Strategy

/-- The pair that `Server` holds. -/
structure Globals where
  client : List Tensor
  server : List Tensor
  deriving DecidableEq

/-- What one round meets outside the strategy: the clients it selects, the answers of the placement
policy, the clients' and the suffixes' results, and the outcome of every call that may raise. -/
structure RoundInput where
  selected : List Cid
  plan : Except PyError (Dict Cid String)
  initialized : Except PyError Unit
  results : List FitRes
  collected : Except PyError (List ServerFitRes)
  observed : Except PyError Unit
  metrics : Except PyError Unit
  evaluated : List Cid
  evaluationPlan : Except PyError (Dict Cid String)
  evaluation : Except PyError Unit
  results_nodup : (results.map FitRes.cid).Nodup
  results_selected : ∀ p ∈ results, p.cid ∈ selected
  suffixes_nodup : ∀ qs, collected = .ok qs → (qs.filterMap ServerFitRes.sid).Nodup

/-- The two halves that `fit_round` returns, or nothing when no client was selected. -/
abbrev RoundResult := Option (Option (List Tensor) × Option (List Tensor))

variable (S : Settings)

/-- The two aggregation calls and `finalize_round`. -/
def aggregateRound (s : Stores) (round : ℕ) (results : List FitRes) (suffixes : List ServerFitRes)
    (observed metrics : Except PyError Unit) : Stores × Except PyError RoundResult :=
  match aggregateFit S s round results observed metrics with
  | (s, .error e) => (s, .error e)
  | (s, .ok client) =>
    match aggregateServerFit S s round suffixes with
    | (s, .error e) => (s, .error e)
    | (s, .ok server) =>
      let (s, halves) := finalizeRound s round client server
      (s, .ok (some halves))

def fitRound (s : Stores) (g : Globals) (round : ℕ) (r : RoundInput) :
    Stores × Except PyError RoundResult :=
  match configureFit S s round g.client r.selected r.plan with
  | (s, .error e) => (s, .error e)
  | (s, .ok instructions) =>
    if instructions.isEmpty then (s, .ok none)
    else
      match configureServerFit S s round g.server r.selected r.plan with
      | (s, .error e) => (s, .error e)
      | (s, .ok _) =>
        match r.initialized, r.collected with
        | .error e, _ => (s, .error e)
        | .ok _, .error e => (s, .error e)
        | .ok _, .ok suffixes => aggregateRound S s round r.results suffixes r.observed r.metrics

/-- A `Parameters` object is true even without tensors; a list of arrays is not. -/
def publish (g : Globals) : RoundResult → Globals
  | none => g
  | some (client, server) =>
    ⟨client.getD g.client, match server with
      | none => g.server
      | some m => if m.isEmpty then g.server else m⟩

/-- Evaluation reads the globals; of the stores it touches the placement cache only. -/
def evaluateRound (s : Stores) (round : ℕ) (r : RoundInput) : Stores × Except PyError Unit :=
  match planRoundPlacements S s round r.evaluated false r.evaluationPlan with
  | (s, .error e) => (s, .error e)
  | (s, .ok _) => (s, r.evaluation)

/-- One round of a run: the stores and globals it began with, and what it left. -/
structure Record where
  round : ℕ
  input : RoundInput
  stores : Stores
  before : Globals
  result : Except PyError RoundResult
  after : Globals

/-- The rounds of `Server.fit` from `round` on. The first exception ends the run. -/
def fitFrom : ℕ → Stores → Globals → List RoundInput → List Record
  | _, _, _, [] => []
  | round, s, g, r :: rest =>
    match fitRound S s g round r with
    | (_, .error e) => [⟨round, r, s, g, .error e, g⟩]
    | (s', .ok res) =>
      ⟨round, r, s, g, .ok res, publish g res⟩ ::
        match evaluateRound S s' round r with
        | (_, .error _) => []
        | (s'', .ok _) => fitFrom (round + 1) s'' (publish g res) rest

def fit (g : Globals) (rounds : List RoundInput) : List Record := fitFrom S 1 .fresh g rounds

end SplitFleet.ServerRounds
