import SplitFleet.Lib.Sampling
import SplitFleet.Lib.Sorting
import Mathlib.Data.Finset.Sort
import Mathlib.Data.Rat.Floor
import Mathlib.Data.String.Basic

set_option autoImplicit false

namespace SplitFleet.ClientSelection

open Lib

/-- The functions of `math` on exact numbers. -/
structure Maths where
  log : ℚ → ℚ
  log1p : ℚ → ℚ
  sqrt : ℚ → ℚ
  pow : ℚ → ℚ → ℚ

/-- `int(q)`. -/
def truncate (q : ℚ) : ℤ := if 0 ≤ q then ⌊q⌋ else ⌈q⌉

def divide (x y : ℚ) : Except PyError ℚ :=
  if y = 0 then .error (.raised "ZeroDivisionError" "float division by zero") else .ok (x / y)

def mean (l : List ℚ) : ℚ := l.sum / l.length

/-- `np.max` of a list that is not empty. -/
def maxOf : List ℚ → ℚ
  | [] => 0
  | x :: l => l.foldl max x

/-- `np.quantile`, linear between the two nearest values. -/
def quantile (l : List ℚ) (q : ℚ) : ℚ :=
  let sorted := l.insertionSort (· ≤ ·)
  let position := q * (l.length - 1)
  let below := sorted.getD ⌊position⌋.toNat 0
  let above := sorted.getD (⌊position⌋.toNat + 1) below
  below + (position - ⌊position⌋) * (above - below)

/-- A value of a metrics mapping. -/
inductive MetricValue
  | bool (b : Bool)
  | int (n : ℤ)
  | float (q : ℚ)
  | infinite
  | nan
  | other

structure OortSelectorConfig where
  explorationFactor : ℚ
  explorationDecay : ℚ
  explorationMin : ℚ
  explorationAlpha : ℚ
  sampleWindow : ℚ
  roundThreshold : ℚ
  roundPenalty : ℚ
  pacerStep : ℤ
  pacerDelta : ℚ
  clipBound : ℚ
  cutOffUtil : ℚ
  blacklistRounds : ℤ
  blacklistMaxLen : ℚ
  minDuration : ℚ

structure ClientState where
  cid : String
  reward : ℚ := 0
  duration : ℚ := 1
  numExamples : ℤ := 0
  lastSelectedRound : ℤ := 0
  selectedCount : ℕ := 0
  available : Bool := true
  lastLoss : Option ℚ := none
  lastAccuracy : Option ℚ := none
  lastFitRound : Option ℤ := none
  failureCount : ℕ := 0
  lastFailureRound : Option ℤ := none
  lastFailureReason : Option String := none

structure Metadata where
  exploration : ℚ
  roundThreshold : ℚ
  /-- Without a value, infinite. -/
  roundPreferDuration : Option ℚ
  blacklist : List String

structure SelectionResult where
  selectedCids : List String
  scores : Dict String ℚ
  exploreCids : List String
  exploitCids : List String
  metadata : Metadata

structure OortSelector (σ : Type) where
  clients : Dict String ClientState
  unexplored : Finset String
  successfulClients : Finset String
  exploration : ℚ
  roundThreshold : ℚ
  roundPreferDuration : Option ℚ
  exploitUtilHistory : List ℚ
  exploreUtilHistory : List ℚ
  exploitClients : List String
  exploreClients : List String
  blacklist : Finset String
  rng : σ
  lastSelectionRound : Option ℤ
  lastRecordedSelectionRound : Option ℤ

namespace MetricValue

/-- `_as_float` and `_metric_float`. -/
def asFloat : Option MetricValue → Option ℚ
  | some (.int n) => some n
  | some (.float q) => some q
  | _ => none

/-- `_extract_num_examples` and `_metric_num_examples`. -/
def numExamples (n : ℤ) : Option MetricValue → Except PyError ℤ
  | some (.int m) => .ok (max m 0)
  | some (.float q) => .ok (max (truncate q) 0)
  | some .infinite => .error (.raised "OverflowError" "cannot convert float infinity to integer")
  | some .nan => .error (.valueError "cannot convert float NaN to integer")
  | _ => .ok (max n 0)

/-- `extract_duration`. -/
def duration (metrics : Dict String MetricValue) (default : ℚ) : ℚ :=
  match ["fit_duration_sec", "train_duration_sec", "duration"].filterMap fun key ↦
      (asFloat (metrics.get? key)).filter (0 < ·) with
  | value :: _ => value
  | [] => max default (1 / 10 ^ 12)

/-- `_extract_loss`. -/
def loss (metrics : Dict String MetricValue) (previous : ClientState) : ℚ :=
  max (((asFloat (metrics.get? "loss")).or previous.lastLoss).getD 0) 0

end MetricValue

/-- `compute_oort_reward`. -/
def computeOortReward (M : Maths) (numExamples : ℤ) (metrics : Dict String MetricValue) (previous : ClientState) :
    Except PyError ℚ := do
  let examples ← MetricValue.numExamples numExamples (metrics.get? "num_examples")
  return M.log1p examples * max (MetricValue.loss metrics previous) (1 / 10 ^ 12)

/-- `scores.setdefault(cid, value)`. -/
def setDefault (scores : Dict String ℚ) (cid : String) (value : ℚ) : Dict String ℚ :=
  if (scores.get? cid).isSome then scores else scores.insert cid value

namespace OortSelector

variable {σ : Type} (C : OortSelectorConfig) (M : Maths) (R : Rng σ) (s : OortSelector σ)

def init (rng : σ) : OortSelector σ where
  clients := Dict.empty
  unexplored := ∅
  successfulClients := ∅
  exploration := C.explorationFactor
  roundThreshold := C.roundThreshold
  roundPreferDuration := none
  exploitUtilHistory := []
  exploreUtilHistory := []
  exploitClients := []
  exploreClients := []
  blacklist := ∅
  rng := rng
  lastSelectionRound := none
  lastRecordedSelectionRound := none

/-- `self.clients[cid]` of a registered client. -/
def client (cid : String) : ClientState := (s.clients.get? cid).getD { cid := cid }

def registerClient (cid : String) (numExamples : ℤ) (duration reward : ℚ) : OortSelector σ :=
  if (s.clients.get? cid).isSome then s
  else
    let examples := max numExamples 0
    let initialReward := if 0 < reward then reward else M.log1p examples
    { s with
      clients := s.clients.insert cid
        { cid := cid, reward := max initialReward 0, duration := max duration C.minDuration
          numExamples := examples }
      unexplored := insert cid s.unexplored }

/-- How many clients the blacklist may have. -/
def maxBlacklist : ℤ :=
  min (max (truncate (s.clients.size * C.blacklistMaxLen)) 0) (s.clients.size - 1)

def refreshBlacklist : OortSelector σ :=
  if C.blacklistRounds = -1 then { s with blacklist := ∅ }
  else if s.clients.size ≤ 1 then { s with blacklist := ∅ }
  else if s.maxBlacklist C ≤ 0 then { s with blacklist := ∅ }
  else
    let overused := s.clients.values.filter fun state ↦ C.blacklistRounds < state.selectedCount
    let overused := sortedBy (fun state : ClientState ↦ toLex (-(state.selectedCount : ℤ), state.cid)) overused
    { s with blacklist := ((overused.take (s.maxBlacklist C).toNat).map ClientState.cid).toFinset }

def metadata : Metadata :=
  ⟨s.exploration, s.roundThreshold, s.roundPreferDuration, s.blacklist.sort (· ≤ ·)⟩

def recordPreviousSelectionUtility : OortSelector σ :=
  if s.lastSelectionRound = none then s
  else if s.lastRecordedSelectionRound = s.lastSelectionRound then s
  else
    let exploitRewards := (s.exploitClients.filterMap s.clients.get?).map ClientState.reward
    let exploreRewards := (s.exploreClients.filterMap s.clients.get?).map ClientState.reward
    { s with
      exploitUtilHistory :=
        if exploitRewards = [] then s.exploitUtilHistory else s.exploitUtilHistory ++ [mean exploitRewards]
      exploreUtilHistory :=
        if exploreRewards = [] then s.exploreUtilHistory else s.exploreUtilHistory ++ [mean exploreRewards]
      lastRecordedSelectionRound := s.lastSelectionRound }

def updatePacer (roundId : ℤ) : OortSelector σ :=
  let step := C.pacerStep
  if step ≤ 0 ∨ roundId ≤ 0 ∨ roundId % step ≠ 0 then s
  else if (s.exploitUtilHistory.length : ℤ) < step * 2 then s
  else
    let recent := s.exploitUtilHistory.drop (s.exploitUtilHistory.length - step.toNat)
    let previous :=
      (s.exploitUtilHistory.drop (s.exploitUtilHistory.length - 2 * step.toNat)).take step.toNat
    if mean previous ≤ 0 then s
    else
      let relativeChange := (mean recent - mean previous) / mean previous
      if |relativeChange| < C.explorationAlpha then
        { s with roundThreshold := min 100 (s.roundThreshold + C.pacerDelta) }
      else if C.explorationAlpha < |relativeChange| then
        { s with roundThreshold := max 0 (s.roundThreshold - C.pacerDelta) }
      else s

def updateRoundPreferDuration : OortSelector σ :=
  if 100 ≤ s.roundThreshold then { s with roundPreferDuration := none }
  else
    let durations := (s.clients.values.filter fun state ↦ 0 < state.duration).map fun state ↦
      max state.duration C.minDuration
    if durations = [] then { s with roundPreferDuration := none }
    else
      let percentile := min (max s.roundThreshold 0) 100 / 100
      { s with roundPreferDuration := some (max (quantile durations percentile) C.minDuration) }

def decayExploration : OortSelector σ :=
  { s with exploration := max C.explorationMin (s.exploration * C.explorationDecay) }

/-! ### Scores -/

def exploitable (eligible : List String) : List String :=
  eligible.filter fun cid ↦ cid ∈ s.successfulClients && cid ∉ s.unexplored

def clipValue (rewards : List ℚ) : ℚ :=
  max (quantile rewards (min (max C.clipBound 0) 1)) C.minDuration

def maxReward (rewards : List ℚ) : ℚ :=
  max (maxOf (rewards.map (min · (clipValue C rewards)))) C.minDuration

/-- One turn of the loop over the exploitable clients. -/
def scoreOf (roundId : ℤ) (clip top : ℚ) (cid : String) : Except PyError ℚ := do
  let state := s.client cid
  let logRound := max (M.log (max roundId 1 : ℤ)) 0
  let utility ← divide (min (max state.reward 0) clip) top
  let score := utility + M.sqrt (1 / 10 * logRound / (max state.lastSelectedRound 1 : ℤ))
  match s.roundPreferDuration with
  | none => return max score 0
  | some prefer =>
    if prefer < state.duration then do
      let ratio ← divide prefer (max state.duration C.minDuration)
      return max (score * M.pow ratio C.roundPenalty) 0
    else return max score 0

def rewardsOf (cids : List String) : List ℚ := cids.map fun cid ↦ max (s.client cid).reward 0

def computeExploitationScores (eligible : List String) (roundId : ℤ) : Except PyError (Dict String ℚ) :=
  let cids := s.exploitable eligible
  if cids = [] then .ok Dict.empty
  else do
    let rewards := s.rewardsOf cids
    let scores ← cids.mapM (s.scoreOf C M roundId (clipValue C rewards) (maxReward C rewards))
    return Dict.ofList (cids.zip scores)

/-! ### Draws -/

def weightedSample (items : List String) (weights : List ℚ) (count : ℕ) (g : σ) : List String × σ :=
  drawAll R (min count items.length) (items.zip (weights.map (max · 0))) g

def sampleExploitationClients (exploitable : List String) (scores : Dict String ℚ) (count : ℤ) (g : σ) :
    List String × σ :=
  let score (cid : String) : ℚ := (scores.get? cid).getD 0
  match exploitable with
  | [] => ([], g)
  | best :: _ =>
    if count ≤ 0 then ([], g)
    else
      let pool := exploitable.filter fun cid ↦ score best * C.cutOffUtil ≤ score cid
      let pool := if (pool.length : ℤ) < count then exploitable.take count.toNat else pool
      weightedSample R pool (pool.map score) (min count.toNat pool.length) g

/-- The unexplored clients, the most promising first. -/
def unexploredRanked (eligible alreadySelected : List String) : List String :=
  sortedBy (fun cid ↦ toLex (-(s.client cid).reward, cid))
    (eligible.filter fun cid ↦ cid ∈ s.unexplored && cid ∉ alreadySelected)

def sampleExplorationClients (eligible alreadySelected : List String) (count : ℤ) (scores : Dict String ℚ) (g : σ) :
    List String × Dict String ℚ × σ :=
  let unexplored := s.unexploredRanked eligible alreadySelected
  if count ≤ 0 ∨ unexplored = [] then ([], scores, g)
  else
    let window := max count ⌈C.sampleWindow * count⌉
    let pool := unexplored.take (min window unexplored.length).toNat
    let scores := pool.foldl (fun scores cid ↦ setDefault scores cid (s.client cid).reward) scores
    let (drawn, g) :=
      weightedSample R pool (pool.map fun cid ↦ (s.client cid).reward) (min count.toNat pool.length) g
    (drawn, scores, g)

/-- The random fill from the clients that are left. -/
def fillSelected (eligible selected : List String) (numClients : ℕ) (g : σ) : List String × σ :=
  if selected.length < numClients then
    let leftovers := eligible.filter fun cid ↦ cid ∉ selected
    let (drawn, g) := R.sample leftovers (min (numClients - selected.length) leftovers.length) g
    (selected ++ drawn, g)
  else (selected, g)

/-! ### Selection -/

def prepare (roundId : ℤ) : OortSelector σ :=
  ((s.updatePacer C roundId).updateRoundPreferDuration C).decayExploration C

def finish (roundId : ℤ) (selected explore exploit : List String) (scores : Dict String ℚ) :
    OortSelector σ × Except PyError SelectionResult :=
  let s := { s with exploreClients := explore, exploitClients := exploit, lastSelectionRound := some roundId }
  (s, .ok ⟨selected, scores, explore, exploit, s.metadata⟩)

/-- The early exit: every eligible client is selected. -/
def selectAll (roundId : ℤ) (eligible : List String) : OortSelector σ × Except PyError SelectionResult :=
  let s := s.prepare C roundId
  s.finish roundId eligible (eligible.filter (· ∈ s.unexplored)) (eligible.filter (· ∉ s.unexplored))
    (Dict.ofList (eligible.map fun cid ↦ (cid, (s.client cid).reward)))

def selectSome (roundId : ℤ) (eligible : List String) (numClients : ℕ) :
    OortSelector σ × Except PyError SelectionResult :=
  let s := s.prepare C roundId
  match s.computeExploitationScores C M eligible roundId with
  | .error e => (s, .error e)
  | .ok scores =>
    let exploitable := sortedBy (fun cid ↦ toLex (-(scores.get? cid).getD 0, cid)) scores.keys
    let exploitLen := min (truncate (numClients * (1 - s.exploration))) exploitable.length
    let (selectedExploit, g) := sampleExploitationClients C R exploitable scores exploitLen s.rng
    let (selectedExplore, scores, g) :=
      s.sampleExplorationClients C R eligible selectedExploit (numClients - selectedExploit.length) scores g
    let (selected, g) := fillSelected R eligible (selectedExploit ++ selectedExplore) numClients g
    let selected := selected.take numClients
    let s := { s with rng := g }
    s.finish roundId selected (selected.filter (· ∈ selectedExplore)) (selected.filter (· ∈ selectedExploit))
      (selected.foldl (fun scores cid ↦ setDefault scores cid (s.client cid).reward) scores)

/-- The candidates that are available and not on the blacklist. -/
def eligible (candidateIds : List String) : List String :=
  (candidateIds.filter fun cid ↦ (s.client cid).available).filter (· ∉ s.blacklist)

/-- The state in which a selection looks at its candidates. -/
def registered (candidateIds : List String) : OortSelector σ :=
  ((candidateIds.foldl (fun s cid ↦ s.registerClient C M cid 0 1 0) s).recordPreviousSelectionUtility).refreshBlacklist C

def select (roundId : ℤ) (candidateCids : List String) (numClients : ℤ) :
    OortSelector σ × Except PyError SelectionResult :=
  if numClients ≤ 0 then (s, .ok ⟨[], Dict.empty, [], [], s.metadata⟩)
  else
    let candidateIds := sortedSet candidateCids
    let s := s.registered C M candidateIds
    let eligible := s.eligible candidateIds
    if (eligible.length : ℤ) ≤ numClients then s.selectAll C roundId eligible
    else s.selectSome C M R roundId eligible numClients.toNat

/-! ### Updates -/

def updateAfterFit (roundId : ℤ) (cid : String) (numExamples : ℤ) (metrics : Dict String MetricValue) :
    OortSelector σ × Except PyError Unit :=
  let s := s.registerClient C M cid 0 1 0
  let state := s.client cid
  match MetricValue.numExamples numExamples (metrics.get? "num_examples") with
  | .error e => (s, .error e)
  | .ok examples =>
    match computeOortReward M examples metrics state with
    | .error e => ({ s with clients := s.clients.insert cid { state with numExamples := examples } }, .error e)
    | .ok reward =>
      let state := { state with
        numExamples := examples
        reward := reward
        duration := max (MetricValue.duration metrics state.duration) C.minDuration
        lastSelectedRound := roundId
        selectedCount := state.selectedCount + 1
        available := true
        lastLoss := some (((MetricValue.asFloat (metrics.get? "loss")).or state.lastLoss).getD 0)
        lastAccuracy := (MetricValue.asFloat (metrics.get? "accuracy")).or state.lastAccuracy
        lastFitRound := some roundId }
      (({ s with
          clients := s.clients.insert cid state
          unexplored := s.unexplored.erase cid
          successfulClients := insert cid s.successfulClients } : OortSelector σ).refreshBlacklist C, .ok ())

def updateAfterFailure (roundId : ℤ) (cid : String) (reason : Option String) : OortSelector σ :=
  let s := s.registerClient C M cid 0 1 0
  let state := s.client cid
  { s with clients := s.clients.insert cid { state with
      failureCount := state.failureCount + 1
      lastFailureRound := some roundId
      lastFailureReason := reason.or state.lastFailureReason } }

end OortSelector

end SplitFleet.ClientSelection
