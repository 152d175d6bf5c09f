import Mathlib.Data.Rat.Floor
import Mathlib.Tactic.Linarith
import SplitFleet.Lib.Python

set_option autoImplicit false

namespace SplitFleet.TimeBudget

open Lib

/-- Flower's own server, or the split one, which holds parameters of the suffixes too. -/
inductive ServerKind
  | native | split
  deriving DecidableEq

/-- What only the split server has. -/
def Suffix : ServerKind → Type → Type
  | .native, _ => Unit
  | .split, S => S

/-- A budget that `with_time_budget` accepts. -/
structure Budget where
  timeBudget : ℚ
  evaluationInterval : ℚ
  timeBudget_pos : 0 < timeBudget
  evaluationInterval_pos : 0 < evaluationInterval

inductive UpdateStatus
  | aggregated | discardedAtStop
  deriving DecidableEq

/-- What the loop adds to the record of a fit. -/
structure Label where
  updateStatus : UpdateStatus
  aggregationElapsed : ℚ
  aggregatedModelVersion : Option ℕ
  deriving DecidableEq

structure FitRecord where
  roundId : ℕ
  cid : String
  label : Option Label
  deriving DecidableEq

structure EvaluationRecord (Metrics : Type) where
  roundId : ℕ
  metrics : Metrics
  elapsed : ℚ
  modelVersion : ℕ
  snapshotElapsed : ℚ
  withinTimeBudget : Bool
  final : Bool
  modelCommittedElapsed : Option ℚ

/-- Parameters as they are sent: the bytes of each array. -/
abbrev Parameters (Bytes : Type) := List Bytes

section Types

variable (kind : ServerKind) (Bytes S T Metrics : Type)

/-- The parameters a server holds: `client_parameters` or `parameters`, and `server_parameters`. -/
structure Held where
  parameters : Parameters Bytes
  suffix : Suffix kind S

/-- What a round of training returns. -/
structure Result where
  parameters : Option (Parameters Bytes)
  tails : Suffix kind (Option S)
  metrics : Metrics

/-- A round of training: what it leaves in the server and in the model of the strategy, the clients whose fits it
records, its failures, and what it returns. -/
structure Outcome where
  held : Held kind Bytes S
  model : List T
  cids : List String
  failures : List String
  result : Except PyError (Option (Result kind Bytes S Metrics))

/-- What the loop runs in. The model is the contents of its `state_dict`, in order. -/
structure Env (Array : Type) where
  budget : Budget
  /-- The readings of the clock, one after the other. -/
  elapsed : ℕ → ℚ
  monotone_elapsed : Monotone elapsed
  initial : Held kind Bytes S
  initialModel : List T
  rounds : ℕ → Outcome kind Bytes S T Metrics
  bytesToNdarray : Bytes → Except PyError Array
  names : List String
  /-- The entry after the array was copied into it, in its own dtype and on its own device. -/
  copy : String → Array → Except PyError T
  /-- `_evaluate_physical` -/
  score : List T → Metrics
  /-- The truth value of the parameters of the suffixes. -/
  truthy : S → Bool

structure State where
  held : Held kind Bytes S
  model : List T
  fitRecords : List FitRecord
  fitFailures : List String
  evaluations : List (EvaluationRecord Metrics)
  centralized : List (ℕ × Metrics)
  distributedFit : List (ℕ × Metrics)
  evaluationIndex : ℕ
  acceptedRounds : ℕ
  attemptedRounds : ℕ
  nextEvaluation : ℚ
  lastCommitTime : ℚ
  /-- How often the clock was read. -/
  readings : ℕ

end Types

variable {kind : ServerKind} {Bytes S T Metrics Array : Type}

/-- What a round has installed, for each kind of server. -/
def Held.adopt (truthy : S → Bool) : {kind : ServerKind} → Held kind Bytes S → Result kind Bytes S Metrics →
    Held kind Bytes S
  | .native, left, result => { left with parameters := result.parameters.getD left.parameters }
  | .split, left, result =>
    { parameters := result.parameters.getD left.parameters
      suffix := match (result.tails : Option S) with
        | some tails => if truthy tails then tails else left.suffix
        | none => left.suffix }

namespace Env

variable (env : Env kind Bytes S T Metrics Array)

def zipped (arrays : List Array) : Except PyError (List T) :=
  (env.names.zip arrays).mapM fun entry ↦ env.copy entry.1 entry.2

/-- `strategy.model` with the parameters in it: `load_ndarrays` on the split server, and elsewhere `load_state_dict`
on the names and the arrays. -/
def load (parameters : Parameters Bytes) (model : List T) : Except PyError (List T) := do
  let arrays ← parameters.mapM env.bytesToNdarray
  match kind with
  | .split =>
    if arrays.isEmpty then return model
    else do
      require (env.names.length = arrays.length)
        (.valueError s!"Expected {env.names.length} state tensors, received {arrays.length}")
      env.zipped arrays
  | .native => do
    require (env.names.length ≤ arrays.length) (.valueError "zip() argument 2 is shorter than argument 1")
    require (arrays.length ≤ env.names.length) (.valueError "zip() argument 2 is longer than argument 1")
    env.zipped arrays

/-- The evaluation of the strategy, and what the loop adds to its record. -/
def evaluate (final : Bool) (s : State kind Bytes S T Metrics) : Except PyError (State kind Bytes S T Metrics) := do
  let index := s.evaluationIndex + 1
  let snapshot := env.elapsed s.readings
  let model ← env.load s.held.parameters s.model
  let metrics := env.score model
  let elapsed := env.elapsed (s.readings + 1)
  return { s with
    model := model
    evaluationIndex := index
    readings := s.readings + 2
    evaluations := s.evaluations ++ [{
      roundId := index
      metrics := metrics
      elapsed := elapsed
      modelVersion := s.acceptedRounds
      snapshotElapsed := snapshot
      withinTimeBudget := elapsed ≤ env.budget.timeBudget
      final := final
      modelCommittedElapsed := if final then some s.lastCommitTime else none }]
    centralized := s.centralized ++ [(index, metrics)] }

end Env

/-- The readings of the clock in a round, after the training and after the new model was installed. -/
structure Attempt where
  trained : ℚ
  installed : Option ℚ

/-- A round that was through before the budget. -/
def Attempt.Accepted (budget : Budget) (a : Attempt) : Prop :=
  a.trained < budget.timeBudget ∧ ∃ now ∈ a.installed, now < budget.timeBudget

instance (budget : Budget) (a : Attempt) : Decidable (a.Accepted budget) :=
  inferInstanceAs (Decidable (_ ∧ ∃ now ∈ a.installed, now < budget.timeBudget))

/-- `row.update(...)` for the records of a round. -/
def relabel (round : ℕ) (label : Label) (records : List FitRecord) : List FitRecord :=
  records.map fun row ↦ if row.roundId = round then { row with label := some label } else row

/-- `row["aggregation_elapsed_sec"] = now` for the records of a round. -/
def restamp (round : ℕ) (now : ℚ) (records : List FitRecord) : List FitRecord :=
  records.map fun row ↦ if row.roundId = round then
    { row with label := row.label.map ({ · with aggregationElapsed := now }) } else row

namespace State

variable (s : State kind Bytes S T Metrics)

def tick : State kind Bytes S T Metrics := { s with readings := s.readings + 1 }

/-- `fit_round` -/
def train (out : Outcome kind Bytes S T Metrics) : State kind Bytes S T Metrics :=
  { s with
    attemptedRounds := s.attemptedRounds + 1
    held := out.held
    model := out.model
    fitRecords := s.fitRecords ++ out.cids.map (⟨s.attemptedRounds + 1, ·, none⟩)
    fitFailures := s.fitFailures ++ out.failures }

def label (label : Label) : State kind Bytes S T Metrics :=
  { s with fitRecords := relabel s.attemptedRounds label s.fitRecords }

def rollback (held : Held kind Bytes S) (model : List T) : State kind Bytes S T Metrics :=
  { s with held := held, model := model }

def commit (metrics : Metrics) (now : ℚ) : State kind Bytes S T Metrics :=
  { s with
    acceptedRounds := s.acceptedRounds + 1
    fitRecords := restamp s.attemptedRounds now s.fitRecords
    lastCommitTime := now
    distributedFit := s.distributedFit ++ [(s.attemptedRounds, metrics)] }

end State

namespace Env

variable (env : Env kind Bytes S T Metrics Array)

/-- The evaluation of the wall-clock cadence. -/
def checkpoint (now : ℚ) (s : State kind Bytes S T Metrics) : Except PyError (State kind Bytes S T Metrics) :=
  if s.nextEvaluation ≤ now then do
    let s ← env.evaluate false s
    return { s.tick with nextEvaluation := env.elapsed s.readings + env.budget.evaluationInterval }
  else return s

/-- A round that was trained in time: its model is installed. `held` and `model` are those before the round. -/
def install (held : Held kind Bytes S) (model : List T) (trained : ℚ) (result : Result kind Bytes S Metrics)
    (s : State kind Bytes S T Metrics) : Except PyError (Attempt × State kind Bytes S T Metrics) := do
  let s := { s with held := s.held.adopt env.truthy result }
  let loaded ← env.load s.held.parameters s.model
  let s := { s with model := loaded }
  let now := env.elapsed s.readings
  let s := s.tick
  if env.budget.timeBudget ≤ now then
    return (⟨trained, some now⟩, (s.rollback held model).label ⟨.discardedAtStop, now, none⟩)
  else do
    let s ← env.checkpoint now (s.commit result.metrics now)
    return (⟨trained, some now⟩, s)

def roundError : PyError := .runtimeError "Timed training did not return a complete failure-free round"

/-- The body of the loop. -/
def round (s : State kind Bytes S T Metrics) : Except PyError (Attempt × State kind Bytes S T Metrics) := do
  let before := s.model
  let heldBefore := s.held
  let out := env.rounds (s.attemptedRounds + 1)
  let s := s.train out
  match ← out.result with
  | none => throw roundError
  | some result => do
    require (s.fitFailures = []) roundError
    let now := env.elapsed s.readings
    let s := s.tick
    if now < env.budget.timeBudget then
      env.install heldBefore before now result (s.label ⟨.aggregated, now, some (s.acceptedRounds + 1)⟩)
    else return (⟨now, none⟩, (s.label ⟨.discardedAtStop, now, none⟩).rollback heldBefore before)

/-- `while elapsed() < self.time_budget_sec`. `none` is a loop that is not through within its fuel. -/
def loop : ℕ → State kind Bytes S T Metrics → Except PyError (Option (State kind Bytes S T Metrics))
  | 0, _ => .ok none
  | fuel + 1, s =>
    if env.elapsed s.readings < env.budget.timeBudget then do
      let (attempt, s) ← env.round s.tick
      if attempt.Accepted env.budget then loop fuel s else return some s
    else .ok (some s.tick)

structure BudgetMetadata where
  rounds : ℕ
  globalUpdates : ℕ
  lastCommittedModelElapsed : ℚ
  trainingStoppedElapsed : ℚ
  drainDuration : ℚ

/-- Up to the loop. -/
def start : Except PyError (State kind Bytes S T Metrics) := do
  let s ← env.evaluate false ⟨env.initial, env.initialModel, [], [], [], [], [], 0, 0, 0, 0, 0, 0⟩
  return { s with
    nextEvaluation := env.elapsed s.readings + env.budget.evaluationInterval
    readings := s.readings + 1 }

/-- After the loop. -/
def finish (s : State kind Bytes S T Metrics) : Except PyError (BudgetMetadata × State kind Bytes S T Metrics) := do
  let stopped := env.elapsed s.readings
  let s ← env.evaluate true { s with readings := s.readings + 1 }
  return ({
    rounds := s.attemptedRounds
    globalUpdates := s.acceptedRounds
    lastCommittedModelElapsed := s.lastCommitTime
    trainingStoppedElapsed := min stopped env.budget.timeBudget
    drainDuration := max 0 (stopped - env.budget.timeBudget) }, s)

/-- `_fit` -/
def fit (fuel : ℕ) : Except PyError (Option (BudgetMetadata × State kind Bytes S T Metrics)) := do
  let s ← env.start
  match ← env.loop fuel s with
  | none => return none
  | some s => do
    let r ← env.finish s
    return some r

end Env

/-! ### What is in force -/

section Laws

variable {env : Env kind Bytes S T Metrics Array} {s t : State kind Bytes S T Metrics}

theorem load_load {parameters : Parameters Bytes} {model loaded : List T} (h : env.load parameters model = .ok loaded) :
    env.load parameters loaded = .ok loaded := by
  unfold Env.load at h ⊢
  obtain ⟨arrays, harrays, h⟩ := bind_eq_ok h
  rw [harrays]
  cases kind with
  | native => exact h
  | split =>
    simp only [ok_bind] at h ⊢
    split at h
    · next hempty =>
      rw [if_pos hempty]
      rfl
    · next hempty =>
      rw [if_neg hempty]
      exact h

/-- The model has the parameters in it. -/
def Settled (env : Env kind Bytes S T Metrics Array) (s : State kind Bytes S T Metrics) : Prop :=
  env.load s.held.parameters s.model = .ok s.model

/-- An evaluation leaves alone what a round changes. -/
structure Unchanged (s t : State kind Bytes S T Metrics) : Prop where
  held : t.held = s.held
  model : t.model = s.model
  fitRecords : t.fitRecords = s.fitRecords
  attemptedRounds : t.attemptedRounds = s.attemptedRounds
  acceptedRounds : t.acceptedRounds = s.acceptedRounds

theorem unchanged_evaluate {final : Bool} (hs : Settled env s) (h : env.evaluate final s = .ok t) :
    Unchanged s t ∧ s.readings ≤ t.readings := by
  obtain ⟨model, hmodel, h⟩ := bind_eq_ok h
  cases h
  rw [Settled, hmodel] at hs
  exact ⟨⟨rfl, Except.ok.inj hs, rfl, rfl, rfl⟩, Nat.le_add_right _ _⟩

theorem unchanged_checkpoint {now : ℚ} (hs : Settled env s) (h : env.checkpoint now s = .ok t) :
    Unchanged s t ∧ s.readings ≤ t.readings := by
  unfold Env.checkpoint at h
  split at h
  · obtain ⟨u, hu, h⟩ := bind_eq_ok h
    obtain ⟨⟨hheld, hmodel, hrecords, hattempted, haccepted⟩, hreadings⟩ := unchanged_evaluate hs hu
    cases h
    exact ⟨⟨hheld, hmodel, hrecords, hattempted, haccepted⟩, Nat.le_succ_of_le hreadings⟩
  · cases h
    exact ⟨⟨rfl, rfl, rfl, rfl, rfl⟩, Nat.le_refl _⟩

/-- What a round leaves installed where it is accepted: its parameters and tails, where it has them, and the model with
these parameters in it. -/
def Env.committed (env : Env kind Bytes S T Metrics Array) (out : Outcome kind Bytes S T Metrics) :
    Except PyError (Held kind Bytes S × List T) := do
  match ← out.result with
  | none => throw Env.roundError
  | some result => do
    let held := out.held.adopt env.truthy result
    let model ← env.load held.parameters out.model
    return (held, model)

/-- What is in force after the round, and at first. -/
def Env.inForce (env : Env kind Bytes S T Metrics Array) : ℕ → Except PyError (Held kind Bytes S × List T)
  | 0 => do
    let model ← env.load env.initial.parameters env.initialModel
    return (env.initial, model)
  | r + 1 => env.committed (env.rounds (r + 1))

/-- The label of a round's records. `rank` is how many rounds were accepted with it. -/
def Labelled (budget : Budget) (rank : ℕ) (a : Attempt) (label : Label) : Prop :=
  (label.updateStatus = .aggregated ↔ a.Accepted budget) ∧
    label.aggregatedModelVersion = if a.Accepted budget then some rank else none

/-- What a round does. -/
structure Turn (env : Env kind Bytes S T Metrics Array) (s : State kind Bytes S T Metrics) (a : Attempt)
    (t : State kind Bytes S T Metrics) : Prop where
  attemptedRounds : t.attemptedRounds = s.attemptedRounds + 1
  readings : s.readings ≤ t.readings
  fitRecords : ∃ label, Labelled env.budget (s.acceptedRounds + 1) a label ∧ t.fitRecords =
    relabel (s.attemptedRounds + 1) label
      (s.fitRecords ++ (env.rounds (s.attemptedRounds + 1)).cids.map (⟨s.attemptedRounds + 1, ·, none⟩))
  committed : a.Accepted env.budget → t.acceptedRounds = s.acceptedRounds + 1 ∧
    env.committed (env.rounds (s.attemptedRounds + 1)) = .ok (t.held, t.model) ∧ Settled env t
  kept : ¬a.Accepted env.budget → t.acceptedRounds = s.acceptedRounds ∧ t.held = s.held ∧ t.model = s.model

theorem relabel_relabel (r : ℕ) (label label' : Label) (records : List FitRecord) :
    relabel r label (relabel r label' records) = relabel r label records := by
  unfold relabel
  rw [List.map_map]
  refine List.map_congr_left fun row _ ↦ ?_
  by_cases h : row.roundId = r <;> simp [h]

theorem restamp_relabel (r : ℕ) (now : ℚ) (label : Label) (records : List FitRecord) :
    restamp r now (relabel r label records) = relabel r { label with aggregationElapsed := now } records := by
  unfold relabel restamp
  rw [List.map_map]
  refine List.map_congr_left fun row _ ↦ ?_
  by_cases h : row.roundId = r <;> simp [h]

theorem not_accepted_of_late {trained : ℚ} {budget : Budget} (h : ¬trained < budget.timeBudget) :
    ¬Attempt.Accepted budget ⟨trained, none⟩ := fun ha ↦ h ha.1

theorem labelled_discarded {budget : Budget} {rank : ℕ} {a : Attempt} {now : ℚ} (h : ¬a.Accepted budget) :
    Labelled budget rank a ⟨.discardedAtStop, now, none⟩ := by
  simp [Labelled, h]

theorem not_accepted_of_late' (trained : ℚ) {now : ℚ} {budget : Budget} (h : budget.timeBudget ≤ now) :
    ¬Attempt.Accepted budget ⟨trained, some now⟩ := by
  rintro ⟨-, _, hnow, hlt⟩
  cases hnow
  exact absurd hlt (not_lt.mpr h)

theorem committed_eq {out : Outcome kind Bytes S T Metrics} {result : Result kind Bytes S Metrics} {model : List T}
    (hresult : out.result = .ok (some result))
    (hload : env.load (out.held.adopt env.truthy result).parameters out.model = .ok model) :
    env.committed out = .ok (out.held.adopt env.truthy result, model) := by
  unfold Env.committed
  rw [hresult]
  change (env.load _ _ >>= _) = _
  rw [hload]
  rfl

theorem turn_of_round {a : Attempt} (h : env.round s = .ok (a, t)) : Turn env s a t := by
  unfold Env.round at h
  obtain ⟨result?, hresult, h⟩ := bind_eq_ok h
  cases result? with
  | none => cases h
  | some result =>
    obtain ⟨-, -, h⟩ := bind_eq_ok h
    dsimp only at h
    split at h
    · next htrained =>
      unfold Env.install at h
      obtain ⟨loaded, hloaded, h⟩ := bind_eq_ok h
      dsimp only at h
      split at h
      · next hlate =>
        cases h
        have hnot := not_accepted_of_late' (env.elapsed s.readings) hlate
        exact ⟨rfl, Nat.le_add_right s.readings 2,
          ⟨_, labelled_discarded hnot, relabel_relabel _ _ _ _⟩, fun ha ↦ absurd ha hnot, fun _ ↦ ⟨rfl, rfl, rfl⟩⟩
      · next hin =>
        obtain ⟨u, hu, h⟩ := bind_eq_ok h
        cases h
        obtain ⟨hu, hreadings⟩ := unchanged_checkpoint (load_load hloaded) hu
        have haccepted : Attempt.Accepted env.budget ⟨env.elapsed s.readings, some (env.elapsed (s.readings + 1))⟩ :=
          ⟨htrained, _, rfl, not_le.mp hin⟩
        refine ⟨hu.attemptedRounds, le_trans (Nat.le_add_right s.readings 2) hreadings, ?_, fun _ ↦ ?_, ?_⟩
        · refine ⟨⟨.aggregated, env.elapsed (s.readings + 1), some (s.acceptedRounds + 1)⟩, ?_, ?_⟩
          · exact ⟨iff_of_true rfl haccepted, (if_pos haccepted).symm⟩
          · exact hu.fitRecords.trans (restamp_relabel _ _ _ _)
        · unfold Settled
          rw [hu.held, hu.model]
          exact ⟨hu.acceptedRounds, committed_eq hresult hloaded, load_load hloaded⟩
        · exact fun hnot ↦ absurd haccepted hnot
    · next htrained =>
      cases h
      have hnot := not_accepted_of_late htrained
      exact ⟨rfl, Nat.le_succ s.readings,
        ⟨_, labelled_discarded hnot, rfl⟩, fun ha ↦ absurd ha hnot, fun _ ↦ ⟨rfl, rfl, rfl⟩⟩

/-! ### Whole runs -/

/-- The rounds that were attempted, up to a state. Only the last of them may have been discarded. -/
inductive Rounds (env : Env kind Bytes S T Metrics Array) : List Attempt → State kind Bytes S T Metrics → Prop
  | start {s : State kind Bytes S T Metrics} : env.start = .ok s → Rounds env [] s
  | round {attempts : List Attempt} {a : Attempt} {s t : State kind Bytes S T Metrics} :
      Rounds env attempts s → (∀ a ∈ attempts, a.Accepted env.budget) →
      env.elapsed s.readings < env.budget.timeBudget → env.round s.tick = .ok (a, t) → Rounds env (attempts ++ [a]) t

def accepted (budget : Budget) (attempts : List Attempt) : ℕ := attempts.countP (·.Accepted budget)

/-- The records of a round carry the label that its attempt calls for. -/
def RecordOf (budget : Budget) (attempts : List Attempt) (row : FitRecord) : Prop :=
  ∃ i a label, attempts[i]? = some a ∧ row.roundId = i + 1 ∧ row.label = some label ∧
    Labelled budget (accepted budget (attempts.take (i + 1))) a label

/-- What holds after each round. -/
structure Inv (env : Env kind Bytes S T Metrics Array) (attempts : List Attempt) (s : State kind Bytes S T Metrics) :
    Prop where
  attemptedRounds : s.attemptedRounds = attempts.length
  acceptedRounds : s.acceptedRounds = accepted env.budget attempts
  acceptedFirst : ∀ i a, attempts[i]? = some a → (a.Accepted env.budget ↔ i < s.acceptedRounds)
  fitRecords : ∀ row ∈ s.fitRecords, RecordOf env.budget attempts row
  inForce : env.inForce s.acceptedRounds = .ok (s.held, s.model)
  settled : Settled env s

theorem inv_start (h : env.start = .ok s) : Inv env [] s := by
  obtain ⟨t, ht, h⟩ := bind_eq_ok h
  obtain ⟨model, hmodel, ht⟩ := bind_eq_ok ht
  cases ht
  cases h
  refine ⟨rfl, rfl, fun i a ha ↦ ?_, fun row hrow ↦ ?_, ?_, load_load hmodel⟩
  · cases ha
  · cases hrow
  · change (env.load _ _ >>= _) = _
    rw [hmodel]
    rfl

theorem recordOf_append {budget : Budget} {attempts : List Attempt} {a : Attempt} {row : FitRecord}
    (h : RecordOf budget attempts row) : RecordOf budget (attempts ++ [a]) row := by
  obtain ⟨i, b, label, hb, hround, hlabel, hlabelled⟩ := h
  have hi : i < attempts.length := (List.getElem?_eq_some_iff.mp hb).1
  refine ⟨i, b, label, ?_, hround, hlabel, ?_⟩
  · rwa [List.getElem?_append_left hi]
  · rwa [List.take_append_of_le_length hi]

theorem Inv.round {attempts : List Attempt} {a : Attempt} (hs : Inv env attempts s)
    (hall : ∀ a ∈ attempts, a.Accepted env.budget) (hturn : Turn env s a t) : Inv env (attempts ++ [a]) t := by
  have hcount : s.acceptedRounds = attempts.length := by
    rw [hs.acceptedRounds, accepted, List.countP_eq_length]
    simpa using hall
  have haccepted : t.acceptedRounds = accepted env.budget (attempts ++ [a]) := by
    rw [accepted, List.countP_append, List.countP_singleton, ← accepted, ← hs.acceptedRounds]
    by_cases h : a.Accepted env.budget
    · simpa [h] using (hturn.committed h).1
    · simpa [h] using (hturn.kept h).1
  refine ⟨?_, haccepted, ?_, ?_, ?_, ?_⟩
  · rw [hturn.attemptedRounds, hs.attemptedRounds, List.length_append, List.length_singleton]
  · intro i b hb
    rw [List.getElem?_append] at hb
    split at hb
    · next hi =>
      refine iff_of_true (hall b (List.mem_of_getElem? hb)) ?_
      have : s.acceptedRounds ≤ t.acceptedRounds := by
        rw [haccepted, hs.acceptedRounds, accepted, accepted, List.countP_append]
        exact Nat.le_add_right _ _
      omega
    · next hi =>
      obtain ⟨hzero, rfl⟩ : i - attempts.length = 0 ∧ a = b := by simpa [List.getElem?_singleton] using hb
      by_cases h : a.Accepted env.budget
      · have := (hturn.committed h).1
        exact iff_of_true h (by omega)
      · have := (hturn.kept h).1
        exact iff_of_false h (by omega)
  · obtain ⟨label, ⟨hstatus, hversion⟩, hrecords⟩ := hturn.fitRecords
    rw [hrecords, hs.attemptedRounds]
    intro row hrow
    obtain ⟨old, hold, rfl⟩ := List.mem_map.mp hrow
    obtain hold | hnew := List.mem_append.mp hold
    · have h := hs.fitRecords old hold
      rw [if_neg]
      · exact recordOf_append h
      · obtain ⟨i, b, -, hb, hround, -⟩ := h
        have := (List.getElem?_eq_some_iff.mp hb).1
        omega
    · obtain ⟨cid, -, rfl⟩ := List.mem_map.mp hnew
      rw [if_pos rfl]
      refine ⟨attempts.length, a, label, by simp, rfl, rfl, hstatus, hversion.trans ?_⟩
      rw [List.take_of_length_le (by simp), ← haccepted]
      by_cases h : a.Accepted env.budget
      · rw [(hturn.committed h).1]
      · rw [if_neg h, if_neg h]
  · by_cases h : a.Accepted env.budget
    · obtain ⟨hrounds, hcommitted, -⟩ := hturn.committed h
      rw [hrounds, hcount, ← hs.attemptedRounds]
      exact hcommitted
    · obtain ⟨hrounds, hheld, hmodel⟩ := hturn.kept h
      rw [hrounds, hheld, hmodel]
      exact hs.inForce
  · by_cases h : a.Accepted env.budget
    · exact (hturn.committed h).2.2
    · obtain ⟨-, hheld, hmodel⟩ := hturn.kept h
      unfold Settled
      rw [hheld, hmodel]
      exact hs.settled

theorem Inv.tick {attempts : List Attempt} (hs : Inv env attempts s) : Inv env attempts s.tick :=
  ⟨hs.attemptedRounds, hs.acceptedRounds, hs.acceptedFirst, hs.fitRecords, hs.inForce, hs.settled⟩

theorem Rounds.inv {attempts : List Attempt} (h : Rounds env attempts s) : Inv env attempts s := by
  induction h with
  | start h => exact inv_start h
  | round _ hall _ hround ih => exact ih.tick.round hall (turn_of_round hround)

/-- Where the loop is through, the rounds it attempted lead to its state. -/
theorem rounds_of_loop {fuel : ℕ} {attempts : List Attempt} (hs : Rounds env attempts s)
    (hall : ∀ a ∈ attempts, a.Accepted env.budget) (h : env.loop fuel s = .ok (some t)) :
    ∃ attempts' u, Rounds env attempts' u ∧ (t = u ∨ t = u.tick) := by
  induction fuel generalizing attempts s with
  | zero => cases h
  | succ fuel ih =>
    unfold Env.loop at h
    split at h
    · next hin =>
      obtain ⟨⟨a, u⟩, hu, h⟩ := bind_eq_ok h
      have hround := hs.round hall hin hu
      dsimp only at h
      split at h
      · next haccepted =>
        refine ih hround (fun b hb ↦ ?_) h
        obtain hb | hb := List.mem_append.mp hb
        · exact hall b hb
        · rwa [List.mem_singleton.mp hb]
      · cases h
        exact ⟨_, _, hround, .inl rfl⟩
    · cases h
      exact ⟨_, _, hs, .inr rfl⟩

theorem readings_lt_of_round {a : Attempt} (h : env.round s.tick = .ok (a, t)) : s.readings < t.readings :=
  (turn_of_round h).readings

/-- Every turn of the loop reads the clock, so a clock that reaches the budget ends it. -/
theorem loop_ends {n fuel : ℕ} (hn : env.budget.timeBudget ≤ env.elapsed n) (hfuel : n ≤ s.readings + fuel) :
    env.loop (fuel + 1) s ≠ .ok none := by
  induction fuel generalizing s with
  | zero =>
    have := env.monotone_elapsed (show n ≤ s.readings from hfuel)
    rw [Env.loop, if_neg (by linarith)]
    exact fun h ↦ nomatch h
  | succ fuel ih =>
    intro h
    rw [Env.loop] at h
    split at h
    · next hin =>
      obtain ⟨⟨a, u⟩, hu, h⟩ := bind_eq_ok h
      have := readings_lt_of_round hu
      dsimp only at h
      split at h
      · exact ih (by omega) h
      · cases h
    · cases h

/-- Timed training commits whole rounds: when it is through, what is in force is what the last accepted round left, and
the records say of each round whether it was accepted. -/
theorem fit_commits_whole_rounds (env : Env kind Bytes S T Metrics Array) :
    ((∃ n, env.budget.timeBudget ≤ env.elapsed n) → ∃ fuel, env.fit fuel ≠ .ok none) ∧
    ∀ fuel metadata s, env.fit fuel = .ok (some (metadata, s)) → ∃ attempts ended, Rounds env attempts ended ∧
      metadata.rounds = attempts.length ∧ metadata.globalUpdates = accepted env.budget attempts ∧
      (∀ i a, attempts[i]? = some a → (a.Accepted env.budget ↔ i < metadata.globalUpdates)) ∧
      env.inForce metadata.globalUpdates = .ok (s.held, s.model) ∧
      ∀ row ∈ s.fitRecords, RecordOf env.budget attempts row := by
  constructor
  · rintro ⟨n, hn⟩
    refine ⟨n + 1, fun h ↦ ?_⟩
    obtain ⟨s, -, h⟩ := bind_eq_ok h
    obtain ⟨t?, ht, h⟩ := bind_eq_ok h
    cases t? with
    | none => exact loop_ends hn (Nat.le_add_left _ _) ht
    | some t =>
      obtain ⟨_, -, h⟩ := bind_eq_ok h
      cases h
  · intro fuel metadata s h
    obtain ⟨started, hstarted, h⟩ := bind_eq_ok h
    obtain ⟨t?, ht, h⟩ := bind_eq_ok h
    cases t? with
    | none => cases h
    | some t =>
      obtain ⟨_, hfinish, h⟩ := bind_eq_ok h
      cases h
      obtain ⟨attempts, u, hrounds, htu⟩ := rounds_of_loop (.start hstarted) (by simp) ht
      have hinv : Inv env attempts t := by
        obtain rfl | rfl := htu
        · exact hrounds.inv
        · exact hrounds.inv.tick
      obtain ⟨v, hv, hfinish⟩ := bind_eq_ok hfinish
      cases hfinish
      obtain ⟨hsame, -⟩ := unchanged_evaluate hinv.tick.settled hv
      refine ⟨attempts, u, hrounds, hsame.attemptedRounds.trans hinv.attemptedRounds,
        hsame.acceptedRounds.trans hinv.acceptedRounds, ?_, ?_, ?_⟩
      · rw [hsame.acceptedRounds]
        exact hinv.acceptedFirst
      · rw [hsame.acceptedRounds, hsame.held, hsame.model]
        exact hinv.inForce
      · rw [hsame.fitRecords]
        exact hinv.fitRecords

end Laws

/-- A split server whose second round is trained in time and installed too late. -/
def twoRounds : Env .split ℕ ℕ ℕ Unit ℕ where
  budget := ⟨11 / 10, 3 / 10, by norm_num, by norm_num⟩
  elapsed n := n / 10
  monotone_elapsed m n h := by
    have : (m : ℚ) ≤ n := by exact_mod_cast h
    dsimp only
    linarith
  initial := ⟨[0], (0 : ℕ)⟩
  initialModel := [0]
  rounds r := ⟨⟨[0], r⟩, [r], ["c"], [], .ok (some ⟨some [r], (some r : Option ℕ), ()⟩)⟩
  bytesToNdarray := .ok
  names := ["weight"]
  copy _ x := .ok x
  score _ := ()
  truthy r := r ≠ 0

theorem twoRounds_commits : ∃ metadata s, twoRounds.fit 3 = .ok (some (metadata, s)) ∧ metadata.rounds = 2 ∧
    metadata.globalUpdates = 1 ∧ s.model = [1] ∧ twoRounds.inForce 1 = .ok (s.held, s.model) := by
  have hfit : ((twoRounds.fit 3).toOption.join.map fun r ↦ (r.1.rounds, r.1.globalUpdates, r.2.model)) =
      some (2, 1, [1]) := by decide +kernel
  cases h : twoRounds.fit 3 with
  | error e =>
    rw [h] at hfit
    cases hfit
  | ok r? =>
    rw [h] at hfit
    cases r? with
    | none => cases hfit
    | some r =>
      have hfit : (r.1.rounds, r.1.globalUpdates, r.2.model) = (2, 1, [1]) := Option.some.inj hfit
      simp only [Prod.mk.injEq] at hfit
      obtain ⟨hrounds, hupdates, hmodel⟩ := hfit
      obtain ⟨_, _, -, -, -, -, hforce, -⟩ := (fit_commits_whole_rounds twoRounds).2 3 r.1 r.2 h
      rw [hupdates] at hforce
      exact ⟨r.1, r.2, rfl, hrounds, hupdates, hmodel, hforce⟩

end SplitFleet.TimeBudget
