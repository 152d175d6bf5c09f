import SplitFleet.TailServer

set_option autoImplicit false

namespace SplitFleet.UpdateOnce

open Lib StateOwnership TailServer AutoSplitTailServerModel

variable {ρ : Type} {s : AutoSplitTailServerModel}

/-- The step of `d` begins, its update is applied, and something raises before `_complete_step`. -/
def failsAfterUpdate (s : AutoSplitTailServerModel) (d : Delivery ρ) : Bool :=
  match s.readBatch d, d.run with
  | .error _, _ => false
  | .ok _, .raisedBeforeStep _ => false
  | .ok (key, _), .raisedAfterStep _ => key ∉ s.processedSteps ∪ s.inflightSteps
  | .ok (key, _), .returned auxiliary _ =>
    key ∉ s.processedSteps ∪ s.inflightSteps && !(s.afterRun d auxiliary).isOk

/-- None of the batches that a call comes to fails after its update. -/
def cleanBatches (s : AutoSplitTailServerModel) : List (Delivery ρ) → Bool
  | [] => true
  | d :: batches => !failsAfterUpdate s d &&
      (!(s.trainBatch d).2.isOk || cleanBatches (s.trainBatch d).1 batches)

/-- The states between the calls of a run in which no delivery fails after its update. -/
inductive Reached (ρ : Type) (s₀ : AutoSplitTailServerModel) : AutoSplitTailServerModel → Prop
  | configured (ins : ServerModelFitIns) (h : ins.clientStageCount = 1) :
      Reached ρ s₀ (s₀.configureFit ins).1
  | trained {s : AutoSplitTailServerModel} (batches : List (Delivery ρ)) (h : Reached ρ s₀ s)
      (hc : cleanBatches s batches = true) : Reached ρ s₀ (s.trainTail batches).1

@[simp] theorem respond_processed (d : Delivery ρ) (n : ℤ) (m : Dict String ℚ)
    (p : Option (List (String × ρ))) : (s.respond d n m p).1.processedSteps = s.processedSteps := by
  unfold respond
  split <;> simp

@[simp] theorem respond_inflight (d : Delivery ρ) (n : ℤ) (m : Dict String ℚ)
    (p : Option (List (String × ρ))) : (s.respond d n m p).1.inflightSteps = s.inflightSteps := by
  unfold respond
  split <;> simp

@[simp] theorem respond_updates (d : Delivery ρ) (n : ℤ) (m : Dict String ℚ)
    (p : Option (List (String × ρ))) : (s.respond d n m p).1.updates = s.updates := by
  unfold respond
  split <;> simp

/-- What one iteration does to the two sets and to the suffix. -/
inductive Effect (s : AutoSplitTailServerModel) (d : Delivery ρ) (s' : AutoSplitTailServerModel) : Prop
  | none (hp : s'.processedSteps = s.processedSteps) (hi : s'.inflightSteps = s.inflightSteps)
      (hu : s'.updates = s.updates)
  | completed (key : StepKey) (hnew : key ∉ s.processedSteps)
      (hp : s'.processedSteps = insert key s.processedSteps) (hi : s'.inflightSteps = s.inflightSteps)
      (hu : s'.updates = s.updates ++ [key])
  | lost (hf : failsAfterUpdate s d = true)

theorem trainBatch_effect (d : Delivery ρ) : Effect s d (s.trainBatch d).1 := by
  unfold trainBatch
  cases hr : s.readBatch d with
  | error e => exact .none rfl rfl rfl
  | ok p =>
    obtain ⟨key, n⟩ := p
    simp only [beginStep]
    split_ifs with hd
    · exact .none rfl rfl rfl
    · obtain ⟨hp, hi⟩ := not_or.mp hd
      have he : (insert key s.inflightSteps).erase key = s.inflightSteps := Finset.erase_insert hi
      simp only [runStep]
      cases hrun : d.run with
      | raisedBeforeStep e => exact .none rfl he rfl
      | raisedAfterStep e => exact .lost (by simp [failsAfterUpdate, hr, hrun, hp, hi])
      | returned auxiliary measurements =>
        cases ha : s.afterRun d auxiliary with
        | error e => exact .lost (by simp [failsAfterUpdate, hr, hrun, hp, hi, ha, Except.isOk, Except.toBool])
        | ok statistics =>
          -- The native configuration is the same before and after `_begin_step` and the update.
          have ha' : AutoSplitTailServerModel.afterRun (applyUpdate { s with
              inflightSteps := insert key s.inflightSteps } key) d auxiliary = .ok statistics := ha
          simp only [ha']
          apply Effect.completed key hp
          · simp [completeStep, applyUpdate]
          · simp [completeStep, applyUpdate, he]
          · simp [completeStep, applyUpdate]

/-- Between two iterations nothing is in flight, and the suffix has had the updates of the
processed steps and no others. -/
structure Sound (s : AutoSplitTailServerModel) : Prop where
  idle : s.inflightSteps = ∅
  once : ∀ key, s.updates.count key = if key ∈ s.processedSteps then 1 else 0

theorem Sound.trainBatch (h : Sound s) {d : Delivery ρ} (hc : failsAfterUpdate s d = false) :
    Sound (s.trainBatch d).1 := by
  cases trainBatch_effect (s := s) d with
  | none hp hi hu =>
    refine ⟨hi.trans h.idle, ?_⟩
    intro key
    rw [hu, hp]
    exact h.once key
  | completed key hnew hp hi hu =>
    refine ⟨hi.trans h.idle, ?_⟩
    intro k
    rw [hu, hp, List.count_append, h.once k, List.count_singleton]
    by_cases hk : k = key
    · subst hk
      simp [hnew]
    · simp [hk, Ne.symm hk]
  | lost hf => cases hf.symm.trans hc

theorem Sound.trainBatches {batches : List (Delivery ρ)} (h : Sound s)
    (hc : cleanBatches s batches = true) : Sound (s.trainBatches batches).1 := by
  induction batches generalizing s with
  | nil => exact h
  | cons d batches ih =>
    rw [cleanBatches, Bool.and_eq_true, Bool.not_eq_true'] at hc
    have hd : Sound (s.trainBatch d).1 := h.trainBatch hc.1
    rw [AutoSplitTailServerModel.trainBatches]
    rcases hb : s.trainBatch d with ⟨s', e | response⟩
    · rw [hb] at hd
      exact hd
    · rw [hb] at hd hc
      have hrest : Sound (s'.trainBatches batches).1 := ih hd (by simpa [Except.isOk, Except.toBool] using hc.2)
      simp only
      split <;> simp_all

theorem Sound.configureFit {ins : ServerModelFitIns} (h : ins.clientStageCount = 1) :
    Sound (s.configureFit ins).1 := by
  unfold AutoSplitTailServerModel.configureFit
  rw [if_neg (by simp [h])]
  exact ⟨rfl, fun key ↦ rfl⟩

theorem Reached.sound {s₀ : AutoSplitTailServerModel} (h : Reached ρ s₀ s) : Sound s := by
  induction h with
  | configured ins h => exact .configureFit h
  | trained batches _ hc ih =>
    unfold AutoSplitTailServerModel.trainTail
    split_ifs with hp
    · exact ih
    · exact ih.trainBatches hc

theorem update_at_most_once {s₀ : AutoSplitTailServerModel} (h : Reached ρ s₀ s) (key : StepKey) :
    s.updates.count key ≤ 1 := by
  rw [h.sound.once key]
  split_ifs
  · exact le_rfl
  · exact Nat.zero_le 1

def fresh : AutoSplitTailServerModel :=
  ⟨"torch", "", "", 0, ⟨false, ⟨"", "", ""⟩, none, "", .error (.runtimeError ""), none, false⟩, 0, 0, ∅, ∅, []⟩

/-- A model with the BatchNorm prefix `bn` in the suffix. -/
def batchNorm : ServerModelFitIns where
  sid := "a"
  clientStageCount := 1
  modelVersion := 3
  planId := "p"
  native :=
    { prepared := true, contract := ⟨"s", "g", "b"⟩, batchWindow := none, traceBatchMode := ""
      ownership := .ok ⟨buffers "bn", [.suffixStage, .suffixStage, .suffixStage], ""⟩
      associations := some (buffers "bn"), supportsAuxiliary := true }
  raises := none

/-- One delivery of step `step-1`, whose forward pass exposes the statistics of `names`. -/
def delivery (run : SuffixRun Unit) : Delivery Unit where
  boundary := .ok ⟨"torchlens", "torch", 3, "a", "step-1", "p", "s", "g", "b", 3, 8⟩
  payload := none
  targets := none
  numExamples := .ok 8
  run := run
  applyStatistics := none
  loss := .ok 1
  encodeGradients := none
  encodeStatistics := none

def exposing (names : List String) : Delivery Unit :=
  delivery (.returned (some (Dict.ofList (names.map fun n ↦ (n, ())))) (Dict.ofList [("server_total_ms", 1)]))

def stepOne : StepKey := ⟨3, "a", "step-1"⟩

/-- Statistics missing from the output of a forward pass: the update is applied, the step is given
back, and the retry applies it again. -/
theorem missing_statistics_update_twice :
    let first := ((fresh.configureFit batchNorm).1.trainTail [exposing []])
    let retry := first.1.trainTail [exposing ["bn"]]
    first.2.isOk = false ∧ first.1.updates = [stepOne] ∧ retry.2.isOk = true ∧
      retry.1.updates.count stepOne = 2 := by
  decide

/-- A step fails in the loss, is retried, and is then delivered once more. -/
theorem retried_step_once :
    let s₀ := (fresh.configureFit batchNorm).1
    let s₁ := (s₀.trainTail [delivery (.raisedBeforeStep (.valueError "loss"))]).1
    let s₂ := (s₁.trainTail [exposing ["bn"], exposing ["bn"]]).1
    s₂.updates = [stepOne] ∧ s₂.updates.count stepOne ≤ 1 :=
  ⟨by decide, update_at_most_once (.trained _ (.trained _ (.configured batchNorm rfl) (by decide)) (by decide))
    stepOne⟩

end SplitFleet.UpdateOnce
