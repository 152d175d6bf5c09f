import SplitFleet.UpdateOnce

set_option autoImplicit false

namespace SplitFleet.TailServer

open Lib

/-- The accounts in the configuration of a fit result. -/
structure FitReport where
  numExamples : ℤ
  avgLoss : ℚ

namespace AutoSplitTailServerModel

/-- `get_fit_result`, with the exception of the export of the state, if it raises one. -/
def getFitResult (s : AutoSplitTailServerModel) (exported : Option PyError) : Except PyError FitReport :=
  let averageLoss := s.lossTotal / max s.numExamples 1
  match exported with
  | some e => .error e
  | none =>
    if s.native.prepared = false then
      .error (.runtimeError "AutoSplitTailServerModel has not been configured.")
    else .ok ⟨s.numExamples, averageLoss⟩

end AutoSplitTailServerModel

end SplitFleet.TailServer

namespace SplitFleet.SuffixAccounting

open Lib StateOwnership TailServer AutoSplitTailServerModel UpdateOnce

variable {ρ : Type} {s : AutoSplitTailServerModel}

/-! ### Runs and their completed steps -/

/-- The state after some calls of `train_tail`. -/
def run (s : AutoSplitTailServerModel) (calls : List (List (Delivery ρ))) : AutoSplitTailServerModel :=
  calls.foldl (fun s batches ↦ (s.trainTail batches).1) s

/-- The step that a delivery puts into the processed ones. -/
def completion (s : AutoSplitTailServerModel) (d : Delivery ρ) : List (StepKey × Delivery ρ) :=
  match s.readBatch d with
  | .error _ => []
  | .ok (key, _) => if key ∈ (s.trainBatch d).1.processedSteps ∧ key ∉ s.processedSteps then [(key, d)] else []

def completions (s : AutoSplitTailServerModel) : List (Delivery ρ) → List (StepKey × Delivery ρ)
  | [] => []
  | d :: batches =>
    completion s d ++
      match s.trainBatch d with
      | (_, .error _) => []
      | (s', .ok _) => completions s' batches

/-- The completed steps of a run, each with the delivery that completed it. -/
def ledger (s : AutoSplitTailServerModel) : List (List (Delivery ρ)) → List (StepKey × Delivery ρ)
  | [] => []
  | batches :: calls =>
    (if s.native.prepared then completions s batches else []) ++ ledger (s.trainTail batches).1 calls

/-- The step of `d` is completed, and its service time or its loss cannot be read. -/
def losesAccount (s : AutoSplitTailServerModel) (d : Delivery ρ) : Bool :=
  match s.readBatch d, d.run with
  | .ok (key, _), .returned auxiliary measurements =>
    key ∉ s.processedSteps ∪ s.inflightSteps && (s.afterRun d auxiliary).isOk &&
      !((measurements.get? "server_total_ms").isSome && d.loss.isOk)
  | _, _ => false

def keepsBatches (s : AutoSplitTailServerModel) : List (Delivery ρ) → Bool
  | [] => true
  | d :: batches => !losesAccount s d &&
      (!(s.trainBatch d).2.isOk || keepsBatches (s.trainBatch d).1 batches)

/-- No delivery that a run comes to loses its account. -/
def keepsAccounts (s : AutoSplitTailServerModel) : List (List (Delivery ρ)) → Bool
  | [] => true
  | batches :: calls =>
    (!s.native.prepared || keepsBatches s batches) && keepsAccounts (s.trainTail batches).1 calls

/-! ### One delivery -/

def examplesOf (d : Delivery ρ) : ℤ := d.numExamples.toOption.getD 0

def lossOf (d : Delivery ρ) : ℚ := d.loss.toOption.getD 0

/-- What one iteration does to the accounts. -/
inductive Booked (s : AutoSplitTailServerModel) (d : Delivery ρ) (s' : AutoSplitTailServerModel) : Prop
  | kept (hc : completion s d = []) (hp : s'.processedSteps = s.processedSteps)
      (hn : s'.numExamples = s.numExamples) (hl : s'.lossTotal = s.lossTotal)
  | counted (key : StepKey) (n : ℤ) (l : ℚ) (hc : completion s d = [(key, d)]) (hnew : key ∉ s.processedSteps)
      (hp : s'.processedSteps = insert key s.processedSteps) (hdn : d.numExamples = .ok n) (hdl : d.loss = .ok l)
      (hn : s'.numExamples = s.numExamples + n) (hl : s'.lossTotal = s.lossTotal + l * n)
  | lost (h : losesAccount s d = true)

theorem numExamples_of_readBatch {d : Delivery ρ} {key : StepKey} {n : ℤ} (h : s.readBatch d = .ok (key, n)) :
    d.numExamples = .ok n := by
  obtain ⟨_, _, h⟩ := bind_eq_ok h
  obtain ⟨_, _, h⟩ := bind_eq_ok h
  obtain ⟨_, _, h⟩ := bind_eq_ok h
  obtain ⟨_, _, h⟩ := bind_eq_ok h
  obtain ⟨examples, hn, h⟩ := bind_eq_ok h
  cases h
  exact hn

theorem completion_eq {d : Delivery ρ} {key : StepKey} {n : ℤ} (h : s.readBatch d = .ok (key, n)) :
    completion s d =
      if key ∈ (s.trainBatch d).1.processedSteps ∧ key ∉ s.processedSteps then [(key, d)] else [] := by
  rw [completion, h]

theorem completion_of_kept {d : Delivery ρ} (h : (s.trainBatch d).1.processedSteps = s.processedSteps) :
    completion s d = [] := by
  cases hr : s.readBatch d with
  | error e => rw [completion, hr]
  | ok p =>
    rw [completion_eq hr, h]
    exact if_neg fun hk ↦ hk.2 hk.1

theorem trainBatch_booked (d : Delivery ρ) : Booked s d (s.trainBatch d).1 := by
  have hkept (h : (s.trainBatch d).1.processedSteps = s.processedSteps) := completion_of_kept h
  cases hr : s.readBatch d with
  | error e =>
    have ht : (s.trainBatch d).1 = s := by rw [trainBatch, hr]
    exact .kept (hkept (by rw [ht])) (by rw [ht]) (by rw [ht]) (by rw [ht])
  | ok p =>
    obtain ⟨key, n⟩ := p
    by_cases hd : key ∈ s.processedSteps ∨ key ∈ s.inflightSteps
    · have ht : (s.trainBatch d).1 = s := by simp only [trainBatch, hr, beginStep, if_pos hd]
      exact .kept (hkept (by rw [ht])) (by rw [ht]) (by rw [ht]) (by rw [ht])
    · obtain ⟨hp, hi⟩ := not_or.mp hd
      have ht : s.trainBatch d = runStep { s with inflightSteps := insert key s.inflightSteps } d key n := by
        simp only [trainBatch, hr, beginStep, if_neg hd]
      cases hrun : d.run with
      | raisedBeforeStep e =>
        simp only [runStep, hrun] at ht
        exact .kept (hkept (by rw [ht]; rfl)) (by rw [ht]; rfl) (by rw [ht]; rfl) (by rw [ht]; rfl)
      | raisedAfterStep e =>
        simp only [runStep, hrun] at ht
        exact .kept (hkept (by rw [ht]; rfl)) (by rw [ht]; rfl) (by rw [ht]; rfl) (by rw [ht]; rfl)
      | returned auxiliary measurements =>
        cases ha : s.afterRun d auxiliary with
        | error e =>
          have ha' : AutoSplitTailServerModel.afterRun (applyUpdate { s with
              inflightSteps := insert key s.inflightSteps } key) d auxiliary = .error e := ha
          simp only [runStep, hrun, ha'] at ht
          exact .kept (hkept (by rw [ht]; rfl)) (by rw [ht]; rfl) (by rw [ht]; rfl) (by rw [ht]; rfl)
        | ok statistics =>
          have ha' : AutoSplitTailServerModel.afterRun (applyUpdate { s with
              inflightSteps := insert key s.inflightSteps } key) d auxiliary = .ok statistics := ha
          simp only [runStep, hrun, ha'] at ht
          have hprocessed : (s.trainBatch d).1.processedSteps = insert key s.processedSteps := by
            rw [ht, respond_processed]
            rfl
          cases hm : measurements.get? "server_total_ms" with
          | none => exact .lost (by simp [losesAccount, hr, hrun, hp, hi, ha, hm, Except.isOk, Except.toBool])
          | some total =>
            cases hl : d.loss with
            | error e => exact .lost (by simp [losesAccount, hr, hrun, hp, hi, ha, hm, hl, Except.isOk, Except.toBool])
            | ok loss =>
              have hc : completion s d = [(key, d)] := by
                rw [completion_eq hr, hprocessed]
                exact if_pos ⟨Finset.mem_insert_self _ _, hp⟩
              simp only [respond, hm, hl] at ht
              refine .counted key n loss hc hp hprocessed (numExamples_of_readBatch hr) hl ?_ ?_
              · rw [ht]
                rfl
              · rw [ht]
                rfl

/-! ### Runs -/

/-- The accounts of a state are those of some completed steps. -/
structure Balanced (s : AutoSplitTailServerModel) (done : List (StepKey × Delivery ρ)) : Prop where
  keys_nodup : (done.map Prod.fst).Nodup
  processed : ∀ key, key ∈ s.processedSteps ↔ key ∈ done.map Prod.fst
  readable : ∀ p ∈ done, ∃ n l, p.2.numExamples = .ok n ∧ p.2.loss = .ok l
  numExamples : s.numExamples = (done.map fun p ↦ examplesOf p.2).sum
  lossTotal : s.lossTotal = (done.map fun p ↦ lossOf p.2 * examplesOf p.2).sum

variable {done : List (StepKey × Delivery ρ)}

theorem Balanced.trainBatch (h : Balanced s done) {d : Delivery ρ} (hd : losesAccount s d = false) :
    Balanced (s.trainBatch d).1 (done ++ completion s d) := by
  cases trainBatch_booked (s := s) d with
  | kept hc hp hn hl =>
    rw [hc, List.append_nil]
    refine ⟨h.keys_nodup, fun key ↦ ?_, h.readable, hn.trans h.numExamples, hl.trans h.lossTotal⟩
    rw [hp]
    exact h.processed key
  | counted key n l hc hnew hp hdn hdl hn hl =>
    have hfresh : key ∉ done.map Prod.fst := fun hk ↦ hnew ((h.processed key).mpr hk)
    have hexamples : examplesOf d = n := by
      rw [examplesOf, hdn]
      rfl
    have hloss : lossOf d = l := by
      rw [lossOf, hdl]
      rfl
    rw [hc]
    constructor
    · rw [List.map_append, List.nodup_append]
      refine ⟨h.keys_nodup, List.nodup_singleton _, ?_⟩
      intro a ha b hb hab
      rw [hab, List.mem_singleton.mp hb] at ha
      exact hfresh ha
    · intro k
      rw [hp, Finset.mem_insert, h.processed, List.map_append, List.mem_append, or_comm]
      simp
    · intro p hp
      rcases List.mem_append.mp hp with hp | hp
      · exact h.readable p hp
      · rw [List.mem_singleton.mp hp]
        exact ⟨n, l, hdn, hdl⟩
    · rw [hn, h.numExamples, List.map_append, List.sum_append]
      simp [hexamples]
    · rw [hl, h.lossTotal, List.map_append, List.sum_append]
      simp [hexamples, hloss]
  | lost hf => cases hf.symm.trans hd

theorem Balanced.trainBatches {batches : List (Delivery ρ)} (h : Balanced s done)
    (hk : keepsBatches s batches = true) : Balanced (s.trainBatches batches).1 (done ++ completions s batches) := by
  induction batches generalizing s done with
  | nil =>
    rw [completions, List.append_nil]
    exact h
  | cons d batches ih =>
    rw [keepsBatches, Bool.and_eq_true, Bool.not_eq_true'] at hk
    have hd := h.trainBatch hk.1
    rw [completions, AutoSplitTailServerModel.trainBatches]
    rcases hb : s.trainBatch d with ⟨s', e | response⟩
    · rw [hb] at hd
      rw [List.append_nil]
      exact hd
    · rw [hb] at hd hk
      have hrest := ih hd (by simpa [Except.isOk, Except.toBool] using hk.2)
      rw [List.append_assoc] at hrest
      simp only
      split <;> simp_all

theorem Balanced.run {calls : List (List (Delivery ρ))} (h : Balanced s done) (hk : keepsAccounts s calls = true) :
    Balanced (run s calls) (done ++ ledger s calls) := by
  induction calls generalizing s done with
  | nil =>
    rw [ledger, List.append_nil]
    exact h
  | cons batches calls ih =>
    rw [keepsAccounts, Bool.and_eq_true] at hk
    rw [ledger, ← List.append_assoc]
    refine ih ?_ hk.2
    change Balanced (s.trainTail batches).1 _
    cases hp : s.native.prepared with
    | false =>
      rw [AutoSplitTailServerModel.trainTail, if_pos hp, if_neg Bool.false_ne_true, List.append_nil]
      exact h
    | true =>
      have hk := hk.1
      rw [hp, Bool.not_true, Bool.false_or] at hk
      rw [AutoSplitTailServerModel.trainTail, if_neg (by simp [hp]), if_pos rfl]
      exact h.trainBatches hk

theorem Balanced.configureFit {s₀ : AutoSplitTailServerModel} {ins : ServerModelFitIns}
    (h : ins.clientStageCount = 1) : Balanced (s₀.configureFit ins).1 ([] : List (StepKey × Delivery ρ)) := by
  unfold AutoSplitTailServerModel.configureFit
  rw [if_neg (not_not.mpr h)]
  exact ⟨List.nodup_nil, by simp, by simp, rfl, rfl⟩

theorem getFitResult_ok {exported : Option PyError} {report : FitReport} (h : s.getFitResult exported = .ok report) :
    report = ⟨s.numExamples, s.lossTotal / max s.numExamples 1⟩ := by
  unfold getFitResult at h
  cases exported with
  | some e => cases h
  | none =>
    dsimp only at h
    split_ifs at h
    cases h
    rfl

/-- In a run that loses no account, the reported examples and the losses are those of the processed steps. -/
theorem accounts_of_processed {s₀ : AutoSplitTailServerModel} {ins : ServerModelFitIns}
    (hins : ins.clientStageCount = 1) {calls : List (List (Delivery ρ))}
    (hk : keepsAccounts (s₀.configureFit ins).1 calls = true) :
    let s := run (s₀.configureFit ins).1 calls
    let done := ledger (s₀.configureFit ins).1 calls
    Balanced s done ∧ ∀ exported report, s.getFitResult exported = .ok report →
      report.numExamples = (done.map fun p ↦ examplesOf p.2).sum ∧
      report.avgLoss = (done.map fun p ↦ lossOf p.2 * examplesOf p.2).sum / max report.numExamples 1 := by
  have h : Balanced (run (s₀.configureFit ins).1 calls) (ledger (s₀.configureFit ins).1 calls) :=
    (Balanced.configureFit hins).run hk
  refine ⟨h, fun exported report hr ↦ ?_⟩
  rw [getFitResult_ok hr]
  refine ⟨h.numExamples, ?_⟩
  dsimp only
  rw [h.lossTotal]

/-- A step fails before its update and is retried, a second one repeats it. -/
theorem accounts_of_retried_step :
    let s₀ := (fresh.configureFit batchNorm).1
    let calls := [[delivery (.raisedBeforeStep (.valueError "loss"))], [exposing ["bn"], exposing ["bn"]]]
    (run s₀ calls).numExamples = 8 ∧ (run s₀ calls).lossTotal = 8 ∧
      ((ledger s₀ calls).map fun p ↦ examplesOf p.2).sum = 8 := by
  intro s₀ calls
  obtain ⟨h, -⟩ := @accounts_of_processed Unit fresh batchNorm rfl calls (by decide)
  have hsum : ((ledger s₀ calls).map fun p ↦ examplesOf p.2).sum = 8 := by decide
  refine ⟨h.numExamples.trans hsum, h.lossTotal.trans ?_, hsum⟩
  decide +kernel

/-- A loss of one value per example: it is read after the step is completed, and cannot be. -/
def perExampleLoss : Delivery Unit :=
  { exposing ["bn"] with loss := .error (.valueError "can only convert an array of size 1 to a Python scalar") }

/-- A processed step whose examples the fit result leaves out. -/
theorem processed_step_not_counted : ¬ ∀ (s₀ : AutoSplitTailServerModel) (ins : ServerModelFitIns)
    (calls : List (List (Delivery Unit))), ins.clientStageCount = 1 →
    (run (s₀.configureFit ins).1 calls).processedSteps =
        ((ledger (s₀.configureFit ins).1 calls).map Prod.fst).toFinset →
      ∀ report, (run (s₀.configureFit ins).1 calls).getFitResult none = .ok report →
        report.numExamples = ((ledger (s₀.configureFit ins).1 calls).map fun p ↦ examplesOf p.2).sum := by
  intro hall
  have h := hall fresh batchNorm [[perExampleLoss]] rfl (by decide) _ rfl
  revert h
  decide

end SplitFleet.SuffixAccounting
