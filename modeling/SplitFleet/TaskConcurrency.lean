import Mathlib.Data.List.ReduceOption
import SplitFleet.Lib.Arith
import SplitFleet.Lib.Sweep

set_option autoImplicit false

namespace SplitFleet.Virtual

open Lib

/-- The metrics of one task that the overlap is measured from. -/
structure TaskMetrics where
  workerBootId : Option String
  workerHost : String
  workerTaskStartNs : ℤ
  workerTaskEndNs : ℤ
  /-- `json.loads` of the text -/
  nativeTrainingIntervalsNs : Option (List (List ℤ))
  deriving DecidableEq

/-- What is measured of tasks on one clock. -/
structure Measured (N : Type) where
  peakRunningClients : ℤ
  meanRunningClients : N
  clientHandlerWindowSec : N
  peakComputingClients : Option ℤ
  meanComputingClients : Option N
  deriving DecidableEq

structure RoundConcurrency (N : Type) where
  peakRunningClients : Option ℤ
  meanRunningClients : Option N
  peakComputingClients : Option ℤ
  meanComputingClients : Option N

namespace TaskMetrics

def handler (m : TaskMetrics) : ℤ × ℤ := (m.workerTaskStartNs, m.workerTaskEndNs)

/-- The clock that a task was measured on. -/
def clock (m : TaskMetrics) : Option String × String := (m.workerBootId, m.workerHost)

/-- `not m.get("worker_boot_id")` -/
def Unbooted (m : TaskMetrics) : Prop := m.workerBootId.getD "" = ""

instance (m : TaskMetrics) : Decidable m.Unbooted := by
  unfold Unbooted
  infer_instance

end TaskMetrics

/-- A row with a start and a later end. -/
def measuredRow : List ℤ → Option (ℤ × ℤ)
  | [first, last] => if first < last then some (first, last) else none
  | _ => none

def trainingRows (metrics : List TaskMetrics) : List (List ℤ) :=
  metrics.flatMap fun m ↦ m.nativeTrainingIntervalsNs.getD []

def trainingIntervals (metrics : List TaskMetrics) : List (ℤ × ℤ) := (trainingRows metrics).filterMap measuredRow

/-- The end of the last task. -/
def lastEnd (metrics : List TaskMetrics) : ℤ := ((metrics.map (·.workerTaskEndNs)).max?).getD 0

/-- The start of the first task. -/
def firstStart (metrics : List TaskMetrics) : ℤ := ((metrics.map (·.workerTaskStartNs)).min?).getD 0

def elapsed (metrics : List TaskMetrics) : ℤ := lastEnd metrics - firstStart metrics

section Measuring

variable (N : Type) [Arith N]

/-- The peak and the mean of the training calls, where every task has them. -/
def computing (metrics : List TaskMetrics) : Except PyError (Option ℤ × Option N) :=
  if ∀ m ∈ metrics, m.nativeTrainingIntervalsNs.isSome then
    if ∃ row ∈ trainingRows metrics, measuredRow row = none then
      .error (.valueError "Native training intervals must be measured positive durations")
    else
      .ok (some (sweep (timeline (trainingIntervals metrics))).2,
        some (Arith.trueDiv (occupied (trainingIntervals metrics)) (elapsed metrics)))
  else .ok (none, none)

def taskConcurrency (metrics : List TaskMetrics) : Except PyError (Option (Measured N)) :=
  if metrics = [] ∨ (metrics.map (·.clock)).dedup.length ≠ 1 ∨ ∃ m ∈ metrics, m.Unbooted then .ok none
  else if ∃ m ∈ metrics, m.workerTaskEndNs ≤ m.workerTaskStartNs then
    .error (.valueError "Worker task intervals must have a positive measured duration")
  else do
    let (computePeak, computeMean) ← computing N metrics
    return some {
      peakRunningClients := (sweep (timeline (metrics.map (·.handler)))).2
      meanRunningClients := Arith.trueDiv (occupied (metrics.map (·.handler))) (elapsed metrics)
      clientHandlerWindowSec := Arith.ofInt (elapsed metrics) / Arith.ofInt 1000000000
      peakComputingClients := computePeak
      meanComputingClients := computeMean }

variable {N} [DecidableEq N]

/-- `None` stands for a row without measured overlap. -/
def roundConcurrency (rows : List (Option (Measured N))) : RoundConcurrency N :=
  let measured := rows.reduceOption
  let duration := Arith.sum (measured.map (·.clientHandlerWindowSec))
  { peakRunningClients := (measured.map (·.peakRunningClients)).max?
    meanRunningClients :=
      if duration ≠ Arith.ofInt 0 then
        some (Arith.sum (measured.map fun row ↦ row.meanRunningClients * row.clientHandlerWindowSec) / duration)
      else none
    peakComputingClients := (measured.filterMap (·.peakComputingClients)).max?
    meanComputingClients :=
      if duration ≠ Arith.ofInt 0 ∧ ∀ row ∈ measured, row.meanComputingClients.isSome then
        some (Arith.sum (measured.map fun row ↦
          row.meanComputingClients.getD (Arith.ofInt 0) * row.clientHandlerWindowSec) / duration)
      else none }

end Measuring

/-! ### The overlap of tasks on one clock -/

namespace TaskMetrics

/-- The task and every training call of it took time. -/
structure Positive (m : TaskMetrics) : Prop where
  task : m.workerTaskStartNs < m.workerTaskEndNs
  training : ∀ rows, m.nativeTrainingIntervalsNs = some rows → ∀ row ∈ rows, measuredRow row ≠ none

end TaskMetrics

/-- All tasks were measured on one clock. -/
def OneClock (metrics : List TaskMetrics) : Prop :=
  ∃ boot host, boot ≠ "" ∧ ∀ m ∈ metrics, m.clock = (some boot, host)

/-- No training call lies outside the time from the first start to the last end. -/
def Inside (metrics : List TaskMetrics) : Prop :=
  ∀ i ∈ trainingIntervals metrics, firstStart metrics ≤ i.1 ∧ i.2 ≤ lastEnd metrics

section Overlap

variable {N : Type} [Arith N] {metrics others : List TaskMetrics}

theorem max?_perm {l l' : List ℤ} (h : l.Perm l') : l.max? = l'.max? := by
  apply Option.ext
  intro a
  rw [List.max?_eq_some_iff, List.max?_eq_some_iff]
  simp only [h.mem_iff]

theorem min?_perm {l l' : List ℤ} (h : l.Perm l') : l.min? = l'.min? := by
  apply Option.ext
  intro a
  rw [List.min?_eq_some_iff, List.min?_eq_some_iff]
  simp only [h.mem_iff]

theorem elapsed_perm (h : metrics.Perm others) : elapsed metrics = elapsed others := by
  rw [elapsed, elapsed, lastEnd, lastEnd, firstStart, firstStart, max?_perm (h.map _), min?_perm (h.map _)]

theorem occupied_perm {intervals others : List (ℤ × ℤ)} (h : intervals.Perm others) :
    occupied intervals = occupied others := (h.map _).sum_eq

theorem trainingRows_perm (h : metrics.Perm others) : (trainingRows metrics).Perm (trainingRows others) :=
  h.flatMap_right _

theorem computing_perm (h : metrics.Perm others) : computing N metrics = computing N others := by
  have hrows := trainingRows_perm h
  have hintervals : (trainingIntervals metrics).Perm (trainingIntervals others) := hrows.filterMap measuredRow
  simp only [computing, h.mem_iff, hrows.mem_iff, timeline_congr hintervals, occupied_perm hintervals, elapsed_perm h]

/-- The order of the records does not matter. -/
theorem taskConcurrency_perm (h : metrics.Perm others) : taskConcurrency N metrics = taskConcurrency N others := by
  have hempty : metrics = [] ↔ others = [] := by
    rw [← List.length_eq_zero_iff, h.length_eq, List.length_eq_zero_iff]
  have hclocks : (metrics.map (·.clock)).dedup.length = (others.map (·.clock)).dedup.length :=
    (h.map _).dedup.length_eq
  simp only [taskConcurrency, hempty, hclocks, h.mem_iff, computing_perm h, timeline_congr (h.map _),
    occupied_perm (h.map _), elapsed_perm h]

theorem le_lastEnd {m : TaskMetrics} (h : m ∈ metrics) : m.workerTaskEndNs ≤ lastEnd metrics := by
  have hmem : m.workerTaskEndNs ∈ metrics.map (·.workerTaskEndNs) := List.mem_map_of_mem h
  cases hmax : (metrics.map (·.workerTaskEndNs)).max? with
  | none =>
    rw [List.max?_eq_none_iff.mp hmax] at hmem
    exact absurd hmem List.not_mem_nil
  | some last =>
    rw [lastEnd, hmax]
    exact (List.max?_eq_some_iff.mp hmax).2 _ hmem

theorem firstStart_le {m : TaskMetrics} (h : m ∈ metrics) : firstStart metrics ≤ m.workerTaskStartNs := by
  have hmem : m.workerTaskStartNs ∈ metrics.map (·.workerTaskStartNs) := List.mem_map_of_mem h
  cases hmin : (metrics.map (·.workerTaskStartNs)).min? with
  | none =>
    rw [List.min?_eq_none_iff.mp hmin] at hmem
    exact absurd hmem List.not_mem_nil
  | some first =>
    rw [firstStart, hmin]
    exact (List.min?_eq_some_iff.mp hmin).2 _ hmem

/-- What a list of records is when its overlap was measured. -/
theorem taskConcurrency_eq_some {r : Measured N} (h : taskConcurrency N metrics = .ok (some r)) :
    metrics ≠ [] ∧ (∀ m ∈ metrics, m.workerTaskStartNs < m.workerTaskEndNs) ∧
      computing N metrics = .ok (r.peakComputingClients, r.meanComputingClients) ∧
      r.peakRunningClients = (sweep (timeline (metrics.map (·.handler)))).2 ∧
      r.meanRunningClients = Arith.trueDiv (occupied (metrics.map (·.handler))) (elapsed metrics) ∧
      r.clientHandlerWindowSec = Arith.ofInt (elapsed metrics) / Arith.ofInt 1000000000 := by
  rw [taskConcurrency] at h
  split_ifs at h with hnone hpos
  · cases h
  · obtain ⟨⟨computePeak, computeMean⟩, hc, h⟩ := bind_eq_ok h
    cases h
    refine ⟨fun he ↦ hnone (.inl he), fun m hm ↦ ?_, hc, rfl, rfl, rfl⟩
    by_contra hle
    exact hpos ⟨m, hm, not_lt.mp hle⟩

theorem computing_of_positive (hpos : ∀ m ∈ metrics, m.Positive) : ∃ r, computing N metrics = .ok r := by
  rw [computing]
  split_ifs with hall hbad
  · obtain ⟨row, hrow, hbad⟩ := hbad
    obtain ⟨m, hm, hrow⟩ := List.mem_flatMap.mp hrow
    obtain ⟨rows, hrows⟩ := Option.isSome_iff_exists.mp (hall m hm)
    rw [hrows] at hrow
    exact absurd hbad ((hpos m hm).training rows hrows row hrow)
  · exact ⟨_, rfl⟩
  · exact ⟨_, rfl⟩

theorem dedup_clocks (hne : metrics ≠ []) (hclock : OneClock metrics) : (metrics.map (·.clock)).dedup.length = 1 := by
  obtain ⟨boot, host, -, hall⟩ := hclock
  have hconst : metrics.map (·.clock) = List.replicate metrics.length (some boot, host) := by
    rw [List.eq_replicate_iff, List.length_map]
    refine ⟨rfl, fun c hc ↦ ?_⟩
    obtain ⟨m, hm, rfl⟩ := List.mem_map.mp hc
    exact hall m hm
  rw [hconst, List.replicate_dedup (List.length_pos_iff.mpr hne).ne']
  rfl

theorem exists_measured (hne : metrics ≠ []) (hclock : OneClock metrics) (hpos : ∀ m ∈ metrics, m.Positive) :
    ∃ r, taskConcurrency N metrics = .ok (some r) := by
  have hunbooted : ¬ ∃ m ∈ metrics, m.Unbooted := by
    obtain ⟨boot, host, hboot, hall⟩ := hclock
    intro h
    obtain ⟨m, hm, hu⟩ := h
    have hm : m.workerBootId = some boot := (Prod.ext_iff.mp (hall m hm)).1
    rw [TaskMetrics.Unbooted, hm] at hu
    exact hboot hu
  have hlate : ¬ ∃ m ∈ metrics, m.workerTaskEndNs ≤ m.workerTaskStartNs := by
    intro h
    obtain ⟨m, hm, hle⟩ := h
    exact absurd (hpos m hm).task (not_lt.mpr hle)
  have hfirst : ¬(metrics = [] ∨ (metrics.map (·.clock)).dedup.length ≠ 1 ∨ ∃ m ∈ metrics, m.Unbooted) := by
    intro h
    obtain h | h | h := h
    · exact hne h
    · exact h (dedup_clocks hne hclock)
    · exact hunbooted h
  obtain ⟨⟨computePeak, computeMean⟩, hc⟩ := computing_of_positive (N := N) hpos
  rw [taskConcurrency, if_neg hfirst, if_neg hlate, hc]
  exact ⟨_, rfl⟩

/-- The peaks are the largest overlaps and the mean is the occupied time by the window. -/
structure ExactOverlap (metrics : List TaskMetrics) (r : Measured N) : Prop where
  peak : IsGreatest (Set.range fun t ↦ (overlap (metrics.map (·.handler)) t : ℤ)) r.peakRunningClients
  mean : r.meanRunningClients = Arith.trueDiv (occupied (metrics.map (·.handler))) (elapsed metrics)
  computePeak : ∀ p, r.peakComputingClients = some p →
    IsGreatest (Set.range fun t ↦ (overlap (trainingIntervals metrics) t : ℤ)) p

theorem isGreatest_sweep {intervals : List (ℤ × ℤ)} (hpos : ∀ i ∈ intervals, i.1 < i.2) :
    IsGreatest (Set.range fun t ↦ (overlap intervals t : ℤ)) (sweep (timeline intervals)).2 := by
  refine ⟨exists_overlap_eq_sweep hpos, ?_⟩
  rw [mem_upperBounds, Set.forall_mem_range]
  exact overlap_le_sweep hpos

theorem handler_pos (hpos : ∀ m ∈ metrics, m.workerTaskStartNs < m.workerTaskEndNs) :
    ∀ i ∈ metrics.map (·.handler), i.1 < i.2 := by
  intro i hi
  obtain ⟨m, hm, rfl⟩ := List.mem_map.mp hi
  exact hpos m hm

theorem trainingIntervals_pos : ∀ i ∈ trainingIntervals metrics, i.1 < i.2 := by
  intro i hi
  obtain ⟨row, -, hrow⟩ := List.mem_filterMap.mp hi
  unfold measuredRow at hrow
  split at hrow
  · split_ifs at hrow with hlt
    cases hrow
    exact hlt
  · cases hrow

theorem computing_eq {computePeak : Option ℤ} {computeMean : Option N}
    (h : computing N metrics = .ok (computePeak, computeMean)) :
    (computePeak = none ∧ computeMean = none) ∨ (computePeak = some (sweep (timeline (trainingIntervals metrics))).2 ∧
      computeMean = some (Arith.trueDiv (occupied (trainingIntervals metrics)) (elapsed metrics))) := by
  rw [computing] at h
  split_ifs at h
  · cases h
    exact .inr ⟨rfl, rfl⟩
  · cases h
    exact .inl ⟨rfl, rfl⟩

theorem exactOverlap {r : Measured N} (h : taskConcurrency N metrics = .ok (some r)) : ExactOverlap metrics r := by
  obtain ⟨-, hpos, hc, hpeak, hmean, -⟩ := taskConcurrency_eq_some h
  refine ⟨?_, hmean, fun p hp ↦ ?_⟩
  · rw [hpeak]
    exact isGreatest_sweep (handler_pos hpos)
  · obtain ⟨he, -⟩ | ⟨he, -⟩ := computing_eq hc
    · rw [he] at hp
      cases hp
    · rw [he] at hp
      cases hp
      exact isGreatest_sweep trainingIntervals_pos

theorem active_timeline {intervals : List (ℤ × ℤ)} : active (timeline intervals) = 0 := by
  rw [active, ((timeline_perm intervals).map _).sum_eq, events]
  simp [Function.comp_def]

end Overlap

/-! ### Exact arithmetic -/

section Exact

variable {metrics : List TaskMetrics} {r : Measured ℚ}

theorem elapsed_pos (hne : metrics ≠ []) (hpos : ∀ m ∈ metrics, m.workerTaskStartNs < m.workerTaskEndNs) :
    0 < elapsed metrics := by
  obtain ⟨m, hm⟩ := List.exists_mem_of_ne_nil metrics hne
  have hfirst := firstStart_le hm
  have hlast := le_lastEnd hm
  have hm := hpos m hm
  rw [elapsed]
  omega

/-- Intervals in a window occupy at most the window times their largest overlap. -/
theorem trueDiv_occupied_le {intervals : List (ℤ × ℤ)} (helapsed : 0 < elapsed metrics)
    (h : ∀ i ∈ intervals, firstStart metrics ≤ i.1 ∧ i.1 < i.2 ∧ i.2 ≤ lastEnd metrics) :
    (Arith.trueDiv (occupied intervals) (elapsed metrics) : ℚ) ≤ (sweep (timeline intervals)).2 := by
  have hle : firstStart metrics ≤ lastEnd metrics := by
    rw [elapsed] at helapsed
    omega
  have hocc := occupied_le h hle (overlap_le_sweep fun i hi ↦ (h i hi).2.1)
  have hcast : (occupied intervals : ℚ) ≤ elapsed metrics * (sweep (timeline intervals)).2 := by
    exact_mod_cast hocc
  have hpos : (0 : ℚ) < elapsed metrics := by exact_mod_cast helapsed
  change (occupied intervals : ℚ) / elapsed metrics ≤ _
  rw [div_le_iff₀ hpos, mul_comm]
  exact hcast

theorem mean_le_peak (h : taskConcurrency ℚ metrics = .ok (some r)) : r.meanRunningClients ≤ r.peakRunningClients := by
  obtain ⟨hne, hpos, -, hpeak, hmean, -⟩ := taskConcurrency_eq_some h
  rw [hpeak, hmean]
  apply trueDiv_occupied_le (elapsed_pos hne hpos)
  intro i hi
  obtain ⟨m, hm, rfl⟩ := List.mem_map.mp hi
  exact ⟨firstStart_le hm, hpos m hm, le_lastEnd hm⟩

theorem window_pos (h : taskConcurrency ℚ metrics = .ok (some r)) : 0 < r.clientHandlerWindowSec := by
  obtain ⟨hne, hpos, -, -, -, hwindow⟩ := taskConcurrency_eq_some h
  have hpos : (0 : ℚ) < elapsed metrics := by exact_mod_cast elapsed_pos hne hpos
  rw [hwindow]
  exact div_pos hpos (by decide)

theorem computing_mean_le_peak (h : taskConcurrency ℚ metrics = .ok (some r)) (hin : Inside metrics) {mean : ℚ}
    (hm : r.meanComputingClients = some mean) : ∃ peak, r.peakComputingClients = some peak ∧ mean ≤ peak := by
  obtain ⟨hne, hpos, hc, -, -, -⟩ := taskConcurrency_eq_some h
  obtain ⟨-, he⟩ | ⟨hp, he⟩ := computing_eq hc
  · rw [he] at hm
    cases hm
  · rw [he] at hm
    cases hm
    refine ⟨_, hp, ?_⟩
    apply trueDiv_occupied_le (elapsed_pos hne hpos)
    intro i hi
    exact ⟨(hin i hi).1, trainingIntervals_pos i hi, (hin i hi).2⟩

variable {rows : List (Option (Measured ℚ))}

/-- A row that the measurement gives. -/
def IsRow (row : Option (Measured ℚ)) : Prop := ∃ metrics, taskConcurrency ℚ metrics = .ok row

/-- A row that the measurement gives where every training call lies in its window. -/
def IsInsideRow (row : Option (Measured ℚ)) : Prop := ∃ metrics, Inside metrics ∧ taskConcurrency ℚ metrics = .ok row

theorem le_of_max? {l : List ℤ} {peak : ℤ} (h : l.max? = some peak) {a : ℤ} (ha : a ∈ l) : a ≤ peak :=
  (List.max?_eq_some_iff.mp h).2 a ha

theorem exists_max?_of_mem {l : List ℤ} {a : ℤ} (ha : a ∈ l) : ∃ peak, l.max? = some peak ∧ a ≤ peak := by
  cases h : l.max? with
  | none =>
    rw [List.max?_eq_none_iff.mp h] at ha
    exact absurd ha List.not_mem_nil
  | some peak => exact ⟨peak, rfl, le_of_max? h ha⟩

/-- A mean over rows, weighted by their windows, is at most a bound on their values. -/
theorem weighted_mean_le {l : List (Measured ℚ)} {value : Measured ℚ → ℚ} {bound : ℚ}
    (hw : ∀ row ∈ l, 0 < row.clientHandlerWindowSec) (hv : ∀ row ∈ l, value row ≤ bound)
    (hd : Arith.sum (l.map (·.clientHandlerWindowSec)) ≠ Arith.ofInt 0) :
    Arith.sum (l.map fun row ↦ value row * row.clientHandlerWindowSec) /
      Arith.sum (l.map (·.clientHandlerWindowSec)) ≤ bound := by
  rw [Arith.sum_exact] at hd ⊢
  rw [Arith.sum_exact]
  have hnonneg : 0 ≤ (l.map (·.clientHandlerWindowSec)).sum := by
    apply List.sum_nonneg
    intro w hw'
    obtain ⟨row, hrow, rfl⟩ := List.mem_map.mp hw'
    exact (hw row hrow).le
  have hpos : 0 < (l.map (·.clientHandlerWindowSec)).sum := lt_of_le_of_ne hnonneg (Ne.symm hd)
  rw [div_le_iff₀ hpos]
  exact Arith.sum_mul_le (fun row hrow ↦ (hw row hrow).le) hv

theorem exists_mem_of_sum_ne {l : List (Measured ℚ)}
    (hd : Arith.sum (l.map (·.clientHandlerWindowSec)) ≠ Arith.ofInt 0) : ∃ row, row ∈ l := by
  apply List.exists_mem_of_ne_nil
  intro h
  rw [h] at hd
  exact hd rfl

theorem round_mean_le_peak (hrows : ∀ row ∈ rows, IsRow row) {mean : ℚ}
    (hmean : (roundConcurrency rows).meanRunningClients = some mean) :
    ∃ peak, (roundConcurrency rows).peakRunningClients = some peak ∧ mean ≤ peak := by
  have hmeasured : ∀ row ∈ rows.reduceOption, row.meanRunningClients ≤ row.peakRunningClients ∧
      0 < row.clientHandlerWindowSec := by
    intro row hrow
    obtain ⟨metrics, h⟩ := hrows (some row) (List.reduceOption_mem_iff.mp hrow)
    exact ⟨mean_le_peak h, window_pos h⟩
  dsimp only [roundConcurrency] at hmean ⊢
  split_ifs at hmean with hd
  cases hmean
  obtain ⟨row, hrow⟩ := exists_mem_of_sum_ne hd
  obtain ⟨peak, hpeak, -⟩ := exists_max?_of_mem (List.mem_map_of_mem (f := (·.peakRunningClients)) hrow)
  refine ⟨peak, hpeak, weighted_mean_le (fun row hrow ↦ (hmeasured row hrow).2) (fun row hrow ↦ ?_) hd⟩
  have hle : row.peakRunningClients ≤ peak := le_of_max? hpeak (List.mem_map_of_mem hrow)
  exact (hmeasured row hrow).1.trans (by exact_mod_cast hle)

theorem round_computing_mean_le_peak (hrows : ∀ row ∈ rows, IsInsideRow row) {mean : ℚ}
    (hmean : (roundConcurrency rows).meanComputingClients = some mean) :
    ∃ peak, (roundConcurrency rows).peakComputingClients = some peak ∧ mean ≤ peak := by
  have hmeasured : ∀ row ∈ rows.reduceOption, 0 < row.clientHandlerWindowSec ∧ ∀ mean,
      row.meanComputingClients = some mean → ∃ peak, row.peakComputingClients = some peak ∧ mean ≤ peak := by
    intro row hrow
    obtain ⟨metrics, hin, h⟩ := hrows (some row) (List.reduceOption_mem_iff.mp hrow)
    exact ⟨window_pos h, fun mean ↦ computing_mean_le_peak h hin⟩
  dsimp only [roundConcurrency] at hmean ⊢
  split_ifs at hmean with hd
  cases hmean
  -- Every measured row has a mean, so it has a peak, which is at most the peak of the rounds.
  have hpeaks : ∀ row ∈ rows.reduceOption, ∃ p : ℤ, p ∈ rows.reduceOption.filterMap (·.peakComputingClients) ∧
      row.meanComputingClients.getD (Arith.ofInt 0) ≤ p := by
    intro row hrow
    obtain ⟨mean, hm⟩ := Option.isSome_iff_exists.mp (hd.2 row hrow)
    obtain ⟨p, hp, hle⟩ := (hmeasured row hrow).2 mean hm
    exact ⟨p, List.mem_filterMap.mpr ⟨row, hrow, hp⟩, by rwa [hm]⟩
  obtain ⟨row, hrow⟩ := exists_mem_of_sum_ne hd.1
  obtain ⟨p, hp, -⟩ := hpeaks row hrow
  obtain ⟨peak, hpeak, -⟩ := exists_max?_of_mem hp
  refine ⟨peak, hpeak, weighted_mean_le (fun row hrow ↦ (hmeasured row hrow).1) (fun row hrow ↦ ?_) hd.1⟩
  obtain ⟨p, hp, hle⟩ := hpeaks row hrow
  have hp : p ≤ peak := le_of_max? hpeak hp
  exact hle.trans (by exact_mod_cast hp)

end Exact

/-- The overlap of tasks on one clock is exact, whatever arithmetic their means are in, and the
sweep never counts below zero and ends at zero. In exact arithmetic no mean is above its peak, of
the tasks of a round or of all rounds. -/
theorem exact_overlap {metrics : List TaskMetrics} (hne : metrics ≠ []) (hclock : OneClock metrics)
    (hpos : ∀ m ∈ metrics, m.Positive) :
    (∀ (N : Type) [Arith N], ∃ r : Measured N, taskConcurrency N metrics = .ok (some r) ∧ ExactOverlap metrics r ∧
      ∀ others, metrics.Perm others → taskConcurrency N others = .ok (some r)) ∧
    (∀ done, done <+: timeline (metrics.map (·.handler)) → 0 ≤ active done) ∧
    active (timeline (metrics.map (·.handler))) = 0 ∧
    (∀ r : Measured ℚ, taskConcurrency ℚ metrics = .ok (some r) → r.meanRunningClients ≤ r.peakRunningClients ∧
      (Inside metrics → ∀ mean, r.meanComputingClients = some mean →
        ∃ peak, r.peakComputingClients = some peak ∧ mean ≤ peak)) ∧
    (∀ rows : List (Option (Measured ℚ)),
      ((∀ row ∈ rows, IsRow row) → ∀ mean, (roundConcurrency rows).meanRunningClients = some mean →
        ∃ peak, (roundConcurrency rows).peakRunningClients = some peak ∧ mean ≤ peak) ∧
      ((∀ row ∈ rows, IsInsideRow row) → ∀ mean, (roundConcurrency rows).meanComputingClients = some mean →
        ∃ peak, (roundConcurrency rows).peakComputingClients = some peak ∧ mean ≤ peak)) := by
  refine ⟨fun N inst ↦ ?_, fun done hd ↦ ?_, active_timeline, fun r h ↦ ?_, fun rows ↦ ?_⟩
  · obtain ⟨r, h⟩ := exists_measured (N := N) hne hclock hpos
    refine ⟨r, h, exactOverlap h, fun others hp ↦ ?_⟩
    rw [← taskConcurrency_perm hp, h]
  · exact active_nonneg (handler_pos fun m hm ↦ (hpos m hm).task) hd
  · exact ⟨mean_le_peak h, fun hin mean ↦ computing_mean_le_peak h hin⟩
  · exact ⟨fun hrows mean ↦ round_mean_le_peak hrows, fun hrows mean ↦ round_computing_mean_le_peak hrows⟩

/-- Three tasks that all run from 0 to an instant. -/
def together (last : ℤ) : List TaskMetrics := List.replicate 3 ⟨some "boot", "host", 0, last, none⟩

theorem positive_together {last : ℤ} (h : 0 < last) : ∀ m ∈ together last, m.Positive := by
  intro m hm
  rw [List.eq_of_mem_replicate hm]
  exact ⟨h, fun rows hrows ↦ by cases hrows⟩

theorem oneClock_together (last : ℤ) : OneClock (together last) := by
  refine ⟨"boot", "host", by decide, fun m hm ↦ ?_⟩
  rw [List.eq_of_mem_replicate hm]
  rfl

/-- Three tasks at once, in any order. -/
theorem exact_overlap_together : ∃ r : Measured ℚ, taskConcurrency ℚ (together 2) = .ok (some r) ∧
    ExactOverlap (together 2) r ∧ ∀ others, (together 2).Perm others → taskConcurrency ℚ others = .ok (some r) :=
  (exact_overlap (by decide) (oneClock_together 2) (positive_together (by decide))).1 ℚ

/-- In binary64 two rounds of three tasks each, 3 and 2 nanoseconds long, have a mean above 3. -/
theorem rounded_mean_above_peak : ∃ rows : List (Option (Measured Float.Model)),
    (∀ row ∈ rows, ∃ metrics, metrics ≠ [] ∧ OneClock metrics ∧ (∀ m ∈ metrics, m.Positive) ∧
      taskConcurrency Float.Model metrics = .ok row) ∧
    ∃ mean peak, (roundConcurrency rows).meanRunningClients = some mean ∧
      (roundConcurrency rows).peakRunningClients = some peak ∧ Arith.ofInt peak < mean := by
  let row (last : ℤ) : Option (Measured Float.Model) := (taskConcurrency Float.Model (together last)).toOption.join
  have hrow (last : ℤ) (h : 0 < last) : taskConcurrency Float.Model (together last) = .ok (row last) := by
    obtain ⟨r, hr⟩ := exists_measured (N := Float.Model) (by simp [together]) (oneClock_together last)
      (positive_together h)
    simp only [row, hr]
    rfl
  have hmean : ((roundConcurrency [row 3, row 2]).meanRunningClients.map
      fun m ↦ decide (Arith.ofInt 3 < m)) = some true := by
    decide +kernel
  have hpeak : (roundConcurrency [row 3, row 2]).peakRunningClients = some 3 := by
    decide +kernel
  refine ⟨[row 3, row 2], fun r hr ↦ ?_, ?_⟩
  · obtain ⟨last, hlast, rfl⟩ : ∃ last : ℤ, 0 < last ∧ r = row last := by
      rw [List.mem_cons, List.mem_singleton] at hr
      obtain rfl | rfl := hr
      · exact ⟨3, by decide, rfl⟩
      · exact ⟨2, by decide, rfl⟩
    exact ⟨together last, by simp [together], oneClock_together last, positive_together hlast, hrow last hlast⟩
  · obtain ⟨mean, hm, hlt⟩ := Option.map_eq_some_iff.mp hmean
    exact ⟨mean, 3, hm, hpeak, of_decide_eq_true hlt⟩

example : (taskConcurrency ℚ (together 2)).toOption.join.map (·.meanRunningClients) = some 3 := by decide +kernel

end SplitFleet.Virtual
