import SplitFleet.FeedbackAtomicity
import Mathlib.Tactic.FieldSimp
import Mathlib.Tactic.Ring

set_option autoImplicit false

namespace SplitFleet.GreedyPolicy

open Lib Feasibility Feedback

variable {C : GreedyConfig} {normalize : String → String} {E : Environment} {round : ℤ}

section Slopes

/-- A line whose slope is taken from a point goes through it, and stays at the intercept below it. -/
theorem affine_through {intercept volume x : ℚ} (hv : 0 < volume) :
    intercept + volume * max ((x - intercept) / volume) 0 = max x intercept := by
  rw [mul_max_of_nonneg _ _ hv.le, mul_div_cancel₀ _ hv.ne', mul_zero, ← max_add_add_left, add_zero,
    add_sub_cancel]

theorem slopeFrom_some {old x intercept volume : ℚ} (hv : 0 < volume) :
    slopeFrom old (some x) intercept volume = max ((x / 1000 - intercept) / volume) 0 := if_pos hv

end Slopes

section Score

variable {s t : Policy} {cid : Cid} {c : SplitCandidateDescriptor} {batch count : ℤ}
  {context : Option NetworkContext}

/-- What `_score` returns. -/
theorem score_value (s : Policy) : (score E cid c batch count context).value s =
    effectiveTable E s cid >>= fun t ↦ scoreWith E s.profiles t c batch count context := by
  rw [Method.value]
  cases ht : effectiveTable E s cid with
  | error e => rw [score_run_error ht]; rfl
  | ok t =>
    rw [score_run ht, ok_bind]
    cases scoreWith E s.profiles t c batch count context <;> rfl

theorem score_value_congr (hp : t.profiles = s.profiles) (ht : effectiveTable E t cid = effectiveTable E s cid) :
    (score E cid c batch count context).value t = (score E cid c batch count context).value s := by
  rw [score_value, ht, hp, score_value]

end Score

section Learned

variable {s t u : Policy} {o : PlacementFeedback ℚ}

theorem costs_of_measured (e : Evidence E s o) {cf cb ss : ℚ} (hf : o.measured .clientForwardMs = some cf)
    (hb : o.measured .clientBackwardMs = some cb) (hs : o.measured .serverServiceMs = some ss) :
    e.forward = cf ∧ e.backward = cb ∧ e.service = ss := by
  have hcosts := e.costs_eq
  rw [computationCosts, hf, hb, hs] at hcosts
  dsimp only at hcosts
  split_ifs at hcosts
  cases hcosts
  exact ⟨rfl, rfl, rfl⟩

theorem tailCost_learned (e : Evidence E s o) (profiles : Option Profiles) :
    tailCost profiles e.candidate e.learned = .ok (e.service / 1000) := by
  have hget : e.learned.observedTail.get? e.candidate.boundary = some (e.service / 1000) := by
    rw [Evidence.learned, CostTable.observeLink, Evidence.costed, CostTable.observe, Dict.get?_insert, if_pos rfl]
  rw [tailCost, hget]

theorem frontCost_learned (e : Evidence E s o) (profiles : Option Profiles) :
    frontCost profiles e.candidate e.learned = .ok ((e.forward + e.backward) / 1000) := by
  have hget : e.learned.observedFront.get? e.candidate.boundary = some ((e.forward + e.backward) / 1000) := by
    rw [Evidence.learned, CostTable.observeLink, Evidence.costed, CostTable.observe, Dict.get?_insert, if_pos rfl]
  rw [frontCost, hget]

theorem transportCost_learned (e : Evidence E s o) {nr se : ℚ} (hn : o.measured .networkRoundtripMs = some nr)
    (hx : o.measured .stateExchangeMs = some se) (hv : 0 < e.volume) (hw : 0 < e.exchange) :
    transportCost E s.profiles e.candidate e.learned e.batch none =
      .ok (max (nr / 1000) e.table.networkInterceptSeconds, max (se / 1000) e.table.stateInterceptSeconds) := by
  have hnetwork : e.learned.networkSecondsPerByte =
      max ((nr / 1000 - e.table.networkInterceptSeconds) / e.volume) 0 := by
    rw [Evidence.learned, CostTable.observeLink, hn]
    exact slopeFrom_some hv
  have hstate : e.learned.stateSecondsPerByte =
      max ((se / 1000 - e.table.stateInterceptSeconds) / e.exchange) 0 := by
    rw [Evidence.learned, CostTable.observeLink, hx]
    exact slopeFrom_some hw
  have hintercepts : e.learned.networkInterceptSeconds = e.table.networkInterceptSeconds ∧
      e.learned.stateInterceptSeconds = e.table.stateInterceptSeconds := ⟨rfl, rfl⟩
  rw [transportCost, e.volumes_eq, ok_bind]
  dsimp only
  rw [hnetwork, hstate, hintercepts.1, hintercepts.2, affine_through hv, affine_through hw]
  rfl

/-- The score of a cut in a table that has learned from an observation of it. -/
theorem scoreWith_learned (e : Evidence E s o) {cf cb ss nr se : ℚ} (hf : o.measured .clientForwardMs = some cf)
    (hb : o.measured .clientBackwardMs = some cb) (hs : o.measured .serverServiceMs = some ss)
    (hn : o.measured .networkRoundtripMs = some nr) (hx : o.measured .stateExchangeMs = some se)
    (hv : 0 < e.volume) (hw : 0 < e.exchange) (n : ℤ) :
    scoreWith E s.profiles e.learned e.candidate e.batch n none =
      .ok (n * ((cf + cb) / 1000 + ss / 1000 + max (nr / 1000) e.table.networkInterceptSeconds) +
        max (se / 1000) e.table.stateInterceptSeconds) := by
  obtain ⟨rfl, rfl, rfl⟩ := costs_of_measured e hf hb hs
  rw [scoreWith, tailCost_learned, ok_bind, transportCost_learned e hn hx hv hw, ok_bind]
  dsimp only
  rw [frontCost_learned]
  rfl

end Learned

section Loop

variable {s t u : Policy} {o p : PlacementFeedback ℚ} {observations : List (PlacementFeedback ℚ)}

/-- The observation teaches the policy something of the costs. -/
def Teaches (s : Policy) (o : PlacementFeedback ℚ) : Prop := o.success = true ∧ actionKey o ∉ s.observedActions

theorem Acceptable.planned (h : Acceptable normalize E round s o) (ht : Teaches s o) :
    o.roundId = round ∧ PlannedAs s round o := by
  obtain ⟨s', h⟩ := h
  cases h with
  | seen _ hk => exact absurd hk ht.2
  | failure hr _ hp => exact ⟨hr, hp⟩
  | success hr _ hp => exact ⟨hr, hp⟩

/-- A client has one plan for a round, so that its observations are of one action. -/
theorem Teaches.unique (ho : Teaches s o) (hp : Teaches s p) (hao : Acceptable normalize E round s o)
    (hap : Acceptable normalize E round s p) (hc : o.clientId = p.clientId) : actionKey o = actionKey p := by
  obtain ⟨hro, hpo⟩ := hao.planned ho
  obtain ⟨hrp, hpp⟩ := hap.planned hp
  rw [PlannedAs, hc] at hpo
  have hb : o.boundary = p.boundary := Option.some.inj (hpo.symm.trans hpp)
  rw [actionKey, hro, hc, hb, actionKey, hrp]

theorem TakesIn.tables (h : TakesIn normalize E round s o u) :
    (Teaches s o → ∃ e : Evidence E s o, effectiveTable E u o.clientId = .ok e.learned) ∧
      ∀ cid, (Teaches s o → o.clientId ≠ cid) → effectiveTable E u cid = effectiveTable E s cid := by
  cases h with
  | seen _ hk => exact ⟨fun ht ↦ absurd hk ht.2, fun _ _ ↦ rfl⟩
  | failure _ _ _ hs =>
    refine ⟨fun ht ↦ ?_, fun _ _ ↦ rfl⟩
    rw [Teaches, hs] at ht
    exact absurd ht.1 Bool.false_ne_true
  | success _ hk _ hs e d =>
    refine ⟨fun _ ↦ ⟨e, ?_⟩, fun cid hc ↦ ?_⟩
    · rw [effectiveTable_settle, if_pos rfl]
    · rw [effectiveTable_settle, if_neg (hc ⟨hs, hk⟩).symm]

/-- The evidence of an observation is the same before another client is observed. -/
theorem Evidence.transport (h : Steady E s u) (ht : effectiveTable E u o.clientId = effectiveTable E s o.clientId)
    (e : Evidence E u o) : ∃ e' : Evidence E s o, e'.learned = e.learned := by
  have hc := e.candidate_eq
  have htable := e.table_eq
  have hv := e.volumes_eq
  rw [h.catalog] at hc
  rw [ht] at htable
  rw [h.profiles] at hv
  exact ⟨⟨e.candidate, e.table, e.forward, e.backward, e.service, e.batch, e.volume, e.exchange, e.executed, hc,
    htable, e.costs_eq, e.batch_eq, hv⟩, rfl⟩

/-- What the loop makes of the tables: a client that is observed has learned from the observation, and
any other has the table that it had. -/
theorem tables_of_forM (hnd : (observations.map actionKey).Nodup)
    (h : (observations.forM (observeOne normalize E round)).run s = .ok () u) :
    (∀ o ∈ observations, Teaches s o → ∃ e : Evidence E s o, effectiveTable E u o.clientId = .ok e.learned) ∧
      ∀ cid, (∀ o ∈ observations, Teaches s o → o.clientId ≠ cid) → effectiveTable E u cid = effectiveTable E s cid := by
  induction observations generalizing s with
  | nil =>
    cases h
    exact ⟨by simp, fun _ _ ↦ rfl⟩
  | cons p rest ih =>
    have hall := (exists_forM_iff hnd).mp ⟨u, h⟩
    obtain ⟨v, hv, h⟩ := Method.forM_cons_eq_ok h
    have ha := observeOne_run_iff.mp hv
    obtain ⟨hp, hothers⟩ := ha.tables
    rw [List.map_cons, List.nodup_cons] at hnd
    have hfresh : ∀ q ∈ rest, actionKey q ≠ actionKey p := fun q hq hk ↦
      hnd.1 (hk ▸ List.mem_map_of_mem hq)
    have hteach : ∀ q ∈ rest, Teaches v q ↔ Teaches s q := fun q hq ↦ by
      rw [Teaches, ha.mem_observed_iff (hfresh q hq), Teaches]
    have hclient : ∀ q ∈ rest, Teaches s q → Teaches s p → p.clientId ≠ q.clientId := fun q hq htq htp hc ↦
      hfresh q hq (htp.unique htq (hall p List.mem_cons_self) (hall q (List.mem_cons_of_mem p hq)) hc).symm
    obtain ⟨ho, hrest⟩ := ih hnd.2 h
    refine ⟨fun o hm ht ↦ ?_, fun cid hcid ↦ ?_⟩
    · rcases List.mem_cons.mp hm with rfl | hm
      · obtain ⟨e, he⟩ := hp ht
        refine ⟨e, ?_⟩
        rw [hrest _ fun q hq htq ↦ (hclient q hq ((hteach q hq).mp htq) ht).symm, he]
      · obtain ⟨e, he⟩ := ho o hm ((hteach o hm).mpr ht)
        obtain ⟨e', he'⟩ := e.transport ha.steady (hothers _ (hclient o hm ht))
        exact ⟨e', he'.symm ▸ he⟩
    · rw [hrest cid fun q hq htq ↦ hcid q (List.mem_cons_of_mem p hq) ((hteach q hq).mp htq)]
      exact hothers cid (hcid p List.mem_cons_self)

end Loop

section Round

variable {s s' : Policy} {feedback : List (PlacementFeedback Reading)} {observations : List (PlacementFeedback ℚ)}

/-- An observation of a success calibrates the score of its cut, and of its client alone. -/
theorem observeRound_calibrates (ha : aggregateFeedback normalize feedback = .ok observations)
    (h : (observeRound C normalize E round feedback).run s = .ok () s') {o : PlacementFeedback ℚ}
    (ho : o ∈ observations) (ht : Teaches s o) :
    ∃ candidate t batch volume exchange, s.catalogByBoundary.get? o.boundary = some candidate ∧
      effectiveTable E s o.clientId = .ok t ∧ batchSizeOf E o.clientId = .ok batch ∧
      volumes E s.profiles candidate batch = .ok (volume, exchange) ∧
      (∀ cf cb ss nr se, o.measured .clientForwardMs = some cf → o.measured .clientBackwardMs = some cb →
        o.measured .serverServiceMs = some ss → o.measured .networkRoundtripMs = some nr →
        o.measured .stateExchangeMs = some se → 0 < volume → 0 < exchange → ∀ n : ℤ,
        (score E o.clientId candidate batch n none).value s' =
          .ok (n * ((cf + cb) / 1000 + ss / 1000 + max (nr / 1000) t.networkInterceptSeconds) +
            max (se / 1000) t.stateInterceptSeconds)) ∧
      ∀ cid, (∀ p ∈ observations, Teaches s p → p.clientId ≠ cid) → ∀ c batch count context,
        (score E cid c batch count context).value s' = (score E cid c batch count context).value s := by
  obtain ⟨_, ha', h⟩ := Method.lift_bind_eq_ok h
  cases ha.symm.trans ha'
  obtain ⟨_, u, hu, h⟩ := Method.bind_eq_ok h
  obtain ⟨hlearned, hothers⟩ := tables_of_forM (nodup_actionKey ha) hu
  have hsteady := (observed_of_forM hu).1
  obtain ⟨e, he⟩ := hlearned o ho ht
  have hloaded : u.Loaded := by
    rw [Policy.Loaded, hsteady.catalog]
    intro hnil
    have hc := e.candidate_eq
    rw [Dict.get?, hnil] at hc
    cases hc
  obtain ⟨file, hfile⟩ := saveState_after (C := C) (E := E) fun _ ↦ hloaded
  obtain rfl : { u with stateFile := file } = s' := hfile.symm.trans (Method.after_of_ok h)
  have htables (cid : Cid) : effectiveTable E { u with stateFile := file } cid = effectiveTable E u cid := rfl
  refine ⟨e.candidate, e.table, e.batch, e.volume, e.exchange, e.candidate_eq, e.table_eq, e.batch_eq, e.volumes_eq,
    ?_, fun cid hcid c batch count context ↦ ?_⟩
  · intro cf cb ss nr se hf hb hs hn hx hv hw n
    rw [score_value, htables, he, ok_bind]
    dsimp only
    rw [hsteady.profiles, scoreWith_learned e hf hb hs hn hx hv hw]
  · exact score_value_congr hsteady.profiles ((htables cid).trans (hothers cid hcid))

end Round

section Sample

/-- The measurements of the cut, in milliseconds. -/
def sampleSuccess : PlacementFeedback Reading :=
  { sampleFailure with
    success := true
    numBatches := 3
    measured := fun
      | .clientForwardMs | .clientBackwardMs => some (.finite 1500)
      | .serverServiceMs => some (.finite 100)
      | .networkRoundtripMs => some (.finite 14)
      | .stateExchangeMs => some (.finite 30)
      | _ => none }

theorem observeRound_calibrates_sample : ∃ s',
    (observeRound sampleConfig id sampleEnvironment 1 [sampleSuccess]).run plannedPolicy = .ok () s' ∧
    (∃ t : CostTable, (score sampleEnvironment "a" sampleCut 2 3 none).value s' =
      .ok ((3 : ℤ) * ((1500 + 1500) / 1000 + 100 / 1000 + max (14 / 1000) t.networkInterceptSeconds) +
        max (30 / 1000) t.stateInterceptSeconds)) ∧
    ∀ c batch count context, (score sampleEnvironment "b" c batch count context).value s' =
      (score sampleEnvironment "b" c batch count context).value plannedPolicy := by
  have h : (observeRound sampleConfig id sampleEnvironment 1 [sampleSuccess]).run plannedPolicy = .ok () _ := rfl
  have ha : aggregateFeedback id [sampleSuccess] = .ok [_] := rfl
  obtain ⟨candidate, t, batch, volume, exchange, hc, ht, hbatch, hvolumes, hscore, hothers⟩ :=
    observeRound_calibrates ha h List.mem_cons_self ⟨rfl, by decide⟩
  cases hc
  cases hbatch
  have hv : volumes sampleEnvironment plannedPolicy.profiles sampleCut 2 = .ok (1000 * 2 + 1000 * 2, 400 + 300) := rfl
  cases hv.symm.trans hvolumes
  refine ⟨_, h, ⟨t, ?_⟩, fun c batch count context ↦ ?_⟩
  · exact hscore 1500 1500 100 14 30 rfl rfl rfl rfl rfl (by norm_num) (by norm_num) 3
  · refine hothers "b" (fun p hp _ ↦ ?_) c batch count context
    obtain rfl := List.mem_singleton.mp hp
    decide

end Sample

end SplitFleet.GreedyPolicy
