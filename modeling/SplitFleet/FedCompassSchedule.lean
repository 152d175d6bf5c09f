import SplitFleet.FedCompassGroups
import SplitFleet.Lib.DictOrder
import SplitFleet.Lib.Lists
import SplitFleet.Lib.Runs

set_option autoImplicit false

namespace SplitFleet.Compass

open Lib

variable {T : Type} {ops : Torch T}

/-! ### What can be raised -/

/-- The exceptions of `_check_state` for a state that has the keys of the model. -/
def CheckError (e : PyError) : Prop := ∃ name, e = .valueError ("FedCompass tensor schema mismatch: " ++ name) ∨
  e = .raised "FloatingPointError" ("Nonfinite FedCompass tensor: " ++ name)

/-- An update that `_aggregate` can take. -/
structure Mergeable (s : FedCompass T) (u : Update T) : Prop where
  known : u.clientId ∈ s.partitionSizes.keys
  base : ∀ n ∈ s.model.keys, n ∈ u.base.keys
  trained : ∀ n ∈ s.model.keys, n ∈ u.trained.keys
  version : u.assignment.modelVersion ≤ s.version

section Merge

variable {s : FedCompass T} {updates : List (Update T)} {e : PyError}

theorem item_of_mem {κ υ : Type} [DecidableEq κ] {d : Dict κ υ} {key : κ} (h : key ∈ d.keys) (text : String) :
    ∃ v, item d key text = .ok v := by
  obtain ⟨v, hv⟩ := (d.mem_keys_iff).mp h
  exact ⟨v, by rw [item, hv]⟩

theorem exists_error_of_forM {α : Type} {f : α → Except PyError Unit} {l : List α} (h : l.forM f = .error e) :
    ∃ a ∈ l, f a = .error e := by
  induction l with
  | nil => cases h
  | cons a l ih =>
    change (f a >>= fun _ ↦ l.forM f) = .error e at h
    cases ha : f a with
    | error e' =>
      rw [ha] at h
      cases h
      exact ⟨a, List.mem_cons_self, ha⟩
    | ok u =>
      rw [ha, ok_bind] at h
      obtain ⟨b, hb, he⟩ := ih h
      exact ⟨b, List.mem_cons_of_mem a hb, he⟩

theorem checkError_of_checkTensor {model : Dict String T} {p : String × T} (hp : p.1 ∈ model.keys)
    (h : checkTensor ops model p = .error e) : CheckError e := by
  obtain ⟨current, hc⟩ := item_of_mem hp p.1
  rw [checkTensor, hc, ok_bind] at h
  by_cases hs : ops.shape p.2 = ops.shape current ∧ ops.dtype p.2 = ops.dtype current
  · rw [require_of hs, ok_bind, require] at h
    split_ifs at h
    cases h
    exact ⟨p.1, .inr rfl⟩
  · rw [require, if_neg hs] at h
    cases h
    exact ⟨p.1, .inl rfl⟩

theorem checkError_of_checkState {model state : Dict String T} (hk : ∀ n, n ∈ state.keys ↔ n ∈ model.keys)
    (h : checkState ops model state = .error e) : CheckError e := by
  have hkeys : (∀ name ∈ state.keys, name ∈ model.keys) ∧ ∀ name ∈ model.keys, name ∈ state.keys :=
    ⟨fun n ↦ (hk n).mp, fun n ↦ (hk n).mpr⟩
  rw [checkState, require_of hkeys, ok_bind] at h
  obtain ⟨p, hp, he⟩ := exists_error_of_forM h
  exact checkError_of_checkTensor ((hk p.1).mp (List.mem_map_of_mem hp)) he

theorem keys_of_checkState {model state : Dict String T} (h : checkState ops model state = .ok ()) :
    ∀ n, n ∈ state.keys ↔ n ∈ model.keys := by
  obtain ⟨_, hk, -⟩ := bind_eq_ok h
  obtain ⟨h₁, h₂⟩ := of_require hk
  exact fun n ↦ ⟨h₁ n, h₂ n⟩

theorem applyDelta_ok (ops : Torch T) {u : Update T} {state : Dict String T} {name : String} (scale : ℚ) (h : name ∈ state.keys)
    (hb : name ∈ u.base.keys) (ht : name ∈ u.trained.keys) :
    ∃ state', applyDelta ops u scale state name = .ok state' ∧ ∀ n, n ∈ state'.keys ↔ n ∈ state.keys := by
  obtain ⟨value, hv⟩ := item_of_mem h name
  obtain ⟨base, hbase⟩ := item_of_mem hb name
  obtain ⟨trained, htrained⟩ := item_of_mem ht name
  rw [applyDelta, hv, ok_bind, hbase, ok_bind, htrained, ok_bind]
  refine ⟨_, rfl, fun n ↦ ?_⟩
  rw [Dict.mem_keys_insert]
  exact ⟨fun hn ↦ hn.elim (fun he ↦ he ▸ h) id, .inr⟩

theorem applyDeltas_ok (ops : Torch T) {u : Update T} (scale : ℚ) {names : List String} {state : Dict String T}
    (h : ∀ n ∈ names, n ∈ state.keys ∧ n ∈ u.base.keys ∧ n ∈ u.trained.keys) :
    ∃ state', names.foldlM (applyDelta ops u scale) state = .ok state' ∧ ∀ n, n ∈ state'.keys ↔ n ∈ state.keys := by
  induction names generalizing state with
  | nil => exact ⟨state, rfl, fun n ↦ Iff.rfl⟩
  | cons name names ih =>
    obtain ⟨hs, hb, ht⟩ := h name List.mem_cons_self
    obtain ⟨state', h', hk'⟩ := applyDelta_ok ops scale hs hb ht
    have hnames : ∀ n ∈ names, n ∈ state'.keys ∧ n ∈ u.base.keys ∧ n ∈ u.trained.keys := fun n hn ↦
      (h n (List.mem_cons_of_mem name hn)).imp_left (hk' n).mpr
    obtain ⟨state'', h'', hk''⟩ := ih hnames
    rw [List.foldlM_cons, h', ok_bind]
    exact ⟨state'', h'', fun n ↦ (hk'' n).trans (hk' n)⟩

theorem mergeUpdate_ok (ops : Torch T) {acc : Dict String T × List ℚ × List ℕ} {u : Update T} (hu : Mergeable s u)
    (hn : ∀ n ∈ s.parameterNames, n ∈ s.model.keys) (hacc : ∀ n, n ∈ acc.1.keys ↔ n ∈ s.model.keys) :
    ∃ acc', mergeUpdate ops s acc u = .ok acc' ∧ ∀ n, n ∈ acc'.1.keys ↔ n ∈ s.model.keys := by
  obtain ⟨size, hsize⟩ := item_of_mem hu.known u.clientId
  have hweight : weight s.partitionSizes u.clientId = .ok (size / totalSize s.partitionSizes) := by
    rw [weight, hsize]
    rfl
  have hnames : ∀ n ∈ s.parameterNames, n ∈ acc.1.keys ∧ n ∈ u.base.keys ∧ n ∈ u.trained.keys := fun n h ↦
    ⟨(hacc n).mpr (hn n h), hu.base n (hn n h), hu.trained n (hn n h)⟩
  obtain ⟨state, hstate, hkeys⟩ := applyDeltas_ok ops (s.config.alpha * (size / totalSize s.partitionSizes) *
    ops.power (1 + ((s.version - u.assignment.modelVersion : ℕ) : ℚ)) (-s.config.stalenessExponent)) hnames
  rw [mergeUpdate, require_of hu.version, ok_bind, hweight, ok_bind]
  dsimp only
  rw [hstate, ok_bind]
  exact ⟨_, rfl, fun n ↦ (hkeys n).trans (hacc n)⟩

theorem mergeUpdates_ok (ops : Torch T) (acc : Dict String T × List ℚ × List ℕ) (hu : ∀ u ∈ updates, Mergeable s u)
    (hn : ∀ n ∈ s.parameterNames, n ∈ s.model.keys) (hacc : ∀ n, n ∈ acc.1.keys ↔ n ∈ s.model.keys) :
    ∃ acc', updates.foldlM (mergeUpdate ops s) acc = .ok acc' ∧ ∀ n, n ∈ acc'.1.keys ↔ n ∈ s.model.keys := by
  induction updates generalizing acc with
  | nil => exact ⟨acc, rfl, hacc⟩
  | cons u updates ih =>
    obtain ⟨acc', h', hk'⟩ := mergeUpdate_ok ops (hu u List.mem_cons_self) hn hacc
    obtain ⟨acc'', h'', hk''⟩ := ih acc' (fun v hv ↦ hu v (List.mem_cons_of_mem u hv)) hk'
    rw [List.foldlM_cons, h', ok_bind]
    exact ⟨acc'', h'', hk''⟩

theorem averageBuffer_ok (ops : Torch T) {name : String} (hname : name ∈ s.model.keys) (hu : ∀ u ∈ updates, Mergeable s u) :
    ∃ p, averageBuffer ops s updates name = .ok p ∧ p.1 = name := by
  have hvalues : ∃ values, (updates.mapM fun u ↦ do
      let value ← item u.trained name name
      let size ← item s.partitionSizes u.clientId u.clientId
      return (value, size) : Except PyError (List (T × ℕ))) = .ok values := by
    rw [exists_mapM_ok_iff]
    intro u h
    obtain ⟨value, hvalue⟩ := item_of_mem ((hu u h).trained name hname) name
    obtain ⟨size, hsize⟩ := item_of_mem (hu u h).known u.clientId
    rw [hvalue, ok_bind, hsize, ok_bind]
    exact ⟨_, rfl⟩
  obtain ⟨values, hvalues⟩ := hvalues
  rw [averageBuffer, hvalues, ok_bind]
  exact ⟨_, rfl, rfl⟩

/-- Nothing but the check of the merged state stands between the updates and a commit. -/
theorem checkError_of_merge (hn : ∀ n ∈ s.parameterNames, n ∈ s.model.keys) (hu : ∀ u ∈ updates, Mergeable s u)
    (h : merge ops s updates = .error e) : CheckError e := by
  have hmodel : ∀ name ∈ s.model.keys.filter (· ∉ s.parameterNames), name ∈ s.model.keys :=
    fun name hname ↦ (List.mem_filter.mp hname).1
  obtain ⟨averaged, haveraged⟩ := exists_mapM_ok_iff.mpr fun name hname ↦
    (averageBuffer_ok ops (hmodel name hname) hu).imp fun p ↦ And.left
  have hkeys : ∀ p ∈ averaged, p.1 ∈ s.model.keys := by
    intro p hp
    obtain ⟨name, hname, heq⟩ := forall₂_exists_of_mem_right (mapM_eq_ok_iff.mp haveraged) hp
    obtain ⟨q, hq, hqn⟩ := averageBuffer_ok ops (hmodel name hname) hu
    rw [heq] at hq
    cases hq
    exact hqn ▸ hmodel name hname
  obtain ⟨acc, hacc, hk⟩ := mergeUpdates_ok ops (s.model, [], []) hu hn fun n ↦ Iff.rfl
  rw [merge, haveraged, ok_bind, hacc, ok_bind] at h
  dsimp only at h
  cases hc : checkState ops s.model (averaged.foldl (fun d p ↦ d.insert p.1 p.2) acc.1) with
  | ok u =>
    rw [hc] at h
    cases h
  | error e' =>
    rw [hc] at h
    cases h
    refine checkError_of_checkState (fun n ↦ ?_) hc
    rw [Dict.keys_foldl_insert (fun p hp ↦ (hk p.1).mpr (hkeys p hp)), hk]

theorem keys_of_merge {m : Dict String T × List ℚ × List ℕ} (h : merge ops s updates = .ok m) :
    ∀ n, n ∈ m.1.keys ↔ n ∈ s.model.keys := by
  obtain ⟨averaged, -, h⟩ := bind_eq_ok h
  obtain ⟨acc, -, h⟩ := bind_eq_ok h
  obtain ⟨_, hc, h⟩ := bind_eq_ok h
  cases h
  exact keys_of_checkState hc

end Merge

section Aggregate

variable {s : FedCompass T} {updates : List (Update T)} {now : ℚ} {gid : Option ℕ} {reason : String}

/-- Updates were discarded because the budget was over. -/
def Aborted (s : FedCompass T) : Prop := ∃ serials, .discarded serials ∈ s.log

theorem committedAt_run (now : ℚ) : ∃ elapsed t, (committedAt now).run s = .ok elapsed t ∧ (t = s ∨ t = s.tick) := by
  cases ht : s.timing with
  | events =>
    refine ⟨now, s, ?_, .inl rfl⟩
    rw [committedAt, Method.get_bind_run, ht]
    rfl
  | clock read =>
    refine ⟨read s.ticks, s.tick, ?_, .inr rfl⟩
    rw [committedAt, Method.get_bind_run, ht]
    rfl
  | budget read deadline =>
    refine ⟨read s.ticks, s.tick, ?_, .inr rfl⟩
    rw [committedAt, Method.get_bind_run, ht]
    rfl

theorem aggregate_of_error {e : PyError} (h : merge ops s updates = .error e) :
    (aggregate ops updates now gid reason).run s = .error e s := by
  rw [aggregate, Method.get_bind_run, h]
  rfl

/-- The merged state is committed, or the budget is over and the updates are discarded. -/
theorem aggregate_of_ok (now : ℚ) (gid : Option ℕ) (reason : String) {m : Dict String T × List ℚ × List ℕ}
    (h : merge ops s updates = .ok m) :
    ∃ elapsed t, (t = s ∨ t = s.tick) ∧
      ((aggregate ops updates now gid reason).run s = .ok false (t.discard updates) ∨
        (aggregate ops updates now gid reason).run s =
          .ok true (t.commit updates m.1 m.2.1 m.2.2 elapsed gid reason)) := by
  obtain ⟨elapsed, t, hc, ht⟩ := @committedAt_run T s now
  refine ⟨elapsed, t, ht, ?_⟩
  rw [aggregate, Method.get_bind_run, h, Method.ok_bind_run]
  dsimp only
  rw [Method.run_bind_of_ok hc, Method.get_bind_run]
  split_ifs
  · exact .inl rfl
  · exact .inr rfl

end Aggregate

/-! ### One assignment -/

section Assign

variable {s t : FedCompass T} {loose : List String} {now v : ℚ} {c : String} {gid : ℕ} {steps : ℤ}

theorem mem_candidates {speed : ℚ} {p : ℤ × ℕ} (h : p ∈ candidates s speed now) :
    ∃ g, s.groups.get? p.2 = some g ∧ g.closed = false ∧ s.config.minLocalSteps ≤ p.1 ∧ p.1 ≤ s.config.maxLocalSteps := by
  obtain ⟨q, hq, h⟩ := List.mem_filterMap.mp h
  split_ifs at h with hc hs
  cases h
  exact ⟨q.2, (Dict.get?_eq_some_iff _).mpr hq, by simpa using hc, hs⟩

theorem mem_of_firstMin {α : Type} {lt : α → α → Bool} {l : List α} {a : α} (h : firstMin lt l = some a) : a ∈ l := by
  cases l with
  | nil => cases h
  | cons b l =>
    cases h
    have hfold : ∀ (l : List α) (b : α), l.foldl (fun best x ↦ if lt x best then x else best) b ∈ b :: l := by
      intro l
      induction l with
      | nil => exact fun b ↦ List.mem_cons_self
      | cons x l ih =>
        intro b
        rw [List.foldl_cons]
        split_ifs
        · exact List.mem_cons_of_mem b (ih x)
        · obtain he | hm := List.mem_cons.mp (ih b)
          · rw [he]
            exact List.mem_cons_self
          · exact List.mem_cons_of_mem b (List.mem_cons_of_mem x hm)
    exact hfold l b

/-- The members of an open group have speeds. -/
theorem Placed.speed_of_member (h : Placed loose now s) (gid : ℕ) (hm : c ∈ (s.groupAt gid).members) :
    ∃ w, speedOf s c = .ok w := by
  have hw : ∃ w, s.speeds.get? c = some w := by
    obtain hp | ha := List.mem_append.mp hm
    · obtain ⟨job, hj, hg⟩ := (h.pending gid c).mp hp
      exact (h.job c job hj).speed gid hg
    · obtain ⟨u, hu, rfl⟩ := List.mem_map.mp ha
      exact h.arrived_speed gid u hu
  obtain ⟨w, hw⟩ := hw
  exact ⟨w, by rw [speedOf, item, hw]⟩

theorem alignedSteps_ok (h : Placed loose now s) (hal : Alive now s) (ho : (s.groupAt gid).closed = false)
    (hd : now < (s.groupAt gid).deadline) (speed : ℚ) : ∃ n, alignedSteps s speed now (s.groupAt gid) = .ok n := by
  obtain ⟨speeds, hspeeds⟩ := exists_mapM_ok_iff.mpr fun d hd ↦ h.speed_of_member gid hd
  rw [alignedSteps, hspeeds, ok_bind]
  cases speeds with
  | nil =>
    -- A group without members is past its deadline.
    have hm : (s.groupAt gid).members = [] := List.forall₂_nil_right_iff.mp (mapM_eq_ok_iff.mp hspeeds)
    exact absurd (hal gid ho hm) (not_lt.mpr hd.le)
  | cons w speeds => exact ⟨_, rfl⟩

theorem options_ok (h : Placed loose now s) (hal : Alive now s) (speed : ℚ) :
    ∃ l, options s speed now = .ok l ∧ ∀ n ∈ l, n ≤ s.config.maxLocalSteps := by
  have hall : ∀ g ∈ s.groups.values.filter (fun g ↦ !g.closed ∧ now < g.deadline),
      ∃ n, alignedSteps s speed now g = .ok n := by
    intro g hg
    obtain ⟨hg, hopen⟩ := List.mem_filter.mp hg
    simp only [Bool.decide_and, Bool.and_eq_true, decide_eq_true_eq, Bool.not_eq_true'] at hopen
    obtain ⟨gid, hgid⟩ := (s.groups.mem_values_iff).mp hg
    have hgat := groupAt_of_some hgid
    subst hgat
    exact alignedSteps_ok h hal hopen.1 hopen.2 speed
  obtain ⟨l, hl⟩ := exists_mapM_ok_iff.mpr hall
  rw [options, hl, ok_bind]
  exact ⟨_, rfl, fun n hn ↦ of_decide_eq_true (List.mem_filter.mp hn).2⟩

theorem fallbackSteps_bounds (config : FedCompassConfig) {l : List ℤ} (h : ∀ n ∈ l, n ≤ config.maxLocalSteps) :
    config.minLocalSteps ≤ fallbackSteps config l ∧ fallbackSteps config l ≤ config.maxLocalSteps := by
  cases l with
  | nil => exact ⟨config.steps_valid.2, le_rfl⟩
  | cons a l =>
    rw [List.forall_mem_cons] at h
    have hfold : ∀ (l : List ℤ) (a : ℤ), a ≤ config.maxLocalSteps → (∀ n ∈ l, n ≤ config.maxLocalSteps) →
        l.foldl max a ≤ config.maxLocalSteps := by
      intro l
      induction l with
      | nil => exact fun a ha _ ↦ ha
      | cons b l ih =>
        intro a ha hl
        rw [List.forall_mem_cons] at hl
        exact ih (max a b) (max_le ha hl.1) hl.2
    exact ⟨le_max_left _ _, max_le config.steps_valid.2 (hfold l a h.1 h.2)⟩

/-- The choice of steps and group never fails. -/
theorem choose_ok (h : Placed loose now s) (hal : Alive now s) (hv : s.speeds.get? c = some v) :
    ∃ steps gid, choose s c now = .ok (v, steps, gid) ∧ s.config.minLocalSteps ≤ steps ∧
      steps ≤ s.config.maxLocalSteps ∧ ∀ k, gid = some k → (s.groupAt k).closed = false := by
  have hspeed : speedOf s c = .ok v := by rw [speedOf, item, hv]
  rw [choose, hspeed, ok_bind]
  cases hm : firstMin (fun a b : ℤ × ℕ ↦ decide (b.1 < a.1)) (candidates s v now) with
  | some p =>
    obtain ⟨g, hg, hc, hlow, hhigh⟩ := mem_candidates (mem_of_firstMin hm)
    refine ⟨p.1, some p.2, rfl, hlow, hhigh, fun k hk ↦ ?_⟩
    cases hk
    rw [groupAt_of_some hg]
    exact hc
  | none =>
    obtain ⟨l, hl, hle⟩ := options_ok h hal v
    obtain ⟨hlow, hhigh⟩ := fallbackSteps_bounds s.config hle
    rw [hl]
    exact ⟨_, none, rfl, hlow, hhigh, fun k hk ↦ by cases hk⟩

/-- A call that gives out one assignment. -/
inductive Assigned (c : String) (now : ℚ) (s : FedCompass T) : FedCompass T → Prop
  | joined (gid : ℕ) (steps : ℤ) (hopen : (s.groupAt gid).closed = false) (hlow : s.config.minLocalSteps ≤ steps)
      (hhigh : steps ≤ s.config.maxLocalSteps) :
      Assigned c now s ((s.join gid c).activate (s.newJob c steps (some gid) now))
  | opened (steps : ℤ) (duration : ℚ) (hlow : s.config.minLocalSteps ≤ steps)
      (hhigh : steps ≤ s.config.maxLocalSteps) :
      Assigned c now s ((s.openGroup c now duration).activate (s.newJob c steps (some s.groupCounter) now))

theorem assign_run (h : Placed loose now s) (hal : Alive now s) (hv : s.speeds.get? c = some v) :
    ∃ job t, (assign c now).run s = .ok job t ∧ Assigned c now s t := by
  obtain ⟨steps, gid, hchoose, hlow, hhigh, hopen⟩ := choose_ok h hal hv
  rw [assign, Method.get_bind_run, hchoose, Method.ok_bind_run]
  cases gid with
  | some k => exact ⟨_, _, rfl, .joined k steps (hopen k rfl) hlow hhigh⟩
  | none => exact ⟨_, _, rfl, .opened steps (steps * v) hlow hhigh⟩

theorem join_of_open {gid : ℕ} (ho : (s.groupAt gid).closed = false) (c : String) : s.join gid c =
    { s with
      groups := s.groups.insert gid { s.groupAt gid with pending := (s.groupAt gid).pending.insert c } } := by
  rw [FedCompass.join, exists_group_of_open ho]

theorem job_newJob (h : Placed (c :: loose) now s) (hv : s.speeds.get? c = some v)
    (hlow : s.config.minLocalSteps ≤ steps) (hhigh : steps ≤ s.config.maxLocalSteps) (gid : Option ℕ) :
    Job s now c (s.newJob c steps gid now) where
  client := rfl
  known := h.loose_known c List.mem_cons_self
  low := hlow
  high := hhigh
  started := le_rfl
  version := le_rfl
  speed _ _ := ⟨v, hv⟩

theorem members_insert_ne_nil (g : ArrivalGroup T) (l : List String) (c : String) :
    ArrivalGroup.members { g with pending := l.insert c } ≠ [] := by
  have hc : c ∈ ArrivalGroup.members { g with pending := l.insert c } := List.mem_append_left _ List.mem_insert_self
  intro hm
  rw [hm] at hc
  cases hc

theorem Placed.assigned (h : Placed (c :: loose) now s) (hv : s.speeds.get? c = some v) (hver : s.version ≠ 0)
    (ha : Assigned c now s t) : Placed loose now t := by
  cases ha with
  | joined gid steps ho hlow hhigh =>
    rw [join_of_open ho]
    have hg := exists_group_of_open ho
    exact h.place (g := { s.groupAt gid with pending := (s.groupAt gid).pending.insert c })
      (job_newJob h hv hlow hhigh (some gid)) rfl rfl rfl ho le_rfl (h.fresh gid _ hg) hver
  | opened steps duration hlow hhigh =>
    have hnone : s.groups.get? s.groupCounter = none := by
      cases hg : s.groups.get? s.groupCounter with
      | none => rfl
      | some g => exact absurd (h.fresh _ g hg) (lt_irrefl _)
    refine h.place (job_newJob h hv hlow hhigh _) rfl ?_ ?_ rfl (Nat.le_succ _) (Nat.lt_succ_self _) hver
    · rw [groupAt_of_none hnone]
      rfl
    · rw [groupAt_of_none hnone]
      rfl

theorem Alive.assigned (h : Alive now s) (ha : Assigned c now s t) : Alive now t := by
  cases ha with
  | joined gid steps ho _ _ =>
    rw [join_of_open ho]
    exact h.insert rfl fun _ hm ↦ absurd hm (members_insert_ne_nil _ _ c)
  | opened steps duration _ _ =>
    refine h.insert rfl fun _ hm ↦ ?_
    rw [ArrivalGroup.members, newGroup] at hm
    cases hm

end Assign

end SplitFleet.Compass
