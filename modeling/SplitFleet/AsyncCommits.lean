import SplitFleet.AsyncFL
import SplitFleet.Lib.Runs

set_option autoImplicit false

namespace SplitFleet.Async

open Lib
open Compass (Assignment Update Timing)

variable {ι T : Type} {ops : AsyncTorch T}

/-! ### What a commit does -/

section Commit

variable {s t : AsyncFL ι T} {updates : List (ι × Update T)} {now : ℚ}

/-- Nothing but readings of the clock. -/
def Quiet (s t : AsyncFL ι T) : Prop :=
  ∃ ticks crossed, t = { s with ticks := ticks, crossed := crossed } ∧ (s.crossed = true → crossed = true)

theorem Quiet.refl (s : AsyncFL ι T) : Quiet s s := ⟨s.ticks, s.crossed, rfl, id⟩

theorem quiet_tick (s : AsyncFL ι T) : Quiet s s.tick :=
  ⟨s.ticks + 1, s.crossed || s.late, rfl, fun h ↦ by rw [h, Bool.true_or]⟩

theorem Quiet.trans {r : AsyncFL ι T} (h : Quiet s t) (h' : Quiet t r) : Quiet s r := by
  obtain ⟨ticks, crossed, rfl, hc⟩ := h
  obtain ⟨ticks', crossed', rfl, hc'⟩ := h'
  exact ⟨ticks', crossed', rfl, fun hs ↦ hc' (hc hs)⟩

theorem Quiet.load (h : Quiet s t) (model : Dict String T) : Quiet (s.load model) (t.load model) := by
  obtain ⟨ticks, crossed, rfl, hc⟩ := h
  exact ⟨ticks, crossed, rfl, hc⟩

theorem Quiet.crossed (h : Quiet s t) (hc : s.crossed = true) : t.crossed = true := by
  obtain ⟨ticks, crossed, rfl, hcrossed⟩ := h
  exact hcrossed hc

theorem overDeadline_run (s : AsyncFL ι T) :
    ∃ late t, overDeadline.run s = .ok late t ∧ Quiet s t ∧ (late = true → t.crossed = true) := by
  rw [overDeadline, Method.get_bind_run]
  cases ht : s.timing with
  | events => exact ⟨false, s, rfl, .refl s, fun h ↦ absurd h Bool.false_ne_true⟩
  | clock read => exact ⟨false, s, rfl, .refl s, fun h ↦ absurd h Bool.false_ne_true⟩
  | budget read deadline =>
    refine ⟨s.late, s.tick, rfl, quiet_tick s, fun h ↦ ?_⟩
    change (s.crossed || s.late) = true
    rw [h, Bool.or_true]

theorem committed_run (s : AsyncFL ι T) (now : ℚ) :
    ∃ elapsed late t, (committed now).run s = .ok (elapsed, late) t ∧ Quiet s t ∧ (late = true → t.crossed = true) := by
  rw [committed, Method.get_bind_run]
  cases ht : s.timing with
  | events => exact ⟨now, false, s, rfl, .refl s, fun h ↦ absurd h Bool.false_ne_true⟩
  | clock read => exact ⟨read s.ticks, false, s.tick, rfl, quiet_tick s, fun h ↦ absurd h Bool.false_ne_true⟩
  | budget read deadline =>
    refine ⟨read s.ticks, s.late, s.tick, rfl, quiet_tick s, fun h ↦ ?_⟩
    change (s.crossed || s.late) = true
    rw [h, Bool.or_true]

theorem delays_of_candidate {us : List (Update T)} {state : Dict String T} {delays : List ℤ} {weights : List ℚ}
    (h : candidate ops s us = .ok (state, delays, weights)) : ∀ delay ∈ delays, 0 ≤ delay := by
  obtain ⟨_, hdelays, h⟩ := bind_eq_ok h
  obtain ⟨_, -, h⟩ := bind_eq_ok h
  obtain ⟨_, -, h⟩ := bind_eq_ok h
  obtain ⟨_, -, h⟩ := bind_eq_ok h
  cases h
  exact of_require hdelays

variable [DecidableEq ι]

/-- The ways in which a commit can end. -/
inductive Ends (s : AsyncFL ι T) (updates : List (ι × Update T)) : EStateM.Result PyError (AsyncFL ι T) Bool → Prop
  | raised (e : PyError) : Ends s updates (.error e s)
  | late (t : AsyncFL ι T) (hq : Quiet s t) (hc : t.crossed = true) : Ends s updates (.ok false t)
  | done (t : AsyncFL ι T) (state : Dict String T) (delays : List ℤ) (weights : List ℚ) (elapsed : ℚ)
      (hq : Quiet (s.load state) t) (hd : ∀ delay ∈ delays, 0 ≤ delay) :
      Ends s updates (.ok true (t.record updates delays weights elapsed))

/-- A commit raises before it changes anything, is undone, or is recorded. -/
theorem commit_ends (ops : AsyncTorch T) (s : AsyncFL ι T) (updates : List (ι × Update T)) (now : ℚ) :
    Ends s updates ((commit ops updates now).run s) := by
  rw [commit, Method.get_bind_run]
  dsimp only
  cases hc : candidate ops s (updates.map Prod.snd) with
  | error e => exact .raised e
  | ok c =>
    obtain ⟨state, delays, weights⟩ := c
    rw [Method.ok_bind_run]
    dsimp only
    obtain ⟨late, t, ht, hq, hlate⟩ := overDeadline_run s
    rw [Method.run_bind_of_ok ht]
    cases late with
    | true => exact .late t hq (hlate rfl)
    | false =>
      rw [if_neg Bool.false_ne_true, Method.modify_bind_run]
      obtain ⟨elapsed, late, u, hu, hq', hlate'⟩ := committed_run (t.load state) now
      rw [Method.run_bind_of_ok hu]
      dsimp only
      have hquiet : Quiet (s.load state) u := (hq.load state).trans hq'
      cases late with
      | true => exact .late (u.load s.model) (hquiet.load s.model) (hlate' rfl)
      | false => exact .done u state delays weights elapsed hquiet (delays_of_candidate hc)

end Commit

/-! ### What a call does -/

section Calls

variable [DecidableEq ι] {s t : AsyncFL ι T} {id : ι} {u : Update T} {now : ℚ}

/-- The ways in which an update can be taken in. -/
inductive Integrates (s : AsyncFL ι T) (id : ι) (u : Update T) : EStateM.Result PyError (AsyncFL ι T) Bool → Prop
  | raised (e : PyError) : Integrates s id u (.error e s)
  | late (t : AsyncFL ι T) (hq : Quiet s t) (hc : t.crossed = true) :
      Integrates s id u (.ok false (t.setStatus id .discardedAtStop))
  | done (t : AsyncFL ι T) (state : Dict String T) (delays : List ℤ) (weights : List ℚ) (elapsed : ℚ)
      (hq : Quiet (s.load state) t) (hd : ∀ delay ∈ delays, 0 ≤ delay) :
      Integrates s id u (.ok true (t.record [(id, u)] delays weights elapsed))
  | buffered (hlen : s.buffer.length + 1 ≠ s.config.bufferSize) : Integrates s id u (.ok true (s.push id u))
  | bufferRaised (e : PyError) : Integrates s id u (.error e (s.push id u))
  | bufferLate (t : AsyncFL ι T) (hq : Quiet (s.push id u) t) (hc : t.crossed = true) :
      Integrates s id u (.ok false t)
  | flushed (t : AsyncFL ι T) (state : Dict String T) (delays : List ℤ) (weights : List ℚ) (elapsed : ℚ)
      (hq : Quiet ((s.push id u).load state) t) (hd : ∀ delay ∈ delays, 0 ≤ delay) :
      Integrates s id u (.ok true (t.record (s.buffer ++ [(id, u)]) delays weights elapsed).clear)

theorem integrates (ops : AsyncTorch T) (s : AsyncFL ι T) (id : ι) (u : Update T) (now : ℚ) :
    Integrates s id u ((integrate ops id u now).run s) := by
  rw [integrate, Method.get_bind_run]
  cases s.config.algorithm with
  | fedasync =>
    dsimp only
    have hends := commit_ends ops s [(id, u)] now
    rw [EStateM.run_bind]
    generalize (commit ops [(id, u)] now).run s = r at hends
    cases hends with
    | raised e => exact .raised e
    | late t hq hc => exact .late t hq hc
    | done t state delays weights elapsed hq hd => exact .done t state delays weights elapsed hq hd
  | fedbuff =>
    dsimp only
    rw [Method.modify_bind_run, Method.get_bind_run]
    have hlen : (s.push id u).buffer.length = s.buffer.length + 1 := List.length_append
    by_cases hfull : (s.push id u).buffer.length = (s.push id u).config.bufferSize
    · rw [if_pos hfull, EStateM.run_bind]
      have hends := commit_ends ops (s.push id u) (s.push id u).buffer now
      generalize (commit ops (s.push id u).buffer now).run (s.push id u) = r at hends
      cases hends with
      | raised e => exact .bufferRaised e
      | late t hq hc => exact .bufferLate t hq hc
      | done t state delays weights elapsed hq hd => exact .flushed t state delays weights elapsed hq hd
    · rw [if_neg hfull]
      rw [hlen] at hfull
      exact .buffered hfull

/-- The state in which an update is taken in. -/
def entered (s : AsyncFL ι T) (id : ι) (u : Update T) : AsyncFL ι T :=
  (s.enter id u).setStatus id .unaggregatedAtStop

/-- The ways in which a checked update can end. -/
inductive Accepts (ops : AsyncTorch T) (s : AsyncFL ι T) (id : ι) (u : Update T) (now : ℚ) :
    EStateM.Result PyError (AsyncFL ι T) (List Assignment) → Prop
  | late (t : AsyncFL ι T) (hq : Quiet (s.enter id u) t) (hc : t.crossed = true) : Accepts ops s id u now (.ok [] t)
  | raised (e : PyError) (t r : AsyncFL ι T) (hq : Quiet (entered s id u) t) (h : Integrates t id u (.error e r)) :
      Accepts ops s id u now (.error e r)
  | refused (t r : AsyncFL ι T) (hq : Quiet (entered s id u) t) (h : Integrates t id u (.ok false r)) :
      Accepts ops s id u now (.ok [] r)
  | assigned (t r : AsyncFL ι T) (hq : Quiet (entered s id u) t) (h : Integrates t id u (.ok true r)) :
      Accepts ops s id u now (.ok [newJob r u.clientId now 0] (r.assign (newJob r u.clientId now 0)))

theorem Quiet.setStatus {status : Status} (h : Quiet s t) : Quiet (s.setStatus id status) (t.setStatus id status) := by
  obtain ⟨ticks, crossed, rfl, hc⟩ := h
  exact ⟨ticks, crossed, rfl, hc⟩

theorem accepts (ops : AsyncTorch T) (s : AsyncFL ι T) (id : ι) (u : Update T) (now : ℚ) :
    Accepts ops s id u now ((accept ops id u now).run s) := by
  rw [accept, Method.modify_bind_run]
  obtain ⟨late, t, ht, hq, hlate⟩ := overDeadline_run (s.enter id u)
  rw [Method.run_bind_of_ok ht]
  cases late with
  | true => exact .late t hq (hlate rfl)
  | false =>
    rw [if_neg Bool.false_ne_true, Method.modify_bind_run, EStateM.run_bind]
    have hquiet : Quiet (entered s id u) (t.setStatus id .unaggregatedAtStop) := hq.setStatus
    have hint := integrates ops (t.setStatus id .unaggregatedAtStop) id u now
    cases hr : (integrate ops id u now).run (t.setStatus id .unaggregatedAtStop) with
    | error e r =>
      rw [hr] at hint
      exact .raised e _ r hquiet hint
    | ok b r =>
      rw [hr] at hint
      cases b with
      | true => exact .assigned _ r hquiet hint
      | false => exact .refused _ r hquiet hint

end Calls

/-! ### Assignments -/

section Jobs

variable {s t : AsyncFL ι T}

/-- Every client has at most one assignment that was handed out and did not come back. -/
structure Jobs (s : AsyncFL ι T) : Prop where
  active : ∀ cid job, s.active.get? cid = some job →
    job.clientId = cid ∧ (job.serial, cid) ∈ s.issued ∧ job.serial ∉ s.taken
  unique : (s.issued.map Prod.fst).Nodup
  serials : ∀ p ∈ s.issued, p.1 < s.serials
  taken : ∀ n ∈ s.taken, n < s.serials
  once : ∀ p ∈ s.issued, ∀ q ∈ s.issued, p.2 = q.2 → p.1 ∉ s.taken → q.1 ∉ s.taken → p.1 = q.1
  fresh : s.initialized = false → s.issued = []

/-- A step that touches no assignment. -/
structure SameJobs (s t : AsyncFL ι T) : Prop where
  active : t.active = s.active
  serials : t.serials = s.serials
  issued : t.issued = s.issued
  taken : t.taken = s.taken
  initialized : t.initialized = s.initialized

theorem SameJobs.trans {r : AsyncFL ι T} (h : SameJobs s t) (h' : SameJobs t r) : SameJobs s r where
  active := h'.active.trans h.active
  serials := h'.serials.trans h.serials
  issued := h'.issued.trans h.issued
  taken := h'.taken.trans h.taken
  initialized := h'.initialized.trans h.initialized

theorem Quiet.sameJobs (h : Quiet s t) : SameJobs s t := by
  obtain ⟨ticks, crossed, rfl, -⟩ := h
  exact ⟨rfl, rfl, rfl, rfl, rfl⟩

theorem Jobs.of_same (h : Jobs s) (hs : SameJobs s t) : Jobs t where
  active := by
    rw [hs.active, hs.issued, hs.taken]
    exact h.active
  unique := by
    rw [hs.issued]
    exact h.unique
  serials := by
    rw [hs.issued, hs.serials]
    exact h.serials
  taken := by
    rw [hs.taken, hs.serials]
    exact h.taken
  once := by
    rw [hs.issued, hs.taken]
    exact h.once
  fresh hi := hs.issued.trans (h.fresh (hs.initialized.symm.trans hi))

/-- The client has no assignment at all. -/
def Free (s : AsyncFL ι T) (cid : String) : Prop := ∀ p ∈ s.issued, p.2 = cid → p.1 ∈ s.taken

theorem Free.of_same {cid : String} (h : Free s cid) (hs : SameJobs s t) : Free t cid := by
  rw [Free, hs.issued, hs.taken]
  exact h

/-- The state that a call leaves. -/
def stateOf {α : Type} : EStateM.Result PyError (AsyncFL ι T) α → AsyncFL ι T
  | .ok _ t => t
  | .error _ t => t

variable {id : ι} {u : Update T} {now : ℚ}

/-- The client of a received update has no other assignment. -/
theorem Jobs.enter (id : ι) (h : Jobs s) (hu : s.active.get? u.clientId = some u.assignment) :
    Jobs (s.enter id u) ∧ Free (s.enter id u) u.clientId := by
  obtain ⟨-, hissued, htaken⟩ := h.active _ _ hu
  have hother : ∀ cid job, (s.active.erase u.clientId).get? cid = some job →
      cid ≠ u.clientId ∧ s.active.get? cid = some job := by
    intro cid job hjob
    rw [Dict.get?_erase] at hjob
    split_ifs at hjob with he
    exact ⟨Ne.symm he, hjob⟩
  refine ⟨⟨fun cid job hjob ↦ ?_, h.unique, h.serials, ?_, fun p hp q hq he hpt hqt ↦ ?_, h.fresh⟩, fun p hp he ↦ ?_⟩
  · obtain ⟨hne, hjob⟩ := hother cid job hjob
    obtain ⟨hcid, hin, hnot⟩ := h.active cid job hjob
    refine ⟨hcid, hin, fun hmem ↦ ?_⟩
    obtain hserial | hmem := List.mem_cons.mp hmem
    · have hpair := List.inj_on_of_nodup_map h.unique hin hissued hserial
      exact hne (congrArg Prod.snd hpair)
    · exact hnot hmem
  · intro n hn
    obtain rfl | hn := List.mem_cons.mp hn
    · exact h.serials _ hissued
    · exact h.taken n hn
  · exact h.once p hp q hq he (fun hm ↦ hpt (List.mem_cons_of_mem _ hm)) fun hm ↦ hqt (List.mem_cons_of_mem _ hm)
  · by_cases hm : p.1 ∈ s.taken
    · exact List.mem_cons_of_mem _ hm
    · have hsame := h.once p hp _ hissued he hm htaken
      rw [hsame]
      exact List.mem_cons_self

theorem Jobs.assign (h : Jobs s) {cid : String} (hf : Free s cid) (hi : s.initialized = true) (now : ℚ) :
    Jobs (s.assign (newJob s cid now 0)) := by
  have hnew : ∀ p ∈ s.issued ++ [(s.serials, cid)], p ∈ s.issued ∨ p = (s.serials, cid) := fun p hp ↦ by
    simpa using hp
  have hfresh : s.serials ∉ s.taken := fun hm ↦ lt_irrefl _ (h.taken _ hm)
  refine ⟨fun c job hjob ↦ ?_, ?_, fun p hp ↦ ?_, fun n hn ↦ Nat.lt_succ_of_lt (h.taken n hn),
    fun p hp q hq he hpt hqt ↦ ?_, fun hn ↦ absurd (hi.symm.trans hn) Bool.true_eq_false.mp⟩
  · change (s.active.insert cid (newJob s cid now 0)).get? c = some job at hjob
    rw [Dict.get?_insert] at hjob
    split_ifs at hjob with hc
    · cases hjob
      subst hc
      exact ⟨rfl, List.mem_append_right _ List.mem_cons_self, hfresh⟩
    · obtain ⟨hcid, hin, hnot⟩ := h.active c job hjob
      exact ⟨hcid, List.mem_append_left _ hin, hnot⟩
  · change ((s.issued ++ [(s.serials, cid)]).map Prod.fst).Nodup
    rw [List.map_append, List.nodup_append]
    refine ⟨h.unique, List.nodup_singleton _, fun n hn m hm ↦ ?_⟩
    obtain ⟨p, hp, rfl⟩ := List.mem_map.mp hn
    rw [List.mem_singleton.mp hm]
    exact (h.serials p hp).ne
  · obtain hp | rfl := hnew p hp
    · exact Nat.lt_succ_of_lt (h.serials p hp)
    · exact Nat.lt_succ_self _
  · obtain hp | rfl := hnew p hp
    · obtain hq | rfl := hnew q hq
      · exact h.once p hp q hq he hpt hqt
      · exact absurd (hf p hp he) hpt
    · obtain hq | rfl := hnew q hq
      · exact absurd (hf q hq he.symm) hqt
      · rfl

theorem initialJobs_getElem {job : Assignment} (h : job ∈ initialJobs s now) :
    ∃ i, ∃ hi : i < s.partitionSizes.keys.length, job.serial = s.serials + i ∧
      job.clientId = s.partitionSizes.keys[i] := by
  obtain ⟨i, hi, rfl⟩ := List.mem_mapIdx.mp h
  exact ⟨i, hi, rfl, rfl⟩

theorem initialJobs_length (s : AsyncFL ι T) (now : ℚ) :
    (initialJobs s now).length = s.partitionSizes.keys.length := List.length_mapIdx

theorem map_serial_initialJobs (s : AsyncFL ι T) (now : ℚ) :
    (initialJobs s now).map (·.serial) = (List.range s.partitionSizes.keys.length).map (s.serials + ·) := by
  refine List.ext_getElem (by simp [initialJobs]) fun i hi hi' ↦ ?_
  rw [List.getElem_map, List.getElem_map, List.getElem_range]
  simp only [initialJobs, List.getElem_mapIdx]
  rfl

/-- The first assignments, one for each client. -/
theorem Jobs.begin (h : Jobs s) (hi : s.initialized = false) (now : ℚ) : Jobs (s.begin (initialJobs s now)) := by
  have hissued : (s.begin (initialJobs s now)).issued =
      (initialJobs s now).map fun job : Assignment ↦ (job.serial, job.clientId) := by
    change s.issued ++ _ = _
    rw [h.fresh hi, List.nil_append]
  have hjob : ∀ p ∈ (s.begin (initialJobs s now)).issued, ∃ i, ∃ hi : i < s.partitionSizes.keys.length,
      p.1 = s.serials + i ∧ p.2 = s.partitionSizes.keys[i] := by
    rw [hissued]
    intro p hp
    obtain ⟨job, hjob, rfl⟩ := List.mem_map.mp hp
    exact initialJobs_getElem hjob
  have hserials : (s.begin (initialJobs s now)).serials = s.serials + s.partitionSizes.keys.length :=
    congrArg (s.serials + ·) (initialJobs_length s now)
  have hnot : ∀ i, s.serials + i ∉ s.taken := fun i hm ↦ absurd (h.taken _ hm) (Nat.not_lt.mpr (Nat.le_add_right _ _))
  refine ⟨fun cid job hjob ↦ ?_, ?_, fun p hp ↦ ?_, fun n hn ↦ ?_, fun p hp q hq he _ _ ↦ ?_, fun hn ↦ ?_⟩
  · obtain ⟨job', hin, he⟩ := List.mem_map.mp (Dict.mem_of_get?_ofList hjob)
    cases he
    obtain ⟨i, -, hserial, -⟩ := initialJobs_getElem hin
    refine ⟨rfl, ?_, hserial ▸ hnot i⟩
    rw [hissued]
    exact List.mem_map_of_mem hin
  · have hmap : (s.begin (initialJobs s now)).issued.map Prod.fst = (initialJobs s now).map (·.serial) := by
      rw [hissued, List.map_map]
      rfl
    rw [hmap, map_serial_initialJobs]
    exact List.nodup_range.map (add_right_injective s.serials)
  · obtain ⟨i, hlt, hp, -⟩ := hjob p hp
    rw [hp, hserials]
    exact Nat.add_lt_add_left hlt _
  · rw [hserials]
    exact (h.taken n hn).trans_le (Nat.le_add_right _ _)
  · obtain ⟨i, hi, hp, hpc⟩ := hjob p hp
    obtain ⟨j, hj, hq, hqc⟩ := hjob q hq
    rw [hpc, hqc] at he
    rw [hp, hq, (List.Nodup.getElem_inj_iff s.partitionSizes.nodup).mp he]
  · cases hn

theorem Jobs.dispatch (h : Jobs s) (cid : String) (now : ℚ) : Jobs (dispatch s cid now) := by
  rw [Async.dispatch]
  cases hj : s.active.get? cid with
  | none => exact h
  | some job =>
    refine ⟨fun c job' hjob ↦ ?_, h.unique, h.serials, h.taken, h.once, h.fresh⟩
    change (s.active.insert cid _).get? c = some job' at hjob
    rw [Dict.get?_insert] at hjob
    split_ifs at hjob with hc
    · cases hjob
      subst hc
      exact h.active cid job hj
    · exact h.active c job' hjob

theorem Jobs.stop (h : Jobs s) : Jobs (stop s) where
  active cid job hjob := by cases hjob
  unique := h.unique
  serials := h.serials
  taken := h.taken
  once := h.once
  fresh := h.fresh

variable [DecidableEq ι]

theorem Integrates.sameJobs {r : EStateM.Result PyError (AsyncFL ι T) Bool} (h : Integrates s id u r) :
    SameJobs s (stateOf r) := by
  have hsame : SameJobs s s := ⟨rfl, rfl, rfl, rfl, rfl⟩
  cases h with
  | raised e => exact hsame
  | late t hq _ => exact hq.sameJobs.trans ⟨rfl, rfl, rfl, rfl, rfl⟩
  | done t state delays weights elapsed hq _ =>
    have hload : SameJobs s (s.load state) := ⟨rfl, rfl, rfl, rfl, rfl⟩
    exact (hload.trans hq.sameJobs).trans ⟨rfl, rfl, rfl, rfl, rfl⟩
  | buffered _ => exact ⟨rfl, rfl, rfl, rfl, rfl⟩
  | bufferRaised e => exact ⟨rfl, rfl, rfl, rfl, rfl⟩
  | bufferLate t hq _ =>
    have hpush : SameJobs s (s.push id u) := ⟨rfl, rfl, rfl, rfl, rfl⟩
    exact hpush.trans hq.sameJobs
  | flushed t state delays weights elapsed hq _ =>
    have hload : SameJobs s ((s.push id u).load state) := ⟨rfl, rfl, rfl, rfl, rfl⟩
    exact (hload.trans hq.sameJobs).trans ⟨rfl, rfl, rfl, rfl, rfl⟩

end Jobs

/-! ### Commits -/

section Commits

variable {s t : AsyncFL ι T}

/-- The dispatches that were committed. -/
def committedIds (s : AsyncFL ι T) : List ι := s.aggregations.flatMap (·.dispatchIds)

/-- The dispatches that were committed or wait in the buffer. -/
def settledIds (s : AsyncFL ι T) : List ι := committedIds s ++ s.buffer.map Prod.fst

variable {id : ι} {u : Update T} {now : ℚ}

/-- An update whose dispatch was received but is neither committed nor in the buffer. -/
structure Loose (s : AsyncFL ι T) (id : ι) (u : Update T) : Prop where
  fresh : id ∉ settledIds s
  received : id ∈ s.receivedDispatches
  version : u.assignment.modelVersion ≤ s.version

theorem Loose.quiet (h : Loose s id u) (hq : Quiet s t) : Loose t id u := by
  obtain ⟨ticks, crossed, rfl, -⟩ := hq
  exact ⟨h.fresh, h.received, h.version⟩

variable [DecidableEq ι]

/-- Every commit is a version and takes dispatches of its own. -/
structure Commits (s : AsyncFL ι T) : Prop where
  ids : (settledIds s).Nodup
  received : ∀ id ∈ settledIds s, id ∈ s.receivedDispatches
  version : s.version = s.aggregations.length
  staleness : ∀ id staleness weight elapsed version,
    s.receipts.get? id = some (.aggregated staleness weight elapsed version) → 0 ≤ staleness
  current : ∀ cid job, s.active.get? cid = some job → job.modelVersion ≤ s.version
  buffered : ∀ p ∈ s.buffer, p.2.assignment.modelVersion ≤ s.version

theorem Commits.quiet (h : Commits s) (hq : Quiet s t) : Commits t := by
  obtain ⟨ticks, crossed, rfl, -⟩ := hq
  exact ⟨h.ids, h.received, h.version, h.staleness, h.current, h.buffered⟩

theorem Commits.load (h : Commits s) (model : Dict String T) : Commits (s.load model) :=
  ⟨h.ids, h.received, h.version, h.staleness, h.current, h.buffered⟩

theorem Commits.setStatus (h : Commits s) (id : ι) {status : Status}
    (hs : ∀ staleness weight elapsed version, status = .aggregated staleness weight elapsed version → 0 ≤ staleness) :
    Commits (s.setStatus id status) := by
  refine ⟨h.ids, h.received, h.version, fun i staleness weight elapsed version hget ↦ ?_, h.current, h.buffered⟩
  change (s.receipts.insert id status).get? i = _ at hget
  rw [Dict.get?_insert] at hget
  split_ifs at hget with hi
  · exact hs staleness weight elapsed version (Option.some.inj hget)
  · exact h.staleness i staleness weight elapsed version hget

theorem Commits.clear (h : Commits s) : Commits s.clear := by
  have hsub : (settledIds s.clear).Sublist (settledIds s) :=
    List.Sublist.append (.refl _) (List.nil_sublist _)
  refine ⟨hsub.nodup h.ids, fun id hid ↦ h.received id (hsub.subset hid), h.version, h.staleness, h.current,
    fun p hp ↦ ?_⟩
  cases hp

theorem Commits.push (h : Commits s) (hu : Loose s id u) : Commits (s.push id u) := by
  have hids : settledIds (s.push id u) = settledIds s ++ [id] := by
    rw [settledIds, settledIds, List.append_assoc]
    exact congrArg (committedIds s ++ ·) List.map_append
  refine ⟨?_, fun i hi ↦ ?_, h.version, h.staleness, h.current, fun p hp ↦ ?_⟩
  · rw [hids, List.nodup_append]
    refine ⟨h.ids, List.nodup_singleton id, fun i hi j hj he ↦ ?_⟩
    rw [List.mem_singleton.mp hj] at he
    exact hu.fresh (he ▸ hi)
  · rw [hids] at hi
    obtain hi | hi := List.mem_append.mp hi
    · exact h.received i hi
    · rw [List.mem_singleton.mp hi]
      exact hu.received
  · obtain hp | hp := List.mem_append.mp hp
    · exact h.buffered p hp
    · rw [List.mem_singleton.mp hp]
      exact hu.version

/-- A commit of dispatches that were not committed before and do not wait. -/
theorem Commits.record (h : Commits s) {updates : List (ι × Update T)} {delays : List ℤ} (weights : List ℚ)
    (elapsed : ℚ) (hn : (settledIds s ++ updates.map Prod.fst).Nodup)
    (hr : ∀ id ∈ updates.map Prod.fst, id ∈ s.receivedDispatches) (hd : ∀ delay ∈ delays, 0 ≤ delay) :
    Commits (s.record updates delays weights elapsed) := by
  have hids : committedIds (s.record updates delays weights elapsed) = committedIds s ++ updates.map Prod.fst := by
    change (s.aggregations ++ [_]).flatMap _ = _
    rw [List.flatMap_append, List.flatMap_singleton]
    rfl
  have hperm : (settledIds (s.record updates delays weights elapsed)).Perm
      (settledIds s ++ updates.map Prod.fst) := by
    rw [settledIds, settledIds, hids, List.append_assoc, List.append_assoc]
    exact (List.perm_append_comm).append_left _
  refine ⟨hperm.nodup_iff.mpr hn, fun i hi ↦ ?_, ?_, fun i staleness weight elapsed' version hget ↦ ?_,
    fun cid job hjob ↦ Nat.le_succ_of_le (h.current cid job hjob), fun p hp ↦ Nat.le_succ_of_le (h.buffered p hp)⟩
  · obtain hi | hi := List.mem_append.mp (hperm.mem_iff.mp hi)
    · exact h.received i hi
    · exact hr i hi
  · change s.version + 1 = (s.aggregations ++ [_]).length
    rw [List.length_append, h.version]
    rfl
  · change ((updates.zip (delays.zip weights)).foldl (fun d p ↦
      d.insert p.1.1 (Status.aggregated p.2.1 p.2.2 elapsed (s.version + 1))) s.receipts).get? i = _ at hget
    rw [← List.foldl_map (f := fun p : (ι × Update T) × ℤ × ℚ ↦
      (p.1.1, Status.aggregated p.2.1 p.2.2 elapsed (s.version + 1)))
      (g := fun (d : Dict ι Status) q ↦ d.insert q.1 q.2)] at hget
    obtain hmem | hold := Dict.mem_of_get?_foldl_insert _ _ hget
    · obtain ⟨p, hp, he⟩ := List.mem_map.mp hmem
      cases he
      exact hd _ (List.of_mem_zip (List.of_mem_zip hp).2).1
    · exact h.staleness i staleness weight elapsed' version hold

/-- An update that is taken in is committed or buffered at most once. -/
theorem Commits.integrates (h : Commits s) (hu : Loose s id u)
    {r : EStateM.Result PyError (AsyncFL ι T) Bool} (hr : Integrates s id u r) : Commits (stateOf r) := by
  cases hr with
  | raised e => exact h
  | late t hq _ => exact (h.quiet hq).setStatus id fun _ _ _ _ he ↦ by cases he
  | done t state delays weights elapsed hq hd =>
    have ht : Commits t := (h.load state).quiet hq
    have hload : Loose (s.load state) id u := ⟨hu.fresh, hu.received, hu.version⟩
    have hloose : Loose t id u := hload.quiet hq
    refine ht.record weights elapsed ?_ (fun i hi ↦ ?_) hd
    · rw [List.nodup_append]
      refine ⟨ht.ids, List.nodup_singleton id, fun i hi j hj he ↦ ?_⟩
      have hj : j = id := List.mem_singleton.mp hj
      exact hloose.fresh (hj ▸ he ▸ hi)
    · rw [List.mem_singleton.mp hi]
      exact hloose.received
  | buffered _ => exact h.push hu
  | bufferRaised e => exact h.push hu
  | bufferLate t hq _ => exact (h.push hu).quiet hq
  | flushed t state delays weights elapsed hq hd =>
    have ht : Commits t := ((h.push hu).load state).quiet hq
    have hbuffer : t.buffer = s.buffer ++ [(id, u)] := by
      obtain ⟨ticks, crossed, rfl, -⟩ := hq
      rfl
    -- The dispatches leave the buffer and are committed.
    have hmoved : settledIds t.clear ++ (s.buffer ++ [(id, u)]).map Prod.fst = settledIds t := by
      rw [settledIds, settledIds, hbuffer, List.append_assoc]
      rfl
    refine ht.clear.record weights elapsed (hmoved ▸ ht.ids) (fun i hi ↦ ht.received i ?_) hd
    rw [← hmoved]
    exact List.mem_append_right _ hi

theorem validate_ok {id? : Option ι} (h : validate ops s id? u = .ok id) :
    s.active.get? u.clientId = some u.assignment ∧ id ∉ s.receivedDispatches := by
  obtain ⟨_, hactive, h⟩ := bind_eq_ok h
  cases id? with
  | none => cases h
  | some i =>
    obtain ⟨_, hnew, h⟩ := bind_eq_ok h
    obtain ⟨_, -, h⟩ := bind_eq_ok h
    obtain ⟨_, -, h⟩ := bind_eq_ok h
    cases h
    exact ⟨of_require hactive, of_require hnew⟩

theorem Commits.enter (h : Commits s) (hu : s.active.get? u.clientId = some u.assignment)
    (hid : id ∉ s.receivedDispatches) : Commits (s.enter id u) ∧ Loose (s.enter id u) id u := by
  refine ⟨⟨h.ids, fun i hi ↦ List.mem_cons_of_mem id (h.received i hi), h.version, h.staleness, fun cid job hjob ↦ ?_,
    h.buffered⟩, fun hm ↦ hid (h.received id hm), List.mem_cons_self, h.current _ _ hu⟩
  change (s.active.erase u.clientId).get? cid = some job at hjob
  rw [Dict.get?_erase] at hjob
  split_ifs at hjob
  exact h.current cid job hjob

theorem Commits.assign (h : Commits s) (cid : String) (now : ℚ) : Commits (s.assign (newJob s cid now 0)) := by
  refine ⟨h.ids, h.received, h.version, h.staleness, fun c job hjob ↦ ?_, h.buffered⟩
  change (s.active.insert cid (newJob s cid now 0)).get? c = some job at hjob
  rw [Dict.get?_insert] at hjob
  split_ifs at hjob
  · cases hjob
    exact le_rfl
  · exact h.current c job hjob

theorem Commits.begin (h : Commits s) (now : ℚ) : Commits (s.begin (initialJobs s now)) := by
  refine ⟨h.ids, h.received, h.version, h.staleness, fun c job hjob ↦ ?_, h.buffered⟩
  obtain ⟨job', hin, he⟩ := List.mem_map.mp (Dict.mem_of_get?_ofList hjob)
  cases he
  obtain ⟨i, -, rfl⟩ := List.mem_mapIdx.mp hin
  exact Nat.zero_le _

theorem Commits.dispatch (h : Commits s) (cid : String) (now : ℚ) : Commits (dispatch s cid now) := by
  rw [Async.dispatch]
  cases hj : s.active.get? cid with
  | none => exact h
  | some job =>
    refine ⟨h.ids, h.received, h.version, h.staleness, fun c job' hjob ↦ ?_, h.buffered⟩
    change (s.active.insert cid _).get? c = some job' at hjob
    rw [Dict.get?_insert] at hjob
    split_ifs at hjob
    · cases hjob
      exact le_rfl
    · exact h.current c job' hjob

theorem Commits.stop (h : Commits s) : Commits (stop s) where
  ids := h.clear.ids
  received := h.clear.received
  version := h.version
  staleness := h.staleness
  current cid job hjob := by cases hjob
  buffered := h.clear.buffered

end Commits

/-! ### Runs -/

section Runs

variable {s t : AsyncFL ι T} {id : ι} {u : Update T} {now : ℚ}

/-- A call makes one commit, or leaves the model and the version as they were. -/
def OneCommit (s t : AsyncFL ι T) : Prop :=
  (t.model = s.model ∧ t.version = s.version ∧ t.aggregations = s.aggregations) ∨
    ∃ record, t.version = s.version + 1 ∧ t.aggregations = s.aggregations ++ [record]

theorem OneCommit.refl (s : AsyncFL ι T) : OneCommit s s := .inl ⟨rfl, rfl, rfl⟩

theorem OneCommit.of_same {r : AsyncFL ι T} (h : OneCommit t r)
    (hs : t.model = s.model ∧ t.version = s.version ∧ t.aggregations = s.aggregations) : OneCommit s r := by
  obtain ⟨hm, hv, ha⟩ := hs
  rw [OneCommit, hm, hv, ha] at h
  exact h

/-- There is room in the buffer. -/
def Room (s : AsyncFL ι T) : Prop := s.crossed = false → s.buffer.length < s.config.bufferSize

theorem Room.of_crossed (h : s.crossed = true) : Room s := fun hn ↦ by
  rw [h] at hn
  cases hn

theorem Room.quiet (h : Room s) (hq : Quiet s t) : Room t := by
  obtain ⟨ticks, crossed, rfl, hcrossed⟩ := hq
  intro hn
  refine h ?_
  by_contra hs
  have hc : crossed = true := hcrossed (by simpa using hs)
  have hnot : crossed = false := hn
  rw [hc] at hnot
  cases hnot

theorem after_eq {α : Type} (x : Method (AsyncFL ι T) α) (s : AsyncFL ι T) : x.after s = stateOf (x.run s) := by
  rw [Method.after]
  cases x.run s with
  | ok a t => rfl
  | error e t => rfl

variable [DecidableEq ι]

theorem Integrates.oneCommit {r : EStateM.Result PyError (AsyncFL ι T) Bool} (h : Integrates s id u r) :
    OneCommit s (stateOf r) := by
  cases h with
  | raised e => exact .inl ⟨rfl, rfl, rfl⟩
  | late t hq _ =>
    obtain ⟨ticks, crossed, rfl, -⟩ := hq
    exact .inl ⟨rfl, rfl, rfl⟩
  | done t state delays weights elapsed hq _ =>
    obtain ⟨ticks, crossed, rfl, -⟩ := hq
    exact .inr ⟨_, rfl, rfl⟩
  | buffered _ => exact .inl ⟨rfl, rfl, rfl⟩
  | bufferRaised e => exact .inl ⟨rfl, rfl, rfl⟩
  | bufferLate t hq _ =>
    obtain ⟨ticks, crossed, rfl, -⟩ := hq
    exact .inl ⟨rfl, rfl, rfl⟩
  | flushed t state delays weights elapsed hq _ =>
    obtain ⟨ticks, crossed, rfl, -⟩ := hq
    exact .inr ⟨_, rfl, rfl⟩

theorem Room.integrates (h : Room s) {b : Bool} {r : AsyncFL ι T} (hr : Integrates s id u (.ok b r)) : Room r := by
  cases hr with
  | late t hq hc => exact .of_crossed hc
  | done t state delays weights elapsed hq _ =>
    have hload : Room (s.load state) := h
    have ht : Room t := hload.quiet hq
    exact ht
  | buffered hlen =>
    intro hn
    have hlt := h hn
    change (s.buffer ++ [(id, u)]).length < s.config.bufferSize
    rw [List.length_append, List.length_singleton]
    omega
  | bufferLate t hq hc => exact .of_crossed hc
  | flushed t state delays weights elapsed hq _ => exact fun _ ↦ Nat.zero_lt_of_lt t.config.buffer_valid

/-- The call raises after the checks at its head. -/
def fails (ops : AsyncTorch T) (s : AsyncFL ι T) : Event ι T → Bool
  | .receive id u now =>
    match validate ops s id u, (receive ops id u now).run s with
    | .ok _, .error _ _ => true
    | _, _ => false
  | _ => false

/-- The controller, and whether a call failed. Where a call raises, what it changed before stays. -/
def next (ops : AsyncTorch T) (p : AsyncFL ι T × Bool) (e : Event ι T) : Option (AsyncFL ι T × Bool) :=
  some ((perform ops e).after p.1, p.2 || fails ops p.1 e)

theorem receive_of_error {id? : Option ι} {e : PyError} (h : validate ops s id? u = .error e) :
    (receive ops id? u now).run s = .error e s := by
  rw [receive, Method.get_bind_run, h]
  rfl

theorem receive_of_ok {id? : Option ι} (h : validate ops s id? u = .ok id) :
    (receive ops id? u now).run s = (accept ops id u now).run s := by
  rw [receive, Method.get_bind_run, h, Method.ok_bind_run]

/-- What holds between two calls. -/
structure Sound (p : AsyncFL ι T × Bool) : Prop where
  jobs : Jobs p.1
  commits : Commits p.1
  room : p.2 = false → Room p.1

/-- The state in which a checked update is taken in. -/
theorem entered_sound (hj : Jobs s) (hc : Commits s) (hactive : s.active.get? u.clientId = some u.assignment)
    (hid : id ∉ s.receivedDispatches) (hq : Quiet (entered s id u) t) :
    Jobs t ∧ Free t u.clientId ∧ t.initialized = true ∧ Commits t ∧ Loose t id u ∧ (Room s → Room t) ∧
      t.model = s.model ∧ t.version = s.version ∧ t.aggregations = s.aggregations := by
  obtain ⟨hjobs, hfree⟩ := hj.enter id hactive
  obtain ⟨hcommits, hloose⟩ := hc.enter hactive hid
  have hsame : SameJobs (s.enter id u) t := SameJobs.trans (t := entered s id u) ⟨rfl, rfl, rfl, rfl, rfl⟩ hq.sameJobs
  have hinit : s.initialized = true := by
    by_contra hn
    have hnil := hj.fresh (by simpa using hn)
    have hin := (hj.active _ _ hactive).2.1
    rw [hnil] at hin
    cases hin
  have hentered : Commits (entered s id u) := hcommits.setStatus id fun _ _ _ _ he ↦ by cases he
  have hentered' : Loose (entered s id u) id u := ⟨hloose.fresh, hloose.received, hloose.version⟩
  refine ⟨hjobs.of_same hsame, hfree.of_same hsame, hsame.initialized.trans hinit, hentered.quiet hq,
    hentered'.quiet hq, fun hr ↦ ?_, ?_⟩
  · have hroom : Room (entered s id u) := hr
    exact hroom.quiet hq
  · obtain ⟨ticks, crossed, rfl, -⟩ := hq
    exact ⟨rfl, rfl, rfl⟩

theorem accept_sound {failed : Bool} (h : Sound (s, failed)) (hactive : s.active.get? u.clientId = some u.assignment)
    (hid : id ∉ s.receivedDispatches) {r : EStateM.Result PyError (AsyncFL ι T) (List Assignment)}
    (hr : Accepts ops s id u now r) :
    Jobs (stateOf r) ∧ Commits (stateOf r) ∧ OneCommit s (stateOf r) ∧
      ∀ jobs t, r = .ok jobs t → failed = false → Room t := by
  cases hr with
  | late t hq hcrossed =>
    refine ⟨(h.jobs.enter id hactive).1.of_same hq.sameJobs, (h.commits.enter hactive hid).1.quiet hq, ?_, ?_⟩
    · obtain ⟨ticks, crossed, rfl, -⟩ := hq
      exact .inl ⟨rfl, rfl, rfl⟩
    · intro jobs t' he _
      cases he
      exact .of_crossed hcrossed
  | raised e t r hq hint =>
    obtain ⟨hj, -, -, hc, hl, -, hsame⟩ := entered_sound h.jobs h.commits hactive hid hq
    exact ⟨hj.of_same hint.sameJobs, hc.integrates hl hint, hint.oneCommit.of_same hsame, fun _ _ he ↦ by cases he⟩
  | refused t r hq hint =>
    obtain ⟨hj, -, -, hc, hl, hroom, hsame⟩ := entered_sound h.jobs h.commits hactive hid hq
    refine ⟨hj.of_same hint.sameJobs, hc.integrates hl hint, hint.oneCommit.of_same hsame, ?_⟩
    intro jobs t' he hf
    cases he
    exact (hroom (h.room hf)).integrates hint
  | assigned t r hq hint =>
    obtain ⟨hj, hfree, hinit, hc, hl, hroom, hsame⟩ := entered_sound h.jobs h.commits hactive hid hq
    have hsameJobs := hint.sameJobs
    refine ⟨(hj.of_same hsameJobs).assign (hfree.of_same hsameJobs) (hsameJobs.initialized.trans hinit) now,
      (hc.integrates hl hint).assign _ now, hint.oneCommit.of_same hsame, ?_⟩
    intro jobs t' he hf
    cases he
    have hr : Room r := (hroom (h.room hf)).integrates hint
    exact hr

/-- Every call keeps the controller sound and makes one commit at most. -/
theorem next_sound {p q : AsyncFL ι T × Bool} {e : Event ι T} (h : Sound p) (hn : next ops p e = some q) :
    Sound q ∧ OneCommit p.1 q.1 := by
  obtain ⟨s, failed⟩ := p
  cases hn
  have hquiet : ∀ {t : AsyncFL ι T}, fails ops s e = false → (failed = false → Room t) →
      (failed || fails ops s e) = false → Room t := by
    intro t hf hroom hnot
    rw [hf, Bool.or_false] at hnot
    exact hroom hnot
  dsimp only
  rw [after_eq]
  cases e with
  | start now =>
    change Sound (stateOf ((initializeJobs now).run s), _) ∧ OneCommit s (stateOf ((initializeJobs now).run s))
    rw [initializeJobs, Method.get_bind_run]
    split_ifs with hi
    · exact ⟨⟨h.jobs, h.commits, hquiet rfl h.room⟩, OneCommit.refl s⟩
    · exact ⟨⟨h.jobs.begin (by simpa using hi) now, h.commits.begin now, hquiet rfl h.room⟩, .inl ⟨rfl, rfl, rfl⟩⟩
  | receive id? u now =>
    change Sound (stateOf ((receive ops id? u now).run s), _) ∧ OneCommit s (stateOf ((receive ops id? u now).run s))
    cases hv : validate ops s id? u with
    | error e =>
      have hf : fails ops s (.receive id? u now) = false := by rw [fails, hv]
      rw [receive_of_error hv]
      exact ⟨⟨h.jobs, h.commits, hquiet hf h.room⟩, OneCommit.refl s⟩
    | ok id =>
      obtain ⟨hactive, hid⟩ := validate_ok hv
      obtain ⟨hj, hc, hone, hroom⟩ := accept_sound h hactive hid (accepts ops s id u now)
      have hf : fails ops s (.receive id? u now) = match (accept ops id u now).run s with
          | .ok _ _ => false
          | .error _ _ => true := by
        rw [fails, hv, receive_of_ok hv]
        cases (accept ops id u now).run s <;> rfl
      rw [receive_of_ok hv, hf]
      refine ⟨⟨hj, hc, ?_⟩, hone⟩
      cases hr : (accept ops id u now).run s with
      | ok jobs t =>
        intro hnot
        exact hroom jobs t hr (by simpa using hnot)
      | error e t =>
        intro hnot
        simp at hnot
  | dispatch cid now =>
    have hsame : (dispatch s cid now).buffer = s.buffer ∧ (dispatch s cid now).crossed = s.crossed ∧
        (dispatch s cid now).config = s.config ∧ OneCommit s (dispatch s cid now) := by
      rw [Async.dispatch]
      cases s.active.get? cid with
      | none => exact ⟨rfl, rfl, rfl, .refl s⟩
      | some job => exact ⟨rfl, rfl, rfl, .inl ⟨rfl, rfl, rfl⟩⟩
    obtain ⟨hbuffer, hcrossed, hconfig, hone⟩ := hsame
    refine ⟨⟨h.jobs.dispatch cid now, h.commits.dispatch cid now, hquiet rfl fun hf ↦ ?_⟩, hone⟩
    change (dispatch s cid now).crossed = false →
      (dispatch s cid now).buffer.length < (dispatch s cid now).config.bufferSize
    rw [hbuffer, hcrossed, hconfig]
    exact h.room hf
  | retime timing =>
    exact ⟨⟨⟨h.jobs.active, h.jobs.unique, h.jobs.serials, h.jobs.taken, h.jobs.once, h.jobs.fresh⟩,
      ⟨h.commits.ids, h.commits.received, h.commits.version, h.commits.staleness, h.commits.current,
        h.commits.buffered⟩, hquiet rfl h.room⟩, .inl ⟨rfl, rfl, rfl⟩⟩
  | stop =>
    exact ⟨⟨h.jobs.stop, h.commits.stop, fun _ _ ↦ Nat.zero_lt_of_lt s.config.buffer_valid⟩, .inl ⟨rfl, rfl, rfl⟩⟩

theorem sound_create (model : Dict String T) (parameterNames : List String) (config : AsyncFLConfig) (timing : Timing)
    (partitionSizes : Dict String ℕ) :
    Sound (AsyncFL.create (ι := ι) model parameterNames config timing partitionSizes, false) where
  jobs :=
    { active := fun _ _ hj ↦ by cases hj
      unique := List.nodup_nil
      serials := fun _ hp ↦ by cases hp
      taken := fun _ hn ↦ by cases hn
      once := fun _ hp ↦ by cases hp
      fresh := fun _ ↦ rfl }
  commits :=
    { ids := List.nodup_nil
      received := fun _ hi ↦ by cases hi
      version := rfl
      staleness := fun _ _ _ _ _ hget ↦ by cases hget
      current := fun _ _ hj ↦ by cases hj
      buffered := fun _ hp ↦ by cases hp }
  room _ _ := Nat.zero_lt_of_lt config.buffer_valid

/-- An assignment that was handed out and did not come back. -/
def Outstanding (s : AsyncFL ι T) (serial : ℕ) (cid : String) : Prop := (serial, cid) ∈ s.issued ∧ serial ∉ s.taken

/-- In every run a dispatch is in one commit at most, a client has one assignment at most, and the version counts the
commits. The buffer is never full as long as no deadline is crossed and no call fails. -/
theorem each_dispatch_once (ops : AsyncTorch T) (model : Dict String T) (parameterNames : List String)
    (config : AsyncFLConfig) (timing : Timing) (partitionSizes : Dict String ℕ) {p : AsyncFL ι T × Bool}
    (h : Reaches (next ops) (fun _ _ ↦ True) (.create model parameterNames config timing partitionSizes, false) p) :
    (committedIds p.1).Nodup ∧ (∀ cid a b, Outstanding p.1 a cid → Outstanding p.1 b cid → a = b) ∧
      (p.2 = false → p.1.crossed = false → p.1.buffer.length < p.1.config.bufferSize) ∧
      p.1.version = p.1.aggregations.length ∧
      (∀ id staleness weight elapsed version,
        p.1.receipts.get? id = some (.aggregated staleness weight elapsed version) → 0 ≤ staleness) ∧
      (∀ e, OneCommit p.1 ((perform ops e).after p.1)) ∧
      ∀ updates now t, (commit ops updates now).run p.1 = .ok false t →
        t.crossed = true ∧ t.model = p.1.model ∧ t.version = p.1.version := by
  have hsound : Sound p := h.invariant (sound_create model parameterNames config timing partitionSizes)
    fun _ _ _ hs _ hn ↦ (next_sound hs hn).1
  refine ⟨(List.sublist_append_left _ _).nodup hsound.commits.ids, fun cid a b ha hb ↦ ?_, hsound.room,
    hsound.commits.version, hsound.commits.staleness, fun e ↦ ?_, fun updates now t ht ↦ ?_⟩
  · exact hsound.jobs.once _ ha.1 _ hb.1 rfl ha.2 hb.2
  · exact (next_sound hsound (e := e) rfl).2
  · have hends := commit_ends ops p.1 updates now
    rw [ht] at hends
    cases hends with
    | late t hq hc =>
      obtain ⟨ticks, crossed, rfl, -⟩ := hq
      exact ⟨hc, rfl, rfl⟩

end Runs

/-! ### One parameter and one client -/

section Single

/-- The largest float32. -/
def bounded (x : ℚ) : Option ℚ := if |x| ≤ 340282346638528859811704183484516925440 then some x else none

/-- One float32 number, or `none` where it is not finite. -/
def float32 : AsyncTorch (Option ℚ) where
  shape _ := []
  dtype _ := ⟨.float, 4⟩
  inexact _ := true
  nonfinite x := x.isNone
  add x y := do bounded ((← x) + (← y))
  sub x y := do bounded ((← x) - (← y))
  scale w x := do bounded (w * (← x))
  mean l := do
    let values ← l.mapM id
    bounded (values.sum / l.length)
  power a b := if b = -1 then a⁻¹ else 1

def bufferConfig (algorithm : Algorithm) : AsyncFLConfig where
  algorithm := algorithm
  localSteps := 1
  alpha := 1
  stalenessExponent := 1
  proximalMu := 0
  bufferSize := 2
  serverLearningRate := 1
  steps_valid := by norm_num
  buffer_valid := by norm_num
  alpha_valid := by norm_num
  exponent_valid := by norm_num
  mu_valid := by norm_num
  rate_valid := by norm_num

def weightOf (x : ℚ) : Dict String (Option ℚ) := .ofList [("weight", some x)]

def alone (algorithm : Algorithm) : AsyncFL ℕ (Option ℚ) :=
  .create (weightOf 0) ["weight"] (bufferConfig algorithm) .events (Dict.ofList [("a", 1)])

/-- The update of the `n`-th assignment. -/
def update (n : ℕ) (base trained : ℚ) : Update (Option ℚ) where
  assignment := ⟨n, "a", 1, 0, none, n⟩
  base := weightOf base
  trained := weightOf trained

def run (algorithm : Algorithm) (events : List (Event ℕ (Option ℚ))) : AsyncFL ℕ (Option ℚ) × Bool :=
  events.foldl (fun p e ↦ ((perform float32 e).after p.1, p.2 || fails float32 p.1 e)) (alone algorithm, false)

def twoUpdates (base trained : ℚ) : List (Event ℕ (Option ℚ)) :=
  [.start 0, .receive (some 1) (update 0 base trained) 1, .receive (some 2) (update 1 base trained) 2]

theorem reaches_run (algorithm : Algorithm) (base trained : ℚ) :
    Reaches (next float32) (fun _ _ ↦ True) (alone algorithm, false) (run algorithm (twoUpdates base trained)) :=
  .next _ (.next _ (.next _ .start trivial rfl) trivial rfl) trivial rfl

theorem each_dispatch_once_sample : committedIds (run .fedbuff (twoUpdates 0 1)).1 = [1, 2] ∧
    (committedIds (run .fedbuff (twoUpdates 0 1)).1).Nodup ∧ (run .fedbuff (twoUpdates 0 1)).1.version = 1 :=
  ⟨by decide +kernel, (each_dispatch_once float32 _ _ _ _ _ (reaches_run .fedbuff 0 1)).1, by decide +kernel⟩

/-- The merged state overflows, so the commit raises and the buffer stays full before any deadline. -/
theorem overflow_fills_buffer :
    Reaches (next float32) (fun _ _ ↦ True) (alone .fedbuff, false) (run .fedbuff (twoUpdates (-2 ^ 127) (2 ^ 127))) ∧
      (run .fedbuff (twoUpdates (-2 ^ 127) (2 ^ 127))).1.crossed = false ∧
      ¬ (run .fedbuff (twoUpdates (-2 ^ 127) (2 ^ 127))).1.buffer.length <
        (run .fedbuff (twoUpdates (-2 ^ 127) (2 ^ 127))).1.config.bufferSize :=
  ⟨reaches_run .fedbuff _ _, by decide +kernel, by decide +kernel⟩

end Single

end SplitFleet.Async
