import SplitFleet.ReplicaPhases

set_option autoImplicit false

namespace SplitFleet.ReplicaHistory

open Lib LeasedManager ReplicaPhases

variable {α : Type} {finite : α → Bool}

def isEnded : Event α → Bool
  | .ended => true
  | _ => false

def isInitialized : Event α → Bool
  | .initialized => true
  | _ => false

/-- The events since the last `end_round`, newest first. -/
def sinceEnded (trace : List (Event α)) : List (Event α) := trace.takeWhile (!isEnded ·)

/-- The events since the last `initialize_server_models`, newest first. -/
def sinceInitialized (trace : List (Event α)) : List (Event α) := trace.takeWhile (!isInitialized ·)

def admission : Event α → Option Sid
  | .admitted sid => some sid
  | _ => none

/-- The sids that `acquire` has admitted. -/
def admissions (events : List (Event α)) : List Sid := events.filterMap admission

/-- `finish(sid, success=True)` exported the finite state `v`, then the store took it. -/
def Committed (finite : α → Bool) (events : List (Event α)) (sid : Sid) (v : α) : Prop :=
  finite v = true ∧ [.stored sid v, .exported sid v, .finishing sid true].Sublist events

/-- What the trace shows for a thread inside `finish`. -/
def Evidence (finite : α → Bool) (events : List (Event α)) : Pc α → Prop
  | .exporting f => [.finishing f.sid true].Sublist events
  | .storing f v => finite v = true ∧ [.exported f.sid v, .finishing f.sid true].Sublist events
  | .retiring f v | .releasing f (some v) | .publishing f (some v) _ => Committed finite events f.sid v
  | _ => True

theorem Committed.mono {l l' : List (Event α)} {sid : Sid} {v : α} (h : Committed finite l sid v)
    (hl : l.Sublist l') : Committed finite l' sid v :=
  ⟨h.1, h.2.trans hl⟩

theorem Evidence.mono {l l' : List (Event α)} {pc : Pc α} (h : Evidence finite l pc)
    (hl : l.Sublist l') : Evidence finite l' pc := by
  cases pc with
  | exporting f => exact List.Sublist.trans h hl
  | storing f v => exact ⟨h.1, h.2.trans hl⟩
  | retiring f v => exact Committed.mono h hl
  | releasing f stored =>
    cases stored with
    | none => trivial
    | some v => exact Committed.mono h hl
  | publishing f stored idle =>
    cases stored with
    | none => trivial
    | some v => exact Committed.mono h hl
  | _ => trivial

theorem evidence_enter (f : Finish α) (l : List (Event α)) :
    Evidence finite (.finishing f.sid f.success :: l) f.enter := by
  unfold Finish.enter
  split_ifs with hs
  · rw [hs]
    exact List.singleton_sublist.mpr List.mem_cons_self
  · trivial

theorem evidence_returnTo (rest : Option (List Sid)) (l : List (Event α)) :
    Evidence finite l (returnTo rest) := by
  cases rest <;> trivial

theorem evidence_next (f : Finish α) (raised : Bool) (l : List (Event α)) :
    Evidence finite l (f.next raised) := by
  unfold Finish.next
  split_ifs
  · trivial
  · exact evidence_returnTo f.rest l

theorem evidence_local {retires : Bool} {pc pc' : Pc α} {events l : List (Event α)}
    (h : LocalStep finite retires pc pc' events) (he : Evidence finite l pc) :
    Evidence finite (events ++ l) pc' := by
  cases h with
  | exported f value hf => exact ⟨hf, List.Sublist.cons_cons _ he⟩
  | stored f value =>
    have hc : Committed finite (.stored f.sid value :: l) f.sid value := ⟨he.1, he.2.cons_cons _⟩
    cases retires with
    | true => exact hc
    | false => exact hc
  | retired f value => exact he
  | released f stored =>
    cases stored with
    | none => trivial
    | some v => exact Committed.mono he (List.sublist_cons_self _ _)
  | _ => trivial

theorem evidence_move {threads : ℕ → Pc α} {l l' : List (Event α)} {pc : Pc α}
    (h : ∀ t, Evidence finite l (threads t)) (hl : l.Sublist l') (t : ℕ) (hpc : Evidence finite l' pc) :
    ∀ t', Evidence finite l' (Function.update threads t pc t') := by
  intro t'
  by_cases ht : t' = t
  · subst ht
    rw [Function.update_self]
    exact hpc
  · rw [Function.update_of_ne ht]
    exact (h t').mono hl

/-- A thread that claims no replica has nothing to show. -/
theorem evidence_of_no_claim {pc : Pc α} (h : claim pc = none) (l : List (Event α)) :
    Evidence finite l pc := by
  cases pc <;> simp [claim] at h <;> trivial

/-! ### Events that leave the bookkeeping of rounds alone -/

/-- An event that neither opens nor closes a round nor admits a sid. -/
def Plain (e : Event α) : Prop := isEnded e = false ∧ isInitialized e = false ∧ admission e = none

theorem plain_of_local {retires : Bool} {pc pc' : Pc α} {events : List (Event α)}
    (h : LocalStep finite retires pc pc' events) : ∀ e ∈ events, Plain e := by
  cases h <;> simp [Plain, isEnded, isInitialized, admission]

theorem sinceEnded_append {events trace : List (Event α)} (h : ∀ e ∈ events, Plain e) :
    sinceEnded (events ++ trace) = events ++ sinceEnded trace :=
  List.takeWhile_append_of_pos fun e he ↦ by simp [(h e he).1]

theorem admissions_sinceInitialized_append {events trace : List (Event α)} (h : ∀ e ∈ events, Plain e) :
    admissions (sinceInitialized (events ++ trace)) = admissions (sinceInitialized trace) := by
  rw [sinceInitialized, List.takeWhile_append_of_pos fun e he ↦ by simp [(h e he).2.1], admissions,
    List.filterMap_append, List.filterMap_eq_nil_iff.mpr fun e he ↦ (h e he).2.2, List.nil_append]
  rfl

/-- The trace against the manager. -/
structure History (finite : α → Bool) (w : World α) : Prop where
  admitted : ∀ sid, sid ∈ admissions (sinceEnded w.trace) ↔ sid ∈ w.manager.attempted
  once : (admissions (sinceInitialized w.trace)).Nodup
  guarded : (∀ sid ∈ admissions (sinceInitialized w.trace), sid ∈ w.manager.attempted) ∨
    ∀ sid, w.manager.configs.get? sid = none
  threads : ∀ t, Evidence finite (sinceEnded w.trace) (w.threads t)
  completed : ∀ sid v, w.manager.completed.get? sid = some v →
    Committed finite (sinceEnded w.trace) sid v

section Step

variable {w w' : World α} {phase : Sid → Phase}

theorem History.plain (h : History finite w) {events : List (Event α)}
    (ht : w'.trace = events ++ w.trace) (he : ∀ e ∈ events, Plain e)
    (ha : w'.manager.attempted = w.manager.attempted) (hc : w'.manager.configs = w.manager.configs)
    (hthreads : ∀ t, Evidence finite (events ++ sinceEnded w.trace) (w'.threads t))
    (hcompleted : ∀ sid v, w'.manager.completed.get? sid = some v →
      Committed finite (events ++ sinceEnded w.trace) sid v) : History finite w' := by
  refine ⟨fun sid ↦ ?_, ?_, ?_, ?_, ?_⟩
  · rw [ht, sinceEnded_append he, ha, ← h.admitted sid, admissions, List.filterMap_append,
      List.filterMap_eq_nil_iff.mpr fun e hm ↦ (he e hm).2.2, List.nil_append]
    rfl
  · rw [ht, admissions_sinceInitialized_append he]
    exact h.once
  · rw [ht, admissions_sinceInitialized_append he, ha, hc]
    exact h.guarded
  · rw [ht, sinceEnded_append he]
    exact hthreads
  · rw [ht, sinceEnded_append he]
    exact hcompleted

/-- A step of one thread that records plain events and leaves `completed` alone. -/
theorem History.move (h : History finite w) (t : ℕ) (pc : Pc α) (m : Manager α)
    {events : List (Event α)} (he : ∀ e ∈ events, Plain e) (ha : m.attempted = w.manager.attempted)
    (hc : m.configs = w.manager.configs) (hm : m.completed = w.manager.completed)
    (hpc : Evidence finite (events ++ sinceEnded w.trace) pc) : History finite (w.move t pc m events) := by
  have hl : (sinceEnded w.trace).Sublist (events ++ sinceEnded w.trace) :=
    List.sublist_append_right _ _
  refine h.plain rfl he ha hc (evidence_move h.threads hl t hpc) fun sid v hv ↦ ?_
  have hv' : w.manager.completed.get? sid = some v := by
    rw [← hm]
    exact hv
  exact (h.completed sid v hv').mono hl

theorem History.reserve (h : History finite w) {t : ℕ} {sid : Sid} {pc : Pc α} {m : Manager α}
    {model : Option Model} {config : Config α} (ha : w.manager.reserve sid = .ok (m, model, config))
    (hpc : ∀ l, Evidence finite l pc) : History finite (w.move t pc m [.admitted sid]) := by
  obtain ⟨hn, hc, -, -, rfl⟩ := reserve_eq ha
  have hguard := h.guarded.resolve_right fun hnone ↦ by simp [hnone sid] at hc
  have hl := List.sublist_cons_self (.admitted sid) (sinceEnded w.trace)
  refine ⟨fun a ↦ ?_, ?_, .inl fun a hm ↦ ?_, ?_, fun a v hv ↦ ?_⟩
  · simp only [World.move, Finset.mem_insert]
    rw [← h.admitted a]
    simp [sinceEnded, admissions, isEnded, admission]
  · have hni : sid ∉ admissions (sinceInitialized w.trace) := fun hm ↦ hn (hguard sid hm)
    exact List.nodup_cons.mpr ⟨hni, h.once⟩
  · rcases List.mem_cons.mp hm with rfl | hm
    · exact Finset.mem_insert_self _ _
    · exact Finset.mem_insert_of_mem (hguard a hm)
  · exact evidence_move h.threads hl t (hpc _)
  · exact (h.completed a v hv).mono hl

/-- Ending a round forgets its sids; every thread is outside the lifecycle. -/
theorem History.ended (h : History finite w) (hi : Inv w phase) (hq : w.manager.Quiet) {t : ℕ}
    (hpc : w.threads t = .ready) :
    (∀ l, ∀ t', Evidence finite l (Function.update w.threads t .ready t')) ∧
      (admissions (sinceInitialized (.ended :: w.manager.releases ++ w.trace))).Nodup := by
  refine ⟨fun l t' ↦ ?_, ?_⟩
  · rw [← hpc, Function.update_eq_self]
    exact evidence_of_no_claim (no_claim_of_quiet hi hq t') l
  · have he : ∀ e ∈ w.manager.releases, Plain e := by
      intro e he
      obtain ⟨m, -, rfl⟩ := List.mem_map.mp (List.mem_reverse.mp he)
      exact ⟨rfl, rfl, rfl⟩
    have heq := @admissions_sinceInitialized_append _ _ w.trace he
    have hcons : ∀ l : List (Event α), admissions (sinceInitialized (.ended :: l)) =
        admissions (sinceInitialized l) := fun l ↦ rfl
    rw [List.cons_append, hcons, heq]
    exact h.once

theorem History.step (h : History finite w) (hi : Inv w phase) (hs : Step finite w w') :
    History finite w' := by
  cases hs with
  | «local» t pc events hl =>
    exact h.move t pc w.manager (plain_of_local hl) rfl rfl rfl (evidence_local hl (h.threads t))
  | refuse | getServerModel | endRoundRefused => exact h
  | reserve t sid m model config hpc ha =>
    refine h.reserve ha fun l ↦ ?_
    cases model <;> trivial
  | build t a hpc =>
    have hp : ∀ e ∈ [(Event.built w.created : Event α)], Plain e := by
      simp [Plain, isEnded, isInitialized, admission]
    have h' := h.move t (.numbering a w.created) w.manager hp rfl rfl rfl trivial
    exact ⟨h'.admitted, h'.once, h'.guarded, h'.threads, h'.completed⟩
  | number t a model hpc =>
    have h' := h.move t (.peaking a model w.manager.numberModel.nextModelInstanceId)
      w.manager.numberModel (List.forall_mem_nil _) rfl rfl rfl trivial
    exact ⟨h'.admitted, h'.once, h'.guarded, h'.threads, h'.completed⟩
  | notePeak t a model instanceId hpc =>
    exact h.move t _ _ (List.forall_mem_nil _) rfl rfl rfl trivial
  | identify t a model hpc =>
    refine h.move t _ _ (List.forall_mem_nil _) rfl rfl rfl ?_
    cases w.instanceIds model <;> trivial
  | unregister t a error hpc => exact h.move t _ _ (List.forall_mem_nil _) rfl rfl rfl trivial
  | commit t a model receipt hpc => exact h.move t _ _ (List.forall_mem_nil _) rfl rfl rfl trivial
  | finishAbsent t sid rest hpc hl =>
    exact h.move t _ _ (List.forall_mem_nil _) rfl rfl rfl (evidence_returnTo rest _)
  | finishUnconfigured t sid model rest hpc hl hc =>
    exact h.move t _ _ (List.forall_mem_nil _) rfl rfl rfl trivial
  | finish t f config hpc hcollect hl hc hinit =>
    have hp : ∀ e ∈ [(Event.finishing f.sid f.success : Event α)], Plain e := by
      simp [Plain, isEnded, isInitialized, admission]
    exact h.move t _ _ hp rfl rfl rfl (evidence_enter f _)
  | record t f error hpc => exact h.move t _ _ (List.forall_mem_nil _) rfl rfl rfl trivial
  | publish t f stored idle hpc =>
    have he := h.threads t
    rw [hpc] at he
    cases stored with
    | none => exact h.move t _ _ (List.forall_mem_nil _) rfl rfl rfl trivial
    | some v =>
      refine h.plain rfl (List.forall_mem_nil _) rfl rfl
        (evidence_move h.threads (List.Sublist.refl _) t trivial) fun sid v' hv ↦ ?_
      change (w.manager.completed.insert f.sid v).get? sid = some v' at hv
      rw [Dict.get?_insert] at hv
      split_ifs at hv with hsid
      · cases hv
        exact hsid ▸ he
      · exact h.completed sid v' hv
  | close t f raised hpc =>
    exact h.move t _ _ (List.forall_mem_nil _) rfl rfl rfl (evidence_next f raised _)
  | collect t hpc => exact h.move t _ _ (List.forall_mem_nil _) rfl rfl rfl trivial
  | report t hpc => exact h.move t _ _ (List.forall_mem_nil _) rfl rfl rfl trivial
  | endRound t hpc hq =>
    obtain ⟨hthreads, honce⟩ := h.ended hi hq hpc
    refine ⟨fun sid ↦ ?_, honce, .inr fun sid ↦ rfl, hthreads _, fun sid v hv ↦ by cases hv⟩
    exact iff_of_false List.not_mem_nil (Finset.notMem_empty sid)
  | endRoundRaises t before after model hpc hq hm =>
    refine h.move t .ready w.manager (fun e he ↦ ?_) rfl rfl rfl trivial
    rcases List.mem_cons.mp he with rfl | he
    · exact ⟨rfl, rfl, rfl⟩
    · obtain ⟨m, -, rfl⟩ := List.mem_map.mp (List.mem_reverse.mp he)
      exact ⟨rfl, rfl, rfl⟩
  | initializeServerModels t configs hpc hq =>
    obtain ⟨hthreads, -⟩ := h.ended hi hq hpc
    obtain ⟨-, hatt, hcomp⟩ := configure_frame w.manager.clear configs
    refine ⟨fun sid ↦ ?_, List.nodup_nil, .inl fun sid hm ↦ absurd hm List.not_mem_nil, hthreads _,
      fun sid v hv ↦ ?_⟩
    · change sid ∈ [] ↔ sid ∈ (w.manager.clear.configure configs).1.attempted
      rw [hatt]
      exact iff_of_false List.not_mem_nil (Finset.notMem_empty sid)
    · change (w.manager.clear.configure configs).1.completed.get? sid = some v at hv
      rw [hcomp] at hv
      cases hv

end Step

theorem history_start (m : Manager α) (ha : m.attempted = ∅) (hc : m.completed = .empty) :
    History finite (.start m) := by
  refine ⟨fun sid ↦ ?_, List.nodup_nil, .inl fun sid hm ↦ absurd hm List.not_mem_nil,
    fun t ↦ trivial, fun sid v hv ↦ ?_⟩
  · change sid ∈ [] ↔ sid ∈ m.attempted
    rw [ha]
    exact iff_of_false List.not_mem_nil (Finset.notMem_empty sid)
  · change m.completed.get? sid = some v at hv
    rw [hc] at hv
    cases hv

theorem history_of_reachable {w : World α} (h : Reachable finite w) : History finite w := by
  obtain ⟨capacity, modelCapacity, retires, perClientModels, exclusive, hrun⟩ := h
  have hboth : (∃ phase, Inv w phase) ∧ History finite w := by
    induction hrun with
    | refl =>
      exact ⟨⟨_, inv_start capacity modelCapacity retires perClientModels exclusive⟩,
        history_start _ rfl rfl⟩
    | tail _ hs ih =>
      obtain ⟨⟨phase, hi⟩, hh⟩ := ih
      exact ⟨hi.step hs, hh.step hi hs⟩
  exact hboth.2

/-- The registry in every interleaving of its calls. -/
theorem registry_invariant {w : World α} (h : Reachable finite w) :
    w.manager.occupied ≤ w.manager.capacity ∧
    (∀ sid, (sid ∈ w.manager.live.keys → sid ∉ w.manager.preparing) ∧
      (sid ∈ w.manager.live.keys → sid ∉ w.manager.finishing) ∧
      (sid ∈ w.manager.preparing → sid ∉ w.manager.finishing)) ∧
    (∀ sid ∈ admissions (sinceEnded w.trace), sid ∈ w.manager.live.keys ∨ sid ∈ w.manager.preparing ∨
      sid ∈ w.manager.finishing ∨ sid ∈ w.manager.completed.keys ∨ sid ∈ w.manager.failed.keys) ∧
    (∀ sid ∈ w.manager.completed.keys, sid ∉ w.manager.failed.keys) ∧
    (admissions (sinceInitialized w.trace)).Nodup ∧
    ∀ sid v, w.manager.completed.get? sid = some v → Committed finite (sinceEnded w.trace) sid v := by
  obtain ⟨phase, hi⟩ := inv_of_reachable h
  have hh := history_of_reachable h
  have hr := hi.refines
  refine ⟨hi.bounded, fun sid ↦ ⟨?_, ?_, ?_⟩, fun sid hm ↦ ?_, fun sid ↦ ?_, hh.once, hh.completed⟩
  · exact hr.live.disjoint hr.preparing (by rintro _ rfl; nofun) sid
  · exact hr.live.disjoint hr.finishing (by rintro _ rfl; simp [Phase.InFinishing]) sid
  · exact hr.preparing.disjoint hr.finishing (by rintro _ rfl; simp [Phase.InFinishing]) sid
  · have ha := (hr.attempted sid).mp ((hh.admitted sid).mp hm)
    cases hp : phase sid with
    | fresh => exact absurd hp ha
    | preparing => exact .inr (.inl ((hr.preparing sid).mpr hp))
    | live => exact .inl ((hr.live sid).mpr hp)
    | finishing => exact .inr (.inr (.inl ((hr.finishing sid).mpr (.inl hp))))
    | recorded success => exact .inr (.inr (.inl ((hr.finishing sid).mpr (.inr ⟨success, hp⟩))))
    | closed success =>
      cases success with
      | true => exact .inr (.inr (.inr (.inl ((hr.completed sid).mpr (.inr hp)))))
      | false => exact .inr (.inr (.inr (.inr ((hr.failed sid).mpr (.inr hp)))))
  · refine hr.completed.disjoint hr.failed ?_ sid
    rintro _ (rfl | rfl) <;> simp [Phase.HasOutcome]

/-! ### One committed task -/

def single : Manager ℕ := .fresh 1 1 false true fun _ ↦ rfl

def task : Finish ℕ := ⟨"a", 0, true, "", 3, none⟩

theorem reachable_committed : ∃ w : World ℕ, Reachable (· < 10) w ∧
    w.manager.completed.get? "a" = some 7 ∧ w.threads 0 = .ready ∧ w.manager.Quiet := by
  have h₁ := Relation.ReflTransGen.single (@Step.initializeServerModels ℕ (· < 10)
    (.start single) 0 [⟨"a", true, 3⟩] rfl ⟨rfl, rfl⟩)
  have h₂ := h₁.tail (.reserve 0 "a" _ none ⟨"a", true, 3⟩ rfl rfl)
  have h₃ := h₂.tail (.build 0 _ rfl)
  have h₄ := h₃.tail (.number 0 _ _ rfl)
  have h₅ := h₄.tail (.notePeak 0 _ _ _ rfl)
  have h₆ := h₅.tail (.local 0 _ _ (.configured _ _ _ false))
  have h₇ := h₆.tail (.commit 0 _ _ _ rfl)
  have h₈ := h₇.tail (.finish 0 task ⟨"a", true, 3⟩ (.inl ⟨rfl, rfl⟩) (by simp [task]) rfl rfl rfl)
  have h₉ := h₈.tail (.local 0 _ _ (.exported task 7 rfl))
  have h₁₀ := h₉.tail (.local 0 _ _ (.stored task 7))
  have h₁₁ := h₁₀.tail (.local 0 _ _ (.released task (some 7)))
  have h₁₂ := h₁₁.tail (.publish 0 task (some 7) false rfl)
  have h₁₃ := h₁₂.tail (.close 0 task false rfl)
  exact ⟨_, ⟨1, 1, false, true, _, h₁₃⟩, rfl, rfl, rfl, rfl⟩

theorem committed_registry : ∃ w : World ℕ, w.manager.completed.get? "a" = some 7 ∧
    w.manager.occupied ≤ w.manager.capacity ∧
    (admissions (sinceInitialized w.trace)).Nodup ∧
    Committed (· < 10) (sinceEnded w.trace) "a" 7 := by
  obtain ⟨w, hw, hc, -⟩ := reachable_committed
  obtain ⟨hocc, -, -, -, honce, hcommitted⟩ := registry_invariant hw
  exact ⟨w, hc, hocc, honce, hcommitted "a" 7 hc⟩

end SplitFleet.ReplicaHistory
