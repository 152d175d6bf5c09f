import SplitFleet.FedCompassReceipts

set_option autoImplicit false

namespace SplitFleet.Compass

open Lib

variable {T : Type} {ops : Torch T}

/-- No exception is of interest here. -/
abbrev Any (_ : PyError) : Prop := True

section Settle

variable {s t : FedCompass T} {hand : Multiset ℕ} {l : List (ℕ × Status)} {fate : Fate}

theorem setStatuses_get? (hl : (l.map Prod.fst).Nodup) (n : ℕ) :
    (s.setStatuses l).receipts.get? n = (Dict.lookup l n).or (s.receipts.get? n) :=
  Dict.get?_foldl_insert l s.receipts hl n

theorem setStatuses_new (hl : (l.map Prod.fst).Nodup) (hf : ∀ p ∈ l, p.2.fate = fate) :
    ∀ n ∈ (↑(l.map Prod.fst) : Multiset ℕ), ∃ st, (s.setStatuses l).receipts.get? n = some st ∧ st.fate = fate := by
  intro n hn
  rw [setStatuses_get? hl]
  cases hlook : Dict.lookup l n with
  | none => exact absurd hn (Dict.lookup_eq_none_iff.mp hlook)
  | some st => exact ⟨st, rfl, hf (n, st) ((Dict.lookup_eq_some_iff hl).mp hlook)⟩

theorem setStatuses_old (hl : (l.map Prod.fst).Nodup) :
    ∀ n ∉ (↑(l.map Prod.fst) : Multiset ℕ), (s.setStatuses l).receipts.get? n = s.receipts.get? n := by
  intro n hn
  rw [setStatuses_get? hl, Dict.lookup_eq_none_iff.mpr hn, Option.none_or]

variable {updates : List (Update T)}

/-- The updates of the hand are put aside for good. -/
theorem Kept.retire (h : Kept ↑(updates.map (·.serial)) s) (status : Status) (what : Happening)
    (hd : what.delivered = []) (hs : ∀ n m, what ≠ .superseded n m)
    (hw : ∀ f, (what.under f : Multiset ℕ) = if f = status.fate then ↑(updates.map (·.serial)) else 0) :
    Kept 0 ((s.setStatuses (updates.map fun u ↦ (u.serial, status))).note what) := by
  set l : List (ℕ × Status) := updates.map fun u ↦ (u.serial, status) with hl
  set t := (s.setStatuses l).note what with ht
  have hfst : l.map Prod.fst = updates.map (·.serial) := by
    rw [hl, List.map_map]
    rfl
  have hnd : (l.map Prod.fst).Nodup := hfst ▸ Multiset.coe_nodup.mp h.hand_nodup
  have hlog : t.log = s.log ++ [what] := rfl
  have hrec : t.received = s.received := (logged_append _ _ _).trans (by rw [hd]; exact add_zero _)
  have hnil : ∀ f, what.under f = [] → s.under f = s.under f + if f = status.fate then ↑(l.map Prod.fst) else 0 := by
    intro f hf
    rw [hfst, ← hw, hf, Multiset.coe_nil, add_zero]
  have hunder : ∀ f, t.under f = s.under f + if f = status.fate then ↑(l.map Prod.fst) else 0 := by
    intro f
    cases f with
    | lateBuffer => exact hnil .lateBuffer (by cases what <;> rfl)
    | waiting => exact hnil .waiting (by cases what <;> rfl)
    | aggregated => exact hnil .aggregated (by cases what <;> rfl)
    | _ =>
      rw [hfst, ← hw]
      exact logged_append _ _ _
  have hfate : ∀ p ∈ l, p.2.fate = status.fate := by simp [hl]
  have hnew := setStatuses_new (s := s) hnd hfate
  have hold := setStatuses_old (s := s) hnd
  rw [← hfst, ← add_zero (↑(l.map Prod.fst) : Multiset ℕ)] at h
  obtain ⟨htotal, hstatus⟩ := h.settle (t := t) hunder hnew hold hrec
  refine
    { h with
      total := htotal
      nodup := hrec ▸ h.nodup
      status := hstatus
      active := fun c job hc ↦ hrec ▸ h.active c job hc
      bound := fun k hk ↦ h.bound k (hrec ▸ hk)
      buffered := fun w hw ↦ hlog ▸ List.mem_append_left _ (h.buffered w hw)
      waiting := fun w hw ↦ hlog ▸ List.mem_append_left _ (h.waiting w hw)
      order := fun old ho w hw he ↦ (h.order old ho w hw he).trans (hlog ▸ List.sublist_append_left _ _)
      later := fun k j hk ↦ ?_ }
  rw [hlog] at hk ⊢
  obtain hk | hk := List.mem_append.mp hk
  · exact (h.later k j hk).imp fun c hb ↦ hb.trans (List.sublist_append_left _ _)
  · exact absurd (List.mem_singleton.mp hk).symm (hs k j)

theorem Kept.discard (h : Kept ↑(updates.map (·.serial)) s) : Kept 0 (s.discard updates) :=
  h.retire .discardedAtStop (.discarded (updates.map Update.serial)) rfl (fun n m he ↦ by cases he) fun f ↦ by cases f <;> rfl

theorem Kept.commit (h : Kept ↑(updates.map (·.serial)) s) {weights : List ℚ} {stale : List ℕ}
    (hweights : weights.length = updates.length) (hstale : stale.length = updates.length) (state : Dict String T)
    (elapsed : ℚ) (gid : Option ℕ) (reason : String) :
    Kept 0 (s.commit updates state weights stale elapsed gid reason) := by
  set t := s.commit updates state weights stale elapsed gid reason with ht
  set l : List (ℕ × Status) := (updates.zip (weights.zip stale)).map fun p ↦
    (p.1.serial, .aggregated (s.version + 1) elapsed p.2.2 p.2.1) with hl
  have hfst : l.map Prod.fst = updates.map (·.serial) := by
    have hzip : (updates.zip (weights.zip stale)).map Prod.fst = updates :=
      List.map_fst_zip (by rw [List.length_zip, hweights, hstale, min_self])
    rw [hl, List.map_map]
    conv_rhs => rw [← hzip, List.map_map]
    rfl
  have hnd : (l.map Prod.fst).Nodup := hfst ▸ Multiset.coe_nodup.mp h.hand_nodup
  have hunder : ∀ f, t.under f = s.under f + if f = .aggregated then ↑(l.map Prod.fst) else 0 := by
    intro f
    cases f with
    | aggregated =>
      have hagg : t.aggregations.flatMap (·.serials) = s.aggregations.flatMap (·.serials) ++ updates.map (·.serial) := by
        rw [ht, FedCompass.commit, FedCompass.setStatuses, List.flatMap_append, List.flatMap_cons, List.flatMap_nil,
          List.append_nil]
      rw [FedCompass.under, FedCompass.under, hagg, ← Multiset.coe_add, if_pos rfl, hfst]
    | _ => exact (add_zero _).symm
  have hfate : ∀ p ∈ l, p.2.fate = .aggregated := by
    intro p hp
    obtain ⟨q, -, rfl⟩ := List.mem_map.mp hp
    rfl
  have hnew := setStatuses_new (s := s) hnd hfate
  have hold := setStatuses_old (s := s) hnd
  rw [← hfst, ← add_zero (↑(l.map Prod.fst) : Multiset ℕ)] at h
  obtain ⟨htotal, hstatus⟩ := h.settle (t := t) hunder hnew hold rfl
  refine { h with total := htotal, status := hstatus, version := ?_ }
  rw [ht, FedCompass.commit, FedCompass.setStatuses, List.length_append, List.length_singleton, h.version]

/-- Nobody is in flight any more, nothing waits. -/
theorem Kept.clear (h : Kept 0 s) : Kept ↑((s.buffer.values ++ s.waiting).map (·.serial))
    { s with buffer := Dict.empty, groups := Dict.empty, active := Dict.empty } := by
  set t : FedCompass T := { s with buffer := Dict.empty, groups := Dict.empty, active := Dict.empty } with ht
  have hlate : s.under .lateBuffer = ↑(s.buffer.values.map (·.serial)) := rfl
  have hwaiting : s.under .waiting = ↑(s.waiting.map (·.serial)) := rfl
  have htotal : ↑((s.buffer.values ++ s.waiting).map (·.serial)) + t.accounted = t.received := by
    refine Eq.trans ?_ h.total
    rw [List.map_append, ← Multiset.coe_add, ← hlate, ← hwaiting, zero_add]
    have hlate' : t.under .lateBuffer = 0 := rfl
    have hwaiting' : t.under .waiting = 0 := rfl
    have hrest : ∀ f, f ≠ .lateBuffer → f ≠ .waiting → t.under f = s.under f := by
      intro f h₁ h₂
      cases f <;> first | rfl | contradiction
    rw [FedCompass.accounted, FedCompass.accounted, hlate', hwaiting', hrest .superseded (by decide) (by decide),
      hrest .aggregated (by decide) (by decide), hrest .discarded (by decide) (by decide),
      hrest .unaggregated (by decide) (by decide)]
    abel
  refine
    { h with
      total := htotal
      status := fun f n hn ↦ ?_
      active := fun c job hc ↦ ?_
      active_inj := fun c c' job job' hc ↦ ?_
      keyed := fun c u hc ↦ ?_
      buffered := fun u hu ↦ ?_
      waiting := fun u hu ↦ ?_
      order := fun old ho ↦ ?_ }
  · cases f with
    | lateBuffer => cases hn
    | waiting => cases hn
    | _ => exact h.status _ n hn
  · cases hc
  · cases hc
  · cases hc
  · cases hu
  · cases hu
  · cases ho

theorem Kept.stop (h : Kept 0 s) : Kept 0 (stop s) :=
  h.clear.retire .unaggregatedAtStop (.stopped ((s.buffer.values ++ s.waiting).map Update.serial)) rfl
    (fun n m he ↦ by cases he)
    fun f ↦ by cases f <;> rfl

/-- A new assignment is not one of an update received before. -/
theorem Kept.activate (h : Kept hand s) {job : Assignment} (hj : job.serial = s.serials) :
    Kept hand (s.activate job) := by
  have hget : ∀ c job', (s.activate job).active.get? c = some job' →
      job.clientId = c ∧ job' = job ∨ s.active.get? c = some job' := by
    intro c job' hc
    have hc' : (s.active.insert job.clientId job).get? c = some job' := hc
    rw [Dict.get?_insert] at hc'
    split_ifs at hc' with he
    · cases hc'
      exact .inl ⟨he, rfl⟩
    · exact .inr hc'
  refine
    { h with
      active := fun c job' hc ↦ ?_
      active_inj := fun c c' job₁ job₂ hc hc' he ↦ ?_
      bound := fun n hn ↦ Nat.lt_succ_of_lt (h.bound n hn) }
  · obtain ⟨-, rfl⟩ | hc := hget c job' hc
    · exact ⟨fun hm ↦ (h.bound _ hm).ne hj, hj ▸ Nat.lt_succ_self _⟩
    · exact (h.active c job' hc).imp_right Nat.lt_succ_of_lt
  · obtain ⟨h₁, e₁⟩ | h₁ := hget c job₁ hc <;> obtain ⟨h₂, e₂⟩ | h₂ := hget c' job₂ hc'
    · exact h₁.symm.trans h₂
    · exact absurd (hj.symm.trans (e₁ ▸ he)) (h.active c' job₂ h₂).2.ne'
    · exact absurd ((e₂ ▸ he).trans hj) (h.active c job₁ h₁).2.ne
    · exact h.active_inj c c' job₁ job₂ h₁ h₂ he

theorem Kept.join (h : Kept hand s) (gid : ℕ) (c : String) : Kept hand (s.join gid c) := by
  rw [FedCompass.join]
  split
  · next g hg => exact h.of_groups (waitingOf_same hg rfl)
  · exact h

theorem Kept.openGroup (h : Kept hand s) (hg : s.groups.get? s.groupCounter = none) (c : String) (now duration : ℚ) :
    Kept hand (s.openGroup c now duration) := by
  refine h.of_eq rfl rfl (fun _ ↦ rfl) ?_ rfl rfl rfl rfl
  have hgroups : (s.openGroup c now duration).groups = s.groups.insert s.groupCounter (newGroup s c now duration) := rfl
  rw [hgroups, waitingOf_insert, waitingOf_of_none hg]
  exact zero_add _

end Settle

section Lengths

variable {s : FedCompass T} {updates : List (Update T)}

theorem lengths_of_mergeUpdate {acc acc' : Dict String T × List ℚ × List ℕ} {u : Update T}
    (h : mergeUpdate ops s acc u = .ok acc') :
    acc'.2.1.length = acc.2.1.length + 1 ∧ acc'.2.2.length = acc.2.2.length + 1 := by
  obtain ⟨_, _, h⟩ := bind_eq_ok h
  obtain ⟨w, _, h⟩ := bind_eq_ok h
  obtain ⟨state, _, h⟩ := bind_eq_ok h
  cases h
  exact ⟨List.length_append, List.length_append⟩

theorem lengths_of_mergeUpdates {acc acc' : Dict String T × List ℚ × List ℕ}
    (h : updates.foldlM (mergeUpdate ops s) acc = .ok acc') :
    acc'.2.1.length = acc.2.1.length + updates.length ∧ acc'.2.2.length = acc.2.2.length + updates.length := by
  induction updates generalizing acc with
  | nil =>
    cases h
    exact ⟨rfl, rfl⟩
  | cons u updates ih =>
    rw [List.foldlM_cons] at h
    obtain ⟨acc₁, hu, h⟩ := bind_eq_ok h
    obtain ⟨h₁, h₂⟩ := lengths_of_mergeUpdate hu
    obtain ⟨h₃, h₄⟩ := ih h
    rw [List.length_cons]
    omega

theorem lengths_of_merge {m : Dict String T × List ℚ × List ℕ} (h : merge ops s updates = .ok m) :
    m.2.1.length = updates.length ∧ m.2.2.length = updates.length := by
  obtain ⟨averaged, -, h⟩ := bind_eq_ok h
  obtain ⟨acc, hacc, h⟩ := bind_eq_ok h
  obtain ⟨_, -, h⟩ := bind_eq_ok h
  cases h
  obtain ⟨h₁, h₂⟩ := lengths_of_mergeUpdates hacc
  exact ⟨h₁.trans (Nat.zero_add _), h₂.trans (Nat.zero_add _)⟩

end Lengths

/-- The numbers of the groups are below the counter. -/
def Numbered (s : FedCompass T) : Prop := ∀ gid g, s.groups.get? gid = some g → gid < s.groupCounter

section Keeps

variable {s t : FedCompass T} {hand : Multiset ℕ} {now : ℚ} {gid : ℕ} {g : ArrivalGroup T} {c : String} {u : Update T}
  {loose : List String} {reason : String}

theorem Numbered.insert (h : Numbered s) (hg : gid < s.groupCounter) (ht : t.groups = s.groups.insert gid g)
    (hc : t.groupCounter = s.groupCounter) : Numbered t := by
  intro k g' hk
  rw [ht, Dict.get?_insert] at hk
  rw [hc]
  split_ifs at hk with he
  · exact he ▸ hg
  · exact h k g' hk

theorem Numbered.unused (h : Numbered s) : s.groups.get? s.groupCounter = none := by
  cases hg : s.groups.get? s.groupCounter with
  | none => rfl
  | some g => exact absurd (h _ g hg) (lt_irrefl _)

theorem assign_keeps (h : Kept hand s) (hn : Numbered s) :
    Method.Yields Any (assign c now) s fun _ t ↦ Kept hand t ∧ Numbered t := by
  refine .get_bind (.lift_bind (fun p hp ↦ ?_) fun _ _ ↦ trivial)
  obtain ⟨speed, steps, gid⟩ := p
  cases gid with
  | some gid =>
    refine .of_run rfl ⟨(h.join gid c).activate ?_, ?_⟩
    · rw [FedCompass.join]
      split <;> rfl
    · change Numbered (s.join gid c)
      rw [FedCompass.join]
      split
      · next g hg => exact hn.insert (hn gid g hg) rfl rfl
      · exact hn
  | none =>
    refine .of_run rfl ⟨(h.openGroup hn.unused c now _).activate rfl, fun k g hk ↦ ?_⟩
    have hk' : (s.groups.insert s.groupCounter (newGroup s c now (steps * speed))).get? k = some g := hk
    rw [Dict.get?_insert] at hk'
    split_ifs at hk' with he
    · exact he ▸ Nat.lt_succ_self _
    · exact Nat.lt_succ_of_lt (hn k g hk')

theorem release_keeps (h : Kept hand s) (hn : Numbered s) (arrived : List (Update T)) :
    Method.Yields Any (release arrived now) s fun _ t ↦ Kept hand t ∧ Numbered t := by
  refine .get_bind (.lift_bind (fun order _ ↦ ?_) fun _ _ ↦ trivial)
  exact .mapM (I := fun t ↦ Kept hand t ∧ Numbered t) (fun p _ t ht ↦ assign_keeps ht.1 ht.2) ⟨h, hn⟩

theorem aggregate_keeps {updates : List (Update T)} (h : Kept ↑(updates.map (·.serial)) s) (hn : Numbered s)
    (gid : Option ℕ) :
    Method.Yields Any (aggregate ops updates now gid reason) s fun _ t ↦ Kept 0 t ∧ Numbered t := by
  cases hm : merge ops s updates with
  | error e => exact .of_error (aggregate_of_error hm) trivial
  | ok m =>
    obtain ⟨hweights, hstale⟩ := lengths_of_merge hm
    obtain ⟨elapsed, t, ht, hrun⟩ := aggregate_of_ok now gid reason hm
    have hkept : Kept ↑(updates.map (·.serial)) t := by
      obtain rfl | rfl := ht
      · exact h
      · exact h.of_eq rfl rfl (fun _ ↦ rfl) rfl rfl rfl rfl rfl
    have hnum : Numbered t := by
      obtain rfl | rfl := ht
      · exact hn
      · exact hn
    obtain hrun | hrun := hrun
    · exact .of_run hrun ⟨hkept.discard, hnum⟩
    · exact .of_run hrun ⟨hkept.commit hweights hstale _ _ _ _, hnum⟩

theorem mergeGroup_keeps {arrived : List (Update T)} (h : Kept ↑(arrived.map (·.serial)) s) (hn : Numbered s)
    (hclients : (arrived.map (·.clientId)).Nodup)
    (hb : ∀ old ∈ heldOf s.buffer, ∀ w ∈ arrived, old.clientId = w.clientId →
      Before s.log w.clientId old.serial w.serial) (gid : ℕ) :
    Method.Yields Any (mergeGroup ops gid arrived now reason) s fun _ t ↦ Kept 0 t ∧ Numbered t := by
  refine .get_bind ?_
  have hcleared := (h.clearBuffer.of_hand ((heldOf s.buffer).map (·.serial) +
    ((arrived : Multiset (Update T)).map (·.serial) + 0)) (by rw [add_zero]; rfl)).absorb h.keyed hclients hb
  rw [absorb_clearBuffer, add_zero] at hcleared
  have hnum : Numbered { (absorb s s.buffer arrived).1 with buffer := Dict.empty } := by
    obtain ⟨⟨receipts, log, he, -⟩, -⟩ := absorb_frame s s.buffer arrived
    rw [he]
    exact hn
  generalize absorb s s.buffer arrived = p at hcleared hnum
  obtain ⟨s', merged⟩ := p
  dsimp only at hcleared hnum ⊢
  change Method.Yields Any (aggregate ops merged.values now (some gid) reason >>= _)
    { s' with buffer := Dict.empty } _
  refine (aggregate_keeps hcleared hnum (some gid)).bind fun b t ht ↦ ?_
  cases b with
  | true => exact release_keeps ht.1 ht.2 arrived
  | false => exact .pure ht

theorem close_keeps (h : Kept 0 s) (hn : Numbered s) (hg : s.groups.get? gid = some g)
    (hclients : (g.arrived.map (·.clientId)).Nodup) :
    Method.Yields Any (close ops gid now reason) s fun _ t ↦ Kept 0 t ∧ Numbered t := by
  have hitem : item s.groups gid (toString gid) = .ok g := by rw [item, hg]
  refine .get_bind ?_
  rw [hitem]
  refine .lift_bind (fun group hgroup ↦ ?_) fun _ _ ↦ trivial
  cases hgroup
  refine .modify_bind ?_
  have hclosed := h.closeGroup hg now reason
  rw [add_zero] at hclosed
  have hnum : Numbered (s.closeGroup gid g now reason) := hn.insert (hn gid g hg) rfl rfl
  split_ifs with hempty
  · rw [List.isEmpty_iff.mp hempty] at hclosed
    exact .pure ⟨hclosed, hnum⟩
  · refine mergeGroup_keeps hclosed hnum hclients (fun old ho w hw he ↦ ?_) gid
    exact h.order old ho w (mem_waitingOf.mpr ⟨gid, g, hg, hw⟩) he

theorem late_keeps (h : Kept {u.serial} s) (hn : Numbered s) (hlog : .received u.serial u.clientId ∈ s.log)
    (hw : ∀ w ∈ waitingOf s.groups, u.clientId ≠ w.clientId)
    (hb : ∀ old ∈ heldOf s.buffer, old.clientId = u.clientId → Before s.log u.clientId old.serial u.serial) :
    Method.Yields Any (late u now) s fun _ t ↦ Kept 0 t ∧ Numbered t := by
  refine .modify_bind ?_
  have hnum : Numbered (s.bufferLate u) := by
    obtain ⟨receipts, log, -, he⟩ := bufferLate_frame s u
    rw [he]
    exact hn
  exact (assign_keeps (h.bufferLate hlog hw hb) hnum).bind fun job t ht ↦ .pure ht

theorem Good.numbered (h : Good loose now s) : Numbered s := h.placed.fresh

/-- Nobody who is in flight waits in a group. -/
theorem Good.not_waiting (h : Good loose now s) (hj : s.active.get? u.clientId = some u.assignment) :
    ∀ w ∈ waitingOf s.groups, u.clientId ≠ w.clientId := by
  intro w hw he
  obtain ⟨gid, g, hg, hw⟩ := mem_waitingOf.mp hw
  have hnone := h.placed.arrived_active gid w (groupAt_of_some hg ▸ hw)
  rw [← he, hj] at hnone
  cases hnone

theorem log_arrive (s : FedCompass T) (u : Update T) (now : ℚ) :
    .received u.serial u.clientId ∈ (s.arrive u now).log :=
  List.mem_append_right _ List.mem_cons_self

theorem arriveInGroup_keeps (h : Good loose now s) (hk : Kept 0 s)
    (hj : s.active.get? u.clientId = some u.assignment) (hu : Mergeable s u) (hg : u.assignment.groupId = some gid)
    (hgroup : s.groups.get? gid = some g) :
    Method.Yields Any (arriveInGroup ops u gid g now) (s.arrive u now) fun _ t ↦ Kept 0 t ∧ Numbered t := by
  have hkept : Kept {u.serial} (s.arrive u now) := hk.arrive hj
  have hgroup' : (s.arrive u now).groups.get? gid = some g := hgroup
  have hbefore : ∀ old ∈ heldOf s.buffer, old.clientId = u.clientId →
      Before (s.arrive u now).log u.clientId old.serial u.serial := fun old ho he ↦ hk.before_arrived now ho he
  have hnum : Numbered s := h.numbered
  have hpending : u.clientId ∈ g.pending :=
    groupAt_of_some hgroup ▸ (h.placed.pending gid u.clientId).mpr ⟨_, hj, hg⟩
  rw [arriveInGroup]
  by_cases hlate : g.closed ∨ g.deadline < now
  · rw [if_pos hlate]
    refine .modify_bind (late_keeps ?_ ?_ (log_arrive s u now) ?_ hbefore)
    · exact hkept.of_groups (waitingOf_same hgroup' rfl)
    · exact hnum.insert (hnum gid g hgroup) rfl rfl
    · have hsame : waitingOf ((s.arrive u now).leave gid g u.clientId).groups = waitingOf s.groups :=
        waitingOf_same hgroup rfl
      rw [hsame]
      exact h.not_waiting hj
  · rw [if_neg hlate, if_neg (not_not.mpr hpending)]
    refine .modify_bind ?_
    have ho : g.closed = false := by simpa using (not_or.mp hlate).1
    have hwaits : Kept 0 ((s.arrive u now).wait gid g u) :=
      (hkept.of_hand ({u.serial} + 0) (add_zero _)).wait hgroup' (log_arrive s u now) hbefore
    have hnum' : Numbered ((s.arrive u now).wait gid g u) := hnum.insert (hnum gid g hgroup) rfl rfl
    have hget : ((s.arrive u now).wait gid g u).groups.get? gid =
        some { g with pending := g.pending.erase u.clientId, arrived := g.arrived ++ [u] } :=
      (Dict.get?_insert ..).trans (if_pos rfl)
    split_ifs
    · refine close_keeps hwaits hnum' hget ?_
      exact groupAt_of_some hget ▸ (h.waits hj hu hg hgroup ho).placed.arrived_nodup gid
    · exact .pure ⟨hwaits, hnum'⟩

theorem accept_keeps (h : Good loose now s) (hk : Kept 0 s) (hj : s.active.get? u.clientId = some u.assignment)
    (hu : Mergeable s u) : Method.Yields Any (accept ops u now) s fun _ t ↦ Kept 0 t ∧ Numbered t := by
  refine .modify_bind ?_
  cases hg : u.assignment.groupId with
  | none =>
    have hone : Kept ↑([u].map (·.serial)) (s.arrive u now) := hk.arrive hj
    refine (aggregate_keeps hone h.numbered none).bind fun b t ht ↦ ?_
    cases b with
    | true => exact (assign_keeps ht.1 ht.2).bind fun job r hr ↦ .pure hr
    | false => exact .pure ht
  | some gid =>
    obtain ⟨g, hgroup, -⟩ := h.placed.group_of_job hj hg
    have hgroup' : (s.arrive u now).groups.get? gid = some g := hgroup
    refine .get_bind ?_
    rw [hgroup']
    exact arriveInGroup_keeps h hk hj hu hg hgroup

theorem closeDue_keeps (h : Good loose now s) (hk : Kept 0 s) (gid : ℕ) :
    Method.Yields Any (closeDue ops gid now) s fun _ t ↦ Kept 0 t ∧ Numbered t := by
  refine .get_bind ?_
  cases hg : s.groups.get? gid with
  | none => exact .pure ⟨hk, h.numbered⟩
  | some g =>
    dsimp only
    split_ifs
    · exact close_keeps hk h.numbered hg (groupAt_of_some hg ▸ h.placed.arrived_nodup gid)
    · exact .pure ⟨hk, h.numbered⟩

theorem Kept.popDone (hk : Kept 0 s) (h : Good loose now s) (gid : ℕ) : Kept 0 (s.popDone gid) := by
  rw [FedCompass.popDone]
  split
  · next g hg =>
    split_ifs with hdone
    · have harrived : g.arrived = [] := groupAt_of_some hg ▸ h.placed.closed gid (groupAt_of_some hg ▸ hdone.1)
      refine hk.of_groups ?_
      rw [waitingOf_of_some hg, harrived]
      exact (zero_add _).symm
    · exact hk
  · exact hk

theorem expireGroups_keeps (h : Good loose now s) (hk : Kept 0 s) (maxVersion : Option ℕ) (gids : List ℕ) :
    Method.Yields Any (expireGroups ops now maxVersion gids) s fun _ t ↦ Kept 0 t := by
  induction gids generalizing s loose with
  | nil => exact .pure hk
  | cons gid gids ih =>
    have hover : Method.Yields Any overBudget s fun _ t ↦ Kept 0 t := by
      refine .get_bind ?_
      split
      · refine .get_bind (.modify_bind ?_)
        exact .pure (hk.of_eq rfl rfl (fun _ ↦ rfl) rfl rfl rfl rfl rfl)
      · exact .pure hk
    refine (hover.and (overBudget_yields h)).bind fun spent t ht ↦ ?_
    obtain ⟨hkept, -, hgood⟩ := ht
    split_ifs
    · exact .pure hkept
    · refine .get_bind ?_
      split_ifs
      · exact .pure hkept
      · refine ((closeDue_keeps hgood hkept gid).and (closeDue_yields hgood gid)).bind fun released r hr ↦ ?_
        obtain ⟨⟨hkept', -⟩, -, loose', hr, -⟩ := hr
        refine .modify_bind ?_
        exact (ih (hr.popDone gid) (hkept'.popDone hr gid)).bind fun rest w hw ↦ .pure hw

theorem Kept.dispatch (h : Kept 0 s) (cid : String) : Kept 0 (dispatch s cid now) := by
  rw [Compass.dispatch]
  cases hj : s.active.get? cid with
  | none => exact h
  | some job =>
    dsimp only
    have hget : ∀ c job', (s.active.insert cid { job with modelVersion := s.version, started := now }).get? c =
        some job' → ∃ job₀, s.active.get? c = some job₀ ∧ job₀.serial = job'.serial := by
      intro c job' hc
      rw [Dict.get?_insert] at hc
      split_ifs at hc with he
      · cases hc
        exact ⟨job, he ▸ hj, rfl⟩
      · exact ⟨job', hc, rfl⟩
    refine { h with active := fun c job' hc ↦ ?_, active_inj := fun c c' job₁ job₂ h₁ h₂ he ↦ ?_ }
    · obtain ⟨job₀, hc₀, he⟩ := hget c job' hc
      exact he ▸ h.active c job₀ hc₀
    · obtain ⟨j₁, hj₁, e₁⟩ := hget c job₁ h₁
      obtain ⟨j₂, hj₂, e₂⟩ := hget c' job₂ h₂
      exact h.active_inj c c' j₁ j₂ hj₁ hj₂ (e₁.trans (he.trans e₂.symm))

theorem Kept.start (h : Kept 0 s) : Kept 0 { s with
    active := Dict.ofList ((initialJobs s now).map fun job : Assignment ↦ (job.clientId, job))
    serials := s.serials + (initialJobs s now).length } := by
  have hjobs : ∀ c job, (Dict.ofList ((initialJobs s now).map fun job : Assignment ↦ (job.clientId, job))).get? c =
      some job → job.clientId = c ∧ ∃ i, ∃ hi : i < (initialJobs s now).length, (initialJobs s now)[i] = job ∧
        job.serial = s.serials + i := by
    intro c job hc
    obtain ⟨job', hj', he⟩ := List.mem_map.mp (Dict.mem_of_get?_ofList hc)
    cases he
    obtain ⟨i, hi, rfl⟩ := List.mem_iff_getElem.mp hj'
    refine ⟨rfl, i, hi, rfl, ?_⟩
    simp [initialJobs]
  refine
    { h with
      active := fun c job hc ↦ ?_
      active_inj := fun c c' job job' hc hc' he ↦ ?_
      bound := fun n hn ↦ (h.bound n hn).trans_le (Nat.le_add_right _ _) }
  · obtain ⟨-, i, hi, -, hserial⟩ := hjobs c job hc
    refine ⟨fun hm ↦ ?_, ?_⟩
    · have hlt := h.bound _ hm
      omega
    · rw [hserial]
      exact Nat.add_lt_add_left hi _
  · obtain ⟨rfl, i, hi, hget, hserial⟩ := hjobs c job hc
    obtain ⟨rfl, i', hi', hget', hserial'⟩ := hjobs c' job' hc'
    have hii : i = i' := by omega
    subst hii
    rw [← hget, ← hget']

end Keeps

/-! ### Runs -/

/-- Where an update of a fate is. -/
def Fate.Holds (s : FedCompass T) (n : ℕ) : Fate → Prop
  | .lateBuffer => ∃ c u, s.buffer.get? c = some u ∧ u.serial = n
  | .waiting => ∃ gid g, s.groups.get? gid = some g ∧ g.closed = false ∧ ∃ u ∈ g.arrived, u.serial = n
  | .superseded => ∃ m c, .superseded n m ∈ s.log ∧ Before s.log c n m
  | .aggregated => ∃ r ∈ s.aggregations, n ∈ r.serials
  | .discarded => ∃ serials, .discarded serials ∈ s.log ∧ n ∈ serials
  | .unaggregated => ∃ serials, .stopped serials ∈ s.log ∧ n ∈ serials

structure Conserved (s : FedCompass T) : Prop where
  version : s.version = s.aggregations.length
  once : (s.aggregations.flatMap (·.serials)).Nodup
  buffer : ∀ c u, s.buffer.get? c = some u → u.clientId = c
  received_once : (s.log.flatMap Happening.delivered).Nodup
  received : ∀ f n, Fate.Holds s n f → ∃ c, .received n c ∈ s.log
  fate : ∀ n c, .received n c ∈ s.log → ∃ status, s.receipts.get? n = some status ∧
    status.fate.Holds s n ∧ ∀ f, Fate.Holds s n f → f = status.fate

section Runs

variable {s : FedCompass T} {loose : List String} {now : ℚ} {n : ℕ}

theorem Kept.mem_under_iff (h : Kept 0 s) (hp : Placed loose now s) (f : Fate) : n ∈ s.under f ↔ f.Holds s n := by
  cases f with
  | lateBuffer =>
    rw [FedCompass.under, Fate.Holds, Multiset.mem_map]
    constructor
    · rintro ⟨u, hu, hn⟩
      obtain ⟨c, hc⟩ := s.buffer.mem_values_iff.mp hu
      exact ⟨c, u, hc, hn⟩
    · rintro ⟨c, u, hc, hn⟩
      exact ⟨u, s.buffer.mem_values_iff.mpr ⟨c, hc⟩, hn⟩
  | waiting =>
    rw [FedCompass.under, Fate.Holds, Multiset.mem_map]
    constructor
    · rintro ⟨u, hu, hn⟩
      obtain ⟨gid, g, hg, hu⟩ := mem_waitingOf.mp hu
      refine ⟨gid, g, hg, ?_, u, hu, hn⟩
      by_contra hc
      have harrived := hp.closed gid (groupAt_of_some hg ▸ by simpa using hc)
      rw [groupAt_of_some hg] at harrived
      rw [harrived] at hu
      cases hu
    · rintro ⟨gid, g, hg, -, u, hu, hn⟩
      exact ⟨u, mem_waitingOf.mpr ⟨gid, g, hg, hu⟩, hn⟩
  | superseded =>
    rw [Fate.Holds]
    refine mem_logged.trans ⟨?_, ?_⟩
    · rintro ⟨what, hw, hn⟩
      cases what with
      | superseded k m =>
        obtain rfl := List.mem_singleton.mp hn
        obtain ⟨c, hc⟩ := h.later n m hw
        exact ⟨m, c, hw, hc⟩
      | _ => cases hn
    · rintro ⟨m, c, hw, -⟩
      exact ⟨_, hw, List.mem_singleton_self n⟩
  | aggregated => exact List.mem_flatMap
  | discarded =>
    rw [Fate.Holds]
    refine mem_logged.trans ⟨?_, ?_⟩
    · rintro ⟨what, hw, hn⟩
      cases what with
      | discarded serials => exact ⟨serials, hw, hn⟩
      | _ => cases hn
    · rintro ⟨serials, hw, hn⟩
      exact ⟨_, hw, hn⟩
  | unaggregated =>
    rw [Fate.Holds]
    refine mem_logged.trans ⟨?_, ?_⟩
    · rintro ⟨what, hw, hn⟩
      cases what with
      | stopped serials => exact ⟨serials, hw, hn⟩
      | _ => cases hn
    · rintro ⟨serials, hw, hn⟩
      exact ⟨_, hw, hn⟩

/-- No update has two fates. -/
theorem Kept.fate_unique (h : Kept 0 s) {f f' : Fate} (hf : n ∈ s.under f) (hf' : n ∈ s.under f') : f = f' := by
  have hone := Multiset.nodup_iff_count_le_one.mp h.nodup n
  rw [← h.total, zero_add] at hone
  simp only [FedCompass.accounted, Multiset.count_add] at hone
  rw [← Multiset.one_le_count_iff_mem] at hf hf'
  cases f <;> cases f' <;> first | rfl | omega

theorem Kept.accounted_for (h : Kept 0 s) (hp : Placed loose now s) : Conserved s where
  version := h.version
  once := by
    have hacc : s.accounted.Nodup := by
      rw [← zero_add s.accounted, h.total]
      exact h.nodup
    have hle : s.under .aggregated ≤ s.accounted := by
      rw [FedCompass.accounted]
      exact (Multiset.le_add_left _ _).trans ((Multiset.le_add_right _ _).trans (Multiset.le_add_right _ _))
    exact Multiset.coe_nodup.mp (Multiset.nodup_of_le hle hacc)
  buffer := h.keyed
  received_once := Multiset.coe_nodup.mp h.nodup
  received f n hf := by
    refine mem_received.mp ?_
    rw [← h.total, zero_add]
    exact mem_accounted.mpr ⟨f, (h.mem_under_iff hp f).mpr hf⟩
  fate n c hc := by
    have hn : n ∈ s.received := mem_received.mpr ⟨c, hc⟩
    rw [← h.total, zero_add] at hn
    obtain ⟨f, hf⟩ := mem_accounted.mp hn
    obtain ⟨status, hs, rfl⟩ := h.status f n hf
    refine ⟨status, hs, (h.mem_under_iff hp _).mp hf, fun f' hf' ↦ ?_⟩
    exact h.fate_unique ((h.mem_under_iff hp f').mpr hf') hf

theorem perform_keeps {start : FedCompass T} {p : FedCompass T × ℚ} (h : Invariant start p) (hk : Kept 0 p.1)
    {e : Event T} (ht : p.2 ≤ e.time) (hh : headChecks ops p.1 e = .ok ()) :
    Method.Yields Any (perform ops e) p.1 fun _ t ↦ Kept 0 t := by
  obtain ⟨loose, hgood, -⟩ := h
  have hgood := hgood.later ht
  cases e with
  | start now =>
    obtain ⟨ha, hv⟩ := of_require hh
    refine .get_bind ?_
    rw [if_neg (by simp [ha, hv])]
    exact .of_run rfl hk.start
  | receive u now =>
    obtain ⟨hj, hu⟩ := hgood.mergeable hh
    refine .congr (receive_of_ok hh) ?_
    exact (accept_keeps hgood hk hj hu).mono fun jobs t ht ↦ ht.1
  | expire maxVersion now => exact expireGroups_keeps hgood hk maxVersion p.1.groups.keys
  | dispatch cid now => exact .modify_bind (.pure (hk.dispatch cid))
  | stop now => exact .modify_bind (.pure hk.stop)

theorem next_keeps {start : FedCompass T} {p q : FedCompass T × ℚ} (h : Invariant start p) (hk : Kept 0 p.1)
    {e : Event T} (ha : Undisturbed ops p e) (hq : next ops p e = some q) : Kept 0 q.1 := by
  cases hq
  obtain ⟨ht, hf⟩ := ha
  rw [Method.after]
  cases hh : headChecks ops p.1 e with
  | error err =>
    rw [headChecks_of_error hh]
    exact hk
  | ok _ =>
    have hy := perform_keeps h hk ht hh
    cases hrun : (perform ops e).run p.1 with
    | ok jobs t => exact hy.of_ok hrun
    | error err t => exact absurd ⟨hh, err, t, hrun⟩ hf

theorem kept_create (model : Dict String T) (parameterNames : List String) (config : FedCompassConfig)
    (timing : Timing) (partitionSizes : Dict String ℕ) :
    Kept 0 (FedCompass.create model parameterNames config timing partitionSizes) where
  total := rfl
  nodup := Multiset.nodup_zero
  status f n hn := by cases f <;> cases hn
  active c job hc := by cases hc
  active_inj c c' job job' hc := by cases hc
  bound n hn := by cases hn
  keyed c u hc := by cases hc
  buffered u hu := by cases hu
  waiting u hu := by cases hu
  order old ho := by cases ho
  later n m hm := by cases hm
  version := rfl

/-- Every update that was received has exactly one fate, the one its receipt tells, and none is merged twice. -/
theorem receipts_conserved (ops : Torch T) (model : Dict String T) (parameterNames : List String)
    (config : FedCompassConfig) (timing : Timing) (partitionSizes : Dict String ℕ) (t₀ : ℚ)
    (hn : ∀ n ∈ parameterNames, n ∈ model.keys) {p : FedCompass T × ℚ}
    (h : Reaches (next ops) (Undisturbed ops) (.create model parameterNames config timing partitionSizes, t₀) p) :
    Conserved p.1 := by
  set start : FedCompass T := .create model parameterNames config timing partitionSizes with hs
  have hstart : Fresh start := ⟨rfl, rfl⟩
  have h₀ : Invariant start (start, t₀) :=
    ⟨_, good_idle (s := start) rfl rfl rfl (fun c v hv ↦ by cases hv) hn, .inr (.inr (.inr rfl))⟩
  have hkept₀ : Kept 0 start := kept_create model parameterNames config timing partitionSizes
  have hinv : Invariant start p ∧ Kept 0 p.1 := by
    refine h.invariant (P := fun q ↦ Invariant start q ∧ Kept 0 q.1) ⟨h₀, hkept₀⟩ fun q e r hq ha hr ↦ ?_
    exact ⟨next_invariant hstart hq.1 ha hr, next_keeps hq.1 hq.2 ha hr⟩
  obtain ⟨⟨loose, hgood, -⟩, hkept⟩ := hinv
  exact hkept.accounted_for hgood.placed

theorem receipts_conserved_first : Conserved (afterFirst 0 1).1 := by
  refine receipts_conserved single (scalar 0) ["weight"] singleConfig .events (Dict.ofList [("a", 1)]) 0 (by decide)
    (p := afterFirst 0 1) ?_
  refine .next (.receive (firstUpdate 0 1) 1) (.next (.start 0) .start ⟨by decide, ?_⟩ rfl) ⟨by decide, ?_⟩ rfl
  · exact not_fails_of_returned (by decide +kernel)
  · exact not_fails_of_returned (by decide +kernel)

/-- The merged state overflows: the update is nowhere any more and its receipt says nothing. -/
theorem overflow_loses_update :
    Reaches (next single) Timely (alone, 0) (afterFirst (2 ^ 127) (-2 ^ 127)) ∧
      .received 0 "a" ∈ (afterFirst (2 ^ 127) (-2 ^ 127)).1.log ∧
      (afterFirst (2 ^ 127) (-2 ^ 127)).1.receipts.get? 0 = none ∧
      ∀ f, ¬ Fate.Holds (afterFirst (2 ^ 127) (-2 ^ 127)).1 0 f := by
  have hlog : (afterFirst (2 ^ 127) (-2 ^ 127)).1.log = [.received 0 "a"] := by decide +kernel
  have hbuffer : (afterFirst (2 ^ 127) (-2 ^ 127)).1.buffer.keys = [] := by decide +kernel
  have hgroups : (afterFirst (2 ^ 127) (-2 ^ 127)).1.groups.keys = [] := by decide +kernel
  have hmerged : (afterFirst (2 ^ 127) (-2 ^ 127)).1.aggregations.length = 0 := by decide +kernel
  have hreceipts : (afterFirst (2 ^ 127) (-2 ^ 127)).1.receipts.keys = [] := by decide +kernel
  refine ⟨?_, hlog ▸ List.mem_singleton_self _, ?_, fun f ↦ ?_⟩
  · have hstart : Timely (alone, 0) (.start 0) := le_refl (0 : ℚ)
    have hlater : (0 : ℚ) ≤ 1 := zero_le_one
    exact .next (.receive (firstUpdate (2 ^ 127) (-2 ^ 127)) 1) (.next (.start 0) .start hstart rfl) hlater rfl
  · rw [Dict.get?_eq_none_iff, hreceipts]
    exact List.not_mem_nil
  · cases f with
    | lateBuffer =>
      rintro ⟨c, u, hc, -⟩
      have hk := (Dict.mem_keys_iff _).mpr ⟨u, hc⟩
      rw [hbuffer] at hk
      cases hk
    | waiting =>
      rintro ⟨gid, g, hg, -⟩
      have hk := (Dict.mem_keys_iff _).mpr ⟨g, hg⟩
      rw [hgroups] at hk
      cases hk
    | aggregated =>
      rintro ⟨r, hr, -⟩
      rw [List.length_eq_zero_iff.mp hmerged] at hr
      cases hr
    | superseded =>
      rintro ⟨m, c, hm, -⟩
      simp [hlog] at hm
    | discarded =>
      rintro ⟨serials, hm, -⟩
      simp [hlog] at hm
    | unaggregated =>
      rintro ⟨serials, hm, -⟩
      simp [hlog] at hm

end Runs

end SplitFleet.Compass
