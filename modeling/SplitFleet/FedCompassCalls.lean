import SplitFleet.FedCompassSchedule

set_option autoImplicit false

namespace SplitFleet.Compass

open Lib

variable {T : Type} {ops : Torch T}

/-- A step that only gives out assignments. -/
structure OnlyAssigns (s t : FedCompass T) : Prop where
  model : t.model = s.model
  parameterNames : t.parameterNames = s.parameterNames
  partitionSizes : t.partitionSizes = s.partitionSizes
  speeds : t.speeds = s.speeds
  version : t.version = s.version
  buffer : t.buffer = s.buffer
  receipts : t.receipts = s.receipts
  aggregations : t.aggregations = s.aggregations
  log : t.log = s.log
  serials : s.serials ≤ t.serials
  arrived : ∀ gid, (t.groupAt gid).arrived = (s.groupAt gid).arrived

section Frame

variable {r s t : FedCompass T} {loose : List String} {now : ℚ} {c : String} {u : Update T}

theorem OnlyAssigns.refl (s : FedCompass T) : OnlyAssigns s s :=
  ⟨rfl, rfl, rfl, rfl, rfl, rfl, rfl, rfl, rfl, le_rfl, fun _ ↦ rfl⟩

theorem OnlyAssigns.trans (h : OnlyAssigns r s) (h' : OnlyAssigns s t) : OnlyAssigns r t where
  model := h'.model.trans h.model
  parameterNames := h'.parameterNames.trans h.parameterNames
  partitionSizes := h'.partitionSizes.trans h.partitionSizes
  speeds := h'.speeds.trans h.speeds
  version := h'.version.trans h.version
  buffer := h'.buffer.trans h.buffer
  receipts := h'.receipts.trans h.receipts
  aggregations := h'.aggregations.trans h.aggregations
  log := h'.log.trans h.log
  serials := h.serials.trans h'.serials
  arrived gid := (h'.arrived gid).trans (h.arrived gid)

theorem Assigned.onlyAssigns (h : Placed loose now s) (ha : Assigned c now s t) : OnlyAssigns s t := by
  cases ha with
  | joined gid steps ho _ _ =>
    rw [join_of_open ho]
    refine ⟨rfl, rfl, rfl, rfl, rfl, rfl, rfl, rfl, rfl, Nat.le_succ _, fun k ↦ ?_⟩
    rw [groupAt_insert (s := s) gid { s.groupAt gid with pending := (s.groupAt gid).pending.insert c } rfl]
    split_ifs with hk
    · rw [hk]
    · rfl
  | opened steps duration _ _ =>
    refine ⟨rfl, rfl, rfl, rfl, rfl, rfl, rfl, rfl, rfl, Nat.le_succ _, fun k ↦ ?_⟩
    rw [groupAt_insert (s := s) s.groupCounter (newGroup s c now duration) rfl]
    split_ifs with hk
    · have hnone : s.groups.get? s.groupCounter = none := by
        cases hg : s.groups.get? s.groupCounter with
        | none => rfl
        | some g => exact absurd (h.fresh _ g hg) (lt_irrefl _)
      rw [← hk, groupAt_of_none hnone]
      rfl
    · rfl

theorem SameSchedule.of_eq (hc : t.config = s.config) (hp : t.partitionSizes = s.partitionSizes)
    (hs : t.speeds = s.speeds) (ha : t.active = s.active) (hg : t.groups = s.groups)
    (hn : t.groupCounter = s.groupCounter) (hv : s.version ≤ t.version) : SameSchedule s t where
  config := hc
  partitionSizes := hp
  speeds c := by rw [hs]
  active c := by rw [ha]
  groups gid := by rw [hg]
  groupCounter := hn
  version := hv

theorem Mergeable.of_same (h : Mergeable s u) (hs : t.partitionSizes = s.partitionSizes)
    (hk : ∀ n, n ∈ t.model.keys ↔ n ∈ s.model.keys) (hv : s.version ≤ t.version) : Mergeable t u where
  known := hs ▸ h.known
  base n hn := h.base n ((hk n).mp hn)
  trained n hn := h.trained n ((hk n).mp hn)
  version := h.version.trans hv

/-- Between two calls, or within one: where the clients are, and every update that is held can be merged. -/
structure Good (loose : List String) (now : ℚ) (s : FedCompass T) : Prop where
  placed : Placed loose now s
  alive : Alive now s
  names : ∀ n ∈ s.parameterNames, n ∈ s.model.keys
  buffered : ∀ u ∈ s.buffer.values, Mergeable s u
  arrived : ∀ gid, ∀ u ∈ (s.groupAt gid).arrived, Mergeable s u

theorem Good.perm (h : Good loose now s) {loose' : List String} (hp : loose'.Perm loose) : Good loose' now s :=
  { h with placed := h.placed.perm hp }

theorem Good.later (h : Good loose now s) {now' : ℚ} (hn : now ≤ now') : Good loose now' s :=
  { h with placed := h.placed.later hn, alive := h.alive.later hn }

theorem Good.of_same (h : Good loose now s) (hs : SameSchedule s t) (hn : t.parameterNames = s.parameterNames)
    (hk : ∀ n, n ∈ t.model.keys ↔ n ∈ s.model.keys) (hb : ∀ u ∈ t.buffer.values, Mergeable s u) : Good loose now t where
  placed := h.placed.of_same hs
  alive := h.alive.of_same hs
  names n := by
    rw [hn, hk]
    exact h.names n
  buffered u hu := (hb u hu).of_same hs.partitionSizes hk hs.version
  arrived gid u hu := (h.arrived gid u (hs.groupAt gid ▸ hu)).of_same hs.partitionSizes hk hs.version

theorem Good.assigned (h : Good (c :: loose) now s) {v : ℚ} (hv : s.speeds.get? c = some v) (hver : s.version ≠ 0)
    (ha : Assigned c now s t) : Good loose now t := by
  have ho := ha.onlyAssigns h.placed
  have hkeys : ∀ n, n ∈ t.model.keys ↔ n ∈ s.model.keys := fun n ↦ by rw [ho.model]
  refine ⟨h.placed.assigned hv hver ha, h.alive.assigned ha, ?_, fun u hu ↦ ?_, fun gid u hu ↦ ?_⟩
  · rw [ho.parameterNames, ho.model]
    exact h.names
  · exact (h.buffered u (ho.buffer ▸ hu)).of_same ho.partitionSizes hkeys ho.version.ge
  · exact (h.arrived gid u (ho.arrived gid ▸ hu)).of_same ho.partitionSizes hkeys ho.version.ge

end Frame

/-- What a call leaves: the clients are where they were, or the budget is over. -/
def Settled (loose : List String) (now : ℚ) (s t : FedCompass T) : Prop :=
  s.log <+: t.log ∧ ∃ loose', Good loose' now t ∧ (loose' = loose ∨ Aborted t)

section Settled

variable {r s t : FedCompass T} {loose : List String} {now : ℚ}

theorem Aborted.mono (h : Aborted s) (hl : s.log <+: t.log) : Aborted t := h.imp fun _ hs ↦ hl.subset hs

theorem Good.settled (h : Good loose now t) (hl : s.log <+: t.log) : Settled loose now s t :=
  ⟨hl, loose, h, .inl rfl⟩

theorem Settled.of_prefix (hl : r.log <+: s.log) (h : Settled loose now s t) : Settled loose now r t :=
  ⟨hl.trans h.1, h.2⟩

end Settled

section Assign

variable {s t : FedCompass T} {loose : List String} {now : ℚ} {c : String}

theorem assign_yields (h : Good (c :: loose) now s) {v : ℚ} (hv : s.speeds.get? c = some v) (hver : s.version ≠ 0) :
    Method.Yields CheckError (assign c now) s fun _ t ↦ OnlyAssigns s t ∧ Good loose now t := by
  obtain ⟨job, t, hrun, ha⟩ := assign_run h.placed h.alive hv
  exact .of_run hrun ⟨ha.onlyAssigns h.placed, h.assigned hv hver ha⟩

/-- The clients of a list get assignments one after the other. -/
theorem assigns_yields {l : List (ℚ × Update T)} (h : Good (l.map (·.2.clientId) ++ loose) now s)
    (hv : ∀ p ∈ l, ∃ v, s.speeds.get? p.2.clientId = some v) (hver : s.version ≠ 0) :
    Method.Yields CheckError (l.mapM fun p ↦ assign p.2.clientId now) s fun _ t ↦ OnlyAssigns s t ∧ Good loose now t := by
  induction l generalizing s with
  | nil => exact .of_run (Method.run_mapM_nil _ s) ⟨.refl s, h⟩
  | cons p l ih =>
    obtain ⟨v, hp⟩ := hv p List.mem_cons_self
    rw [List.mapM_cons]
    refine (assign_yields h hp hver).bind fun job t ht ↦ ?_
    have hrest : ∀ q ∈ l, ∃ v, t.speeds.get? q.2.clientId = some v := fun q hq ↦
      ht.1.speeds ▸ hv q (List.mem_cons_of_mem p hq)
    refine (ih ht.2 hrest (ht.1.version ▸ hver)).bind fun jobs r hr ↦ ?_
    exact .pure ⟨ht.1.trans hr.1, hr.2⟩

theorem bySpeed_ok {arrived : List (Update T)} (hv : ∀ u ∈ arrived, ∃ v, s.speeds.get? u.clientId = some v) :
    ∃ order, bySpeed s arrived = .ok order ∧ (order.map Prod.snd).Perm arrived := by
  have hkeyed : ∃ keyed, (arrived.mapM fun u ↦ do
      let speed ← speedOf s u.clientId
      return (speed, u) : Except PyError (List (ℚ × Update T))) = .ok keyed := by
    rw [exists_mapM_ok_iff]
    intro u hu
    obtain ⟨v, hv⟩ := hv u hu
    have hspeed : speedOf s u.clientId = .ok v := by rw [speedOf, item, hv]
    rw [hspeed]
    exact ⟨_, rfl⟩
  obtain ⟨keyed, hk⟩ := hkeyed
  refine ⟨sortedBy Prod.fst keyed, ?_, ?_⟩
  · rw [bySpeed, hk]
    rfl
  · have hsnd : keyed.map Prod.snd = arrived := by
      have hall := mapM_eq_ok_iff.mp hk
      clear hk hv
      induction hall with
      | nil => rfl
      | cons hp _ ih =>
        obtain ⟨_, _, hp⟩ := bind_eq_ok hp
        cases hp
        rw [List.map_cons, ih]
    exact hsnd ▸ (sortedBy_perm Prod.fst keyed).map Prod.snd

theorem release_yields {arrived : List (Update T)} (h : Good (arrived.map (·.clientId) ++ loose) now s)
    (hv : ∀ u ∈ arrived, ∃ v, s.speeds.get? u.clientId = some v) (hver : s.version ≠ 0) :
    Method.Yields CheckError (release arrived now) s fun _ t ↦ OnlyAssigns s t ∧ Good loose now t := by
  obtain ⟨order, ho, hperm⟩ := bySpeed_ok hv
  refine .get_bind ?_
  rw [ho]
  have hclients : (order.map (·.2.clientId)).Perm (arrived.map (·.clientId)) := by
    have := hperm.map Update.clientId
    rwa [List.map_map] at this
  have hmem : ∀ p ∈ order, p.2 ∈ arrived := fun p hp ↦ hperm.mem_iff.mp (List.mem_map_of_mem hp)
  exact assigns_yields (h.perm (hclients.append_right loose)) (fun p hp ↦ hv p.2 (hmem p hp)) hver

end Assign

section Close

variable {s t : FedCompass T} {loose : List String} {now : ℚ} {reason : String}

theorem aggregate_yields (h : Good loose now s) {updates : List (Update T)} (hu : ∀ u ∈ updates, Mergeable s u)
    (gid : Option ℕ) : Method.Yields CheckError (aggregate ops updates now gid reason) s fun b t ↦
      s.log <+: t.log ∧ Good loose now t ∧ t.speeds = s.speeds ∧ (b = true → t.version ≠ 0) ∧
      (b = false → Aborted t) := by
  cases hm : merge ops s updates with
  | error e => exact .of_error (aggregate_of_error hm) (checkError_of_merge h.names hu hm)
  | ok m =>
    obtain ⟨elapsed, t, ht, hrun | hrun⟩ := aggregate_of_ok now gid reason hm
    · refine .of_run hrun ⟨?_, ?_, ?_, by simp, fun _ ↦ ⟨updates.map (·.serial), ?_⟩⟩
      · obtain rfl | rfl := ht <;> exact List.prefix_append _ _
      · refine h.of_same ?_ ?_ ?_ ?_ <;> obtain rfl | rfl := ht
        · exact .of_eq rfl rfl rfl rfl rfl rfl le_rfl
        · exact .of_eq rfl rfl rfl rfl rfl rfl le_rfl
        · rfl
        · rfl
        · exact fun n ↦ Iff.rfl
        · exact fun n ↦ Iff.rfl
        · exact h.buffered
        · exact h.buffered
      · obtain rfl | rfl := ht <;> rfl
      · exact List.mem_append_right _ List.mem_cons_self
    · have hkeys := keys_of_merge hm
      refine .of_run hrun ⟨?_, ?_, ?_, fun _ ↦ Nat.succ_ne_zero _, by simp⟩
      · obtain rfl | rfl := ht <;> exact List.prefix_rfl
      · refine h.of_same ?_ ?_ hkeys ?_ <;> obtain rfl | rfl := ht
        · exact .of_eq rfl rfl rfl rfl rfl rfl (Nat.le_succ _)
        · exact .of_eq rfl rfl rfl rfl rfl rfl (Nat.le_succ _)
        · rfl
        · rfl
        · exact h.buffered
        · exact h.buffered
      · obtain rfl | rfl := ht <;> rfl

/-- `absorb` writes receipts only, and keeps the updates it is given. -/
theorem absorb_frame (s : FedCompass T) (merged : Dict String (Update T)) (arrived : List (Update T)) :
    (∃ receipts log, (absorb s merged arrived).1 = { s with receipts := receipts, log := log } ∧ s.log <+: log) ∧
      ∀ u ∈ (absorb s merged arrived).2.values, u ∈ merged.values ∨ u ∈ arrived := by
  induction arrived generalizing s merged with
  | nil => exact ⟨⟨s.receipts, s.log, rfl, List.prefix_rfl⟩, fun u hu ↦ .inl hu⟩
  | cons v arrived ih =>
    obtain ⟨⟨receipts, log, he, hl⟩, hmem⟩ := ih (supersede s v (merged.get? v.clientId)) (merged.insert v.clientId v)
    rw [absorb]
    refine ⟨?_, fun u hu ↦ ?_⟩
    · rw [he]
      cases hm : merged.get? v.clientId with
      | none =>
        rw [hm] at hl
        exact ⟨receipts, log, rfl, hl⟩
      | some old =>
        rw [hm] at hl
        exact ⟨receipts, log, rfl, (List.prefix_append _ _).trans hl⟩
    · obtain hu | hu := hmem u hu
      · obtain ⟨k, hk⟩ := (merged.insert v.clientId v).mem_values_iff.mp hu
        rw [Dict.get?_insert] at hk
        split_ifs at hk
        · cases hk
          exact .inr List.mem_cons_self
        · exact .inl (merged.mem_values_iff.mpr ⟨k, hk⟩)
      · exact .inr (List.mem_cons_of_mem v hu)

theorem mergeGroup_yields {arrived : List (Update T)} (h : Good (arrived.map (·.clientId) ++ loose) now s)
    (hu : ∀ u ∈ arrived, Mergeable s u) (hv : ∀ u ∈ arrived, ∃ v, s.speeds.get? u.clientId = some v) (gid : ℕ) :
    Method.Yields CheckError (mergeGroup ops gid arrived now reason) s fun _ t ↦ Settled loose now s t := by
  refine .get_bind ?_
  obtain ⟨⟨receipts, log, he, hl⟩, hmem⟩ := absorb_frame s s.buffer arrived
  generalize absorb s s.buffer arrived = p at he hmem
  obtain ⟨s', merged⟩ := p
  dsimp only at he hmem ⊢
  subst he
  set s' : FedCompass T := { s with receipts := receipts, log := log, buffer := Dict.empty } with hs'
  have hgood : Good (arrived.map (·.clientId) ++ loose) now s' :=
    h.of_same (.of_eq rfl rfl rfl rfl rfl rfl le_rfl) rfl (fun n ↦ Iff.rfl) fun u hu ↦ by cases hu
  have hmerged : ∀ u ∈ merged.values, Mergeable s' u := fun u hm ↦
    ((hmem u hm).elim (h.buffered u) (hu u)).of_same rfl (fun n ↦ Iff.rfl) le_rfl
  change Method.Yields CheckError (aggregate ops merged.values now (some gid) reason >>= _) s' _
  refine (aggregate_yields hgood hmerged (some gid)).bind fun b t ht ↦ ?_
  obtain ⟨hlog, ht, hspeeds, hcommit, hstop⟩ := ht
  cases b with
  | true =>
    rw [if_pos rfl]
    refine (release_yields ht (fun u hu ↦ hspeeds ▸ hv u hu) (hcommit rfl)).mono fun jobs r hr ↦ ?_
    exact hr.2.settled (hr.1.log ▸ hl.trans hlog)
  | false => exact .pure ⟨hl.trans hlog, _, ht, .inr (hstop rfl)⟩

theorem Good.closeGroup (h : Good loose now s) {gid : ℕ} {g : ArrivalGroup T} (hg : s.groups.get? gid = some g)
    (reason : String) :
    Good (g.arrived.map (·.clientId) ++ loose) now (s.closeGroup gid g now reason) where
  placed := h.placed.closeGroup hg reason
  alive := h.alive.insert rfl fun hc ↦ by cases hc
  names := h.names
  buffered u hu := (h.buffered u hu).of_same rfl (fun n ↦ Iff.rfl) le_rfl
  arrived k u hu := by
    rw [groupAt_insert (s := s) gid { g with closed := true, arrived := [] } rfl] at hu
    split_ifs at hu
    · cases hu
    · exact (h.arrived k u hu).of_same rfl (fun n ↦ Iff.rfl) le_rfl

theorem close_yields (h : Good loose now s) {gid : ℕ} {g : ArrivalGroup T} (hg : s.groups.get? gid = some g) :
    Method.Yields CheckError (close ops gid now reason) s fun _ t ↦ Settled loose now s t := by
  have hitem : item s.groups gid (toString gid) = .ok g := by rw [item, hg]
  refine .get_bind ?_
  rw [hitem]
  refine .lift_bind (fun group hgroup ↦ ?_) fun e he ↦ by cases he
  cases hgroup
  refine .modify_bind ?_
  have hgat : s.groupAt gid = g := groupAt_of_some hg
  split_ifs with hempty
  · have hnil : g.arrived = [] := List.isEmpty_iff.mp hempty
    have hclosed := h.closeGroup hg reason
    rw [hnil] at hclosed
    exact .pure (hclosed.settled List.prefix_rfl)
  · refine (mergeGroup_yields (h.closeGroup hg reason) (fun u hu ↦ ?_) (fun u hu ↦ ?_) gid).mono fun _ t ht ↦ ht
    · exact (h.arrived gid u (hgat.symm ▸ hu)).of_same rfl (fun n ↦ Iff.rfl) le_rfl
    · exact h.placed.arrived_speed gid u (hgat.symm ▸ hu)

end Close

end SplitFleet.Compass
