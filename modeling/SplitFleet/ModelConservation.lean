import SplitFleet.ReplicaHistory

set_option autoImplicit false

namespace SplitFleet.ModelConservation

open Lib LeasedManager ReplicaPhases

/-- Where a native model is. A model is `held` while a call has it in hand and has neither released
it nor given it to `live` or `idle`. -/
inductive Place
  | unborn
  | held (t : ℕ)
  | live (sid : Sid)
  | idle
  | gone
  deriving DecidableEq

variable {α : Type} {finite : α → Bool}

def heldModel : Pc α → Option Model
  | .numbering _ model | .peaking _ model _ | .identifying _ model | .configuring _ model _
  | .committing _ model _ => some model
  | .unwinding _ model _ => model
  | .exporting f | .storing f _ | .retiring f _ | .releasing f _ | .failing f _ => some f.model
  | .publishing f _ idle => if idle then some f.model else none
  | .building _ | .unregistering _ _ | .recording _ _ | .closing _ _ | .ready | .collecting _ => none

def isRelease (model : Model) : Event α → Bool
  | .released model' _ _ => model' = model
  | _ => false

/-- How often a model has been passed to `release_model`. -/
def releases (trace : List (Event α)) (model : Model) : ℕ := trace.countP (isRelease model)

def NoRaise (trace : List (Event α)) : Prop := ∀ model cause, Event.released model cause true ∉ trace

/-- Replicas whose `finish` has neither stored a result nor recorded a failure. -/
def unpublished (m : Manager α) : Finset Sid :=
  m.finishing.filter fun sid ↦ sid ∉ m.completed.keys ∧ sid ∉ m.failed.keys

def load (m : Manager α) : ℕ := m.live.size + m.preparing.card + (unpublished m).card + m.idle.length

/-- The threads that only a manager with a retire hook can have. -/
def Retiring : Pc α → Prop
  | .retiring _ _ | .publishing _ _ true => True
  | _ => False

/-- Each model is in one place, and it has been released once exactly when it is gone. -/
structure Conserved (w : World α) (place : Model → Place) : Prop where
  held : ∀ t, Fibre (heldModel (w.threads t) = some ·) place (· = .held t)
  live : ∀ sid, Fibre (w.manager.live.get? sid = some ·) place (· = .live sid)
  clientModels : ∀ sid, w.manager.clientModels.get? sid = w.manager.live.get? sid
  idle : Fibre (· ∈ w.manager.idle) place (· = .idle)
  idle_nodup : w.manager.idle.Nodup
  unborn : Fibre (w.created ≤ ·) place (· = .unborn)
  gone : Fibre (releases w.trace · = 1) place (· = .gone)
  once : ∀ model, releases w.trace model ≤ 1
  retires : ∀ t, Retiring (w.threads t) → w.manager.retires = true

/-! ### Threads and the models they hold -/

theorem held_enter (f : Finish α) : heldModel f.enter = some f.model := by
  unfold Finish.enter
  split_ifs <;> rfl

theorem held_of_no_claim {pc : Pc α} (h : claim pc = none) : heldModel pc = none := by
  cases pc <;> simp [claim] at h <;> rfl

section Threads

variable {threads : ℕ → Pc α} {place : Model → Place} {t : ℕ} {pc : Pc α} {model : Model} {p : Place}

theorem held_keep (h : ∀ t, Fibre (heldModel (threads t) = some ·) place (· = .held t))
    (hpc : heldModel pc = heldModel (threads t)) :
    ∀ t', Fibre (heldModel (Function.update threads t pc t') = some ·) place (· = .held t') := by
  intro t'
  by_cases ht : t' = t
  · subst ht
    rw [Function.update_self, hpc]
    exact h t'
  · rw [Function.update_of_ne ht]
    exact h t'

theorem held_take (h : ∀ t, Fibre (heldModel (threads t) = some ·) place (· = .held t))
    (hold : heldModel (threads t) = none) (hnew : heldModel pc = some model)
    (hp : ∀ t', place model ≠ .held t') :
    ∀ t', Fibre (heldModel (Function.update threads t pc t') = some ·)
      (Function.update place model (.held t)) (· = .held t') := by
  intro t'
  by_cases ht : t' = t
  · subst ht
    refine (h t').enter rfl fun x ↦ ?_
    rw [Function.update_self, hnew, hold]
    simp [eq_comm]
  · rw [Function.update_of_ne ht]
    refine (h t').stay (iff_of_false ?_ (hp t'))
    rintro ⟨⟩
    exact ht rfl

theorem held_drop (h : ∀ t, Fibre (heldModel (threads t) = some ·) place (· = .held t))
    (hold : heldModel (threads t) = some model) (hnew : heldModel pc = none) (hp : ∀ t', p ≠ .held t') :
    ∀ t', Fibre (heldModel (Function.update threads t pc t') = some ·)
      (Function.update place model p) (· = .held t') := by
  intro t'
  by_cases ht : t' = t
  · subst ht
    refine (h t').leave (hp t') fun x ↦ ?_
    rw [Function.update_self, hnew, hold]
    simp only [reduceCtorEq, Option.some.injEq, false_iff, not_and, ne_eq]
    exact fun hx he ↦ hx he.symm
  · rw [Function.update_of_ne ht]
    refine (h t').stay (iff_of_false (hp t') ?_)
    rw [((h t) model).mp hold]
    rintro ⟨⟩
    exact ht rfl

end Threads

/-! ### The collections of models -/

section Collections

variable {live : Dict Sid Model} {place : Model → Place} {sid : Sid} {model : Model} {p : Place}

theorem live_insert (h : ∀ sid, Fibre (live.get? sid = some ·) place (· = .live sid))
    (hl : live.get? sid = none) (hp : ∀ sid', place model ≠ .live sid') :
    ∀ sid', Fibre ((live.insert sid model).get? sid' = some ·)
      (Function.update place model (.live sid)) (· = .live sid') := by
  intro sid'
  simp only [Dict.get?_insert]
  by_cases hs : sid = sid'
  · subst hs
    refine (h sid).enter rfl fun x ↦ ?_
    simp [hl, eq_comm]
  · simp only [hs, if_false]
    refine (h sid').stay (iff_of_false ?_ (hp sid'))
    rintro ⟨⟩
    exact hs rfl

theorem live_erase (h : ∀ sid, Fibre (live.get? sid = some ·) place (· = .live sid))
    (hl : live.get? sid = some model) (hp : ∀ sid', p ≠ .live sid') :
    ∀ sid', Fibre ((live.erase sid).get? sid' = some ·)
      (Function.update place model p) (· = .live sid') := by
  intro sid'
  simp only [Dict.get?_erase]
  by_cases hs : sid = sid'
  · subst hs
    refine (h sid).leave (hp sid) fun x ↦ ?_
    simp only [if_true, reduceCtorEq, hl, Option.some.injEq, false_iff, not_and, ne_eq]
    exact fun hx he ↦ hx he.symm
  · simp only [hs, if_false]
    refine (h sid').stay (iff_of_false (hp sid') ?_)
    rw [((h sid) model).mp hl]
    rintro ⟨⟩
    exact hs rfl

theorem live_stay (h : ∀ sid, Fibre (live.get? sid = some ·) place (· = .live sid))
    (hq : ∀ sid, place model ≠ .live sid) (hp : ∀ sid', p ≠ .live sid') :
    ∀ sid', Fibre (live.get? sid' = some ·) (Function.update place model p) (· = .live sid') :=
  fun sid' ↦ (h sid').stay (iff_of_false (hp sid') (hq sid'))

end Collections

/-! ### Counting releases -/

section Releases

variable {trace : List (Event α)} {place : Model → Place} {model : Model}

theorem releases_append_of_forall {events : List (Event α)}
    (h : ∀ e ∈ events, ∀ model, isRelease model e = false) (model : Model) :
    releases (events ++ trace) model = releases trace model := by
  rw [releases, List.countP_append, List.countP_eq_zero.mpr fun e he ↦ by simp [h e he model],
    Nat.zero_add]
  rfl

theorem releases_cons (model x : Model) (cause : Cause) (raised : Bool) :
    releases (.released model cause raised :: trace) x =
      releases trace x + if x = model then 1 else 0 := by
  rw [releases, List.countP_cons]
  by_cases hx : x = model
  · subst hx
    simp [isRelease, releases]
  · simp [isRelease, releases, hx, Ne.symm hx]

theorem gone_enter (hg : Fibre (releases trace · = 1) place (· = .gone))
    (ho : ∀ model, releases trace model ≤ 1) (hp : place model ≠ .gone) (cause : Cause) (raised : Bool) :
    Fibre (releases (.released model cause raised :: trace) · = 1)
        (Function.update place model .gone) (· = .gone) ∧
      ∀ x, releases (.released model cause raised :: trace) x ≤ 1 := by
  have hne : releases trace model ≠ 1 := fun h ↦ hp ((hg model).mp h)
  have hzero : releases trace model = 0 := by
    have := ho model
    omega
  refine ⟨hg.enter rfl fun x ↦ ?_, fun x ↦ ?_⟩
  · rw [releases_cons]
    by_cases hx : x = model
    · subst hx
      simp [hzero]
    · simp [hx]
  · rw [releases_cons]
    by_cases hx : x = model
    · subst hx
      simp [hzero]
    · simpa [hx] using ho x

theorem releases_roundModels (m : Manager α) (x : Model) :
    releases m.releases x = if x ∈ m.roundModels then 1 else 0 := by
  have hnodup : m.roundModels.Nodup := List.nodup_reverse.mpr (List.nodup_dedup _)
  have hcount : releases m.releases x = m.roundModels.count x := by
    rw [releases, Manager.releases, List.countP_reverse, List.countP_map, List.count]
    congr 1
  rw [hcount]
  split_ifs with hx
  · exact List.count_eq_one_of_mem hnodup hx
  · exact List.count_eq_zero_of_not_mem hx

theorem mem_roundModels (m : Manager α) (hc : ∀ sid, m.clientModels.get? sid = m.live.get? sid)
    (x : Model) : x ∈ m.roundModels ↔ (∃ sid, m.live.get? sid = some x) ∨ x ∈ m.idle := by
  simp only [Manager.roundModels, List.mem_reverse, List.mem_dedup, List.mem_append,
    Dict.mem_values_iff, hc, or_self]

end Releases

/-! ### One step -/

section Step

variable {w w' : World α} {place : Model → Place} {phase : Sid → Phase}

theorem retires_move (h : ∀ t, Retiring (w.threads t) → w.manager.retires = true) (t : ℕ) {pc : Pc α}
    (hpc : Retiring pc → w.manager.retires = true) :
    ∀ t', Retiring (Function.update w.threads t pc t') → w.manager.retires = true := by
  intro t'
  by_cases ht : t' = t
  · subst ht
    rw [Function.update_self]
    exact hpc
  · rw [Function.update_of_ne ht]
    exact h t'

theorem Conserved.not_idle (h : Conserved w place) {x : Model} (hp : place x ≠ .idle) :
    x ∉ w.manager.idle :=
  mt (h.idle x).mp hp

theorem Conserved.not_live (h : Conserved w place) {x : Model} (hp : ∀ sid, place x ≠ .live sid)
    (sid : Sid) : w.manager.live.get? sid ≠ some x :=
  mt (h.live sid x).mp (hp sid)

/-- A step that moves no model. -/
theorem Conserved.keep (h : Conserved w place) (t : ℕ) (pc : Pc α) (m : Manager α)
    {events : List (Event α)} (hpc : heldModel pc = heldModel (w.threads t))
    (hretiring : Retiring pc → w.manager.retires = true)
    (he : ∀ e ∈ events, ∀ model, isRelease model e = false)
    (hlive : ∀ sid, m.live.get? sid = w.manager.live.get? sid)
    (hclient : ∀ sid, m.clientModels.get? sid = m.live.get? sid)
    (hidle : m.idle = w.manager.idle) (hret : m.retires = w.manager.retires) :
    Conserved (w.move t pc m events) place := by
  refine ⟨held_keep h.held hpc, fun sid x ↦ ?_, hclient, fun x ↦ ?_, ?_, h.unborn, fun x ↦ ?_,
    fun x ↦ ?_, fun t' ht ↦ ?_⟩
  · simp only [World.move, hlive sid]
    exact h.live sid x
  · simp only [World.move, hidle]
    exact h.idle x
  · simp only [World.move, hidle]
    exact h.idle_nodup
  · simp only [World.move, releases_append_of_forall he]
    exact h.gone x
  · simp only [World.move, releases_append_of_forall he]
    exact h.once x
  · exact hret.trans (retires_move h.retires t hretiring t' ht)

/-- A thread gives the model it holds to `release_model`, which returns. -/
theorem Conserved.release (h : Conserved w place) {t : ℕ} {model : Model} {pc : Pc α} (cause : Cause)
    (hold : heldModel (w.threads t) = some model)
    (hnew : heldModel pc = none) (hretiring : ¬ Retiring pc) :
    Conserved (w.move t pc w.manager [.released model cause false])
      (Function.update place model .gone) := by
  have hp : place model = .held t := (h.held t model).mp hold
  have hngone : place model ≠ .gone := by simp [hp]
  obtain ⟨hgone, honce⟩ := gone_enter h.gone h.once hngone cause false
  exact ⟨held_drop h.held hold hnew nofun, live_stay h.live (by simp [hp]) nofun, h.clientModels,
    h.idle.stay (iff_of_false nofun (by simp [hp])), h.idle_nodup,
    h.unborn.stay (iff_of_false nofun (by simp [hp])), hgone, honce,
    retires_move h.retires t fun hr ↦ absurd hr hretiring⟩

theorem Conserved.local (h : Conserved w place) {t : ℕ} {pc : Pc α} {events : List (Event α)}
    (hl : LocalStep finite w.manager.retires (w.threads t) pc events)
    (hr : NoRaise (events ++ w.trace)) :
    ∃ place', Conserved (w.move t pc w.manager events) place' := by
  generalize hpc : w.threads t = old at hl
  have hquiet : (∀ e ∈ events, ∀ model, isRelease model e = false) →
      heldModel pc = heldModel old →
      (Retiring pc → w.manager.retires = true) →
      ∃ place', Conserved (w.move t pc w.manager events) place' := fun he hheld hret ↦
    ⟨place, h.keep t pc w.manager (by rw [hheld, hpc]) hret he (fun _ ↦ rfl) h.clientModels rfl rfl⟩
  cases hl with
  | unwindModel a model error raised =>
    cases raised with
    | true => exact absurd List.mem_cons_self (hr model _)
    | false => exact ⟨_, h.release _ (by rw [hpc]; rfl) rfl id⟩
  | released f stored => exact ⟨_, h.release _ (by rw [hpc]; rfl) rfl id⟩
  | releaseRaises f stored error => exact absurd List.mem_cons_self (hr f.model _)
  | failed f error raised =>
    cases raised with
    | true => exact absurd List.mem_cons_self (hr f.model _)
    | false => exact ⟨_, h.release _ (by rw [hpc]; rfl) rfl id⟩
  | stored f value =>
    apply hquiet
    · simp [isRelease]
    · cases w.manager.retires <;> rfl
    · cases hret : w.manager.retires with
      | true => exact fun _ ↦ rfl
      | false => exact fun hr ↦ False.elim hr
  | retired f value =>
    have hret := h.retires t (by rw [hpc]; trivial)
    exact hquiet (List.forall_mem_nil _) rfl fun _ ↦ hret
  | exportNonfinite f value hf | exported f value hf =>
    exact hquiet (by simp [isRelease]) rfl nofun
  | _ => exact hquiet (List.forall_mem_nil _) rfl nofun

theorem Conserved.reserve (h : Conserved w place) {t : ℕ} {sid : Sid} {m : Manager α}
    {model : Option Model} {config : Config α} (hpc : w.threads t = .ready)
    (ha : w.manager.reserve sid = .ok (m, model, config)) :
    ∃ place', Conserved (w.move t (enterAcquire sid config model) m [.admitted sid]) place' := by
  obtain ⟨-, -, -, rfl, rfl⟩ := reserve_eq ha
  have he : ∀ e ∈ [(Event.admitted sid : Event α)], ∀ model, isRelease model e = false := by
    simp [isRelease]
  have hready : heldModel (w.threads t) = none := by rw [hpc]; rfl
  cases hlast : w.manager.idle.getLast? with
  | none =>
    have hnil : w.manager.idle = [] := List.getLast?_eq_none_iff.mp hlast
    exact ⟨place, h.keep t _ _ hready.symm nofun he (fun _ ↦ rfl) h.clientModels (by simp [hnil]) rfl⟩
  | some model =>
    have hsplit : w.manager.idle.dropLast ++ [model] = w.manager.idle :=
      List.dropLast_append_getLast? model hlast
    have hnd := h.idle_nodup
    rw [← hsplit, List.nodup_append] at hnd
    have hp : place model = .idle := (h.idle model).mp (by rw [← hsplit]; simp)
    refine ⟨Function.update place model (.held t), held_take h.held hready rfl (by simp [hp]),
      live_stay h.live (by simp [hp]) nofun, h.clientModels, h.idle.leave nofun fun x ↦ ?_, hnd.1,
      h.unborn.stay (iff_of_false nofun (by simp [hp])),
      h.gone.stay (iff_of_false nofun (by simp [hp])), h.once, retires_move h.retires t nofun⟩
    constructor
    · intro hx
      refine ⟨?_, List.dropLast_subset _ hx⟩
      rintro rfl
      exact hnd.2.2 x hx x (by simp) rfl
    · rintro ⟨hne, hx⟩
      rw [← hsplit] at hx
      exact (List.mem_append.mp hx).resolve_right fun hm ↦ hne (List.mem_singleton.mp hm)

theorem Conserved.build (h : Conserved w place) {t : ℕ} {a : Acquire α}
    (hpc : w.threads t = .building a) :
    Conserved { w.move t (.numbering a w.created) w.manager [.built w.created] with
      created := w.created + 1 } (Function.update place w.created (.held t)) := by
  have hp : place w.created = .unborn := (h.unborn w.created).mp (Nat.le_refl _)
  have he : ∀ e ∈ [(Event.built w.created : Event α)], ∀ model, isRelease model e = false := by
    simp [isRelease]
  refine ⟨held_take h.held (by rw [hpc]; rfl) rfl (by simp [hp]),
    live_stay h.live (by simp [hp]) nofun, h.clientModels,
    h.idle.stay (iff_of_false nofun (by simp [hp])), h.idle_nodup,
    h.unborn.leave nofun fun x ↦ ?_, h.gone.stay (iff_of_false nofun (by simp [hp])), h.once,
    retires_move h.retires t nofun⟩
  dsimp only
  omega

theorem Conserved.commit (h : Conserved w place) (hi : Inv w phase) {t : ℕ} {a : Acquire α}
    {model : Model} {receipt : Receipt} (hpc : w.threads t = .committing a model receipt) :
    Conserved (w.move t .ready (w.manager.commit a.sid model receipt) [])
      (Function.update place model (.live a.sid)) := by
  have hold : heldModel (w.threads t) = some model := by rw [hpc]; rfl
  have hp : place model = .held t := (h.held t model).mp hold
  have hcl : claim (w.threads t) = some (a.sid, .preparing) := by rw [hpc]; rfl
  have hphase := phase_eq_preparing (hi.phase_of_claim hcl)
  have hl : w.manager.live.get? a.sid = none :=
    not_mem_keys_of_fibre hi.refines.live (by simp [hphase])
  refine ⟨held_drop h.held hold rfl nofun, live_insert h.live hl (by simp [hp]), fun sid ↦ ?_,
    h.idle.stay (iff_of_false nofun (by simp [hp])), h.idle_nodup,
    h.unborn.stay (iff_of_false nofun (by simp [hp])),
    h.gone.stay (iff_of_false nofun (by simp [hp])), h.once, retires_move h.retires t nofun⟩
  simp only [World.move, Manager.commit, Dict.get?_insert, h.clientModels sid]

theorem Conserved.finish (h : Conserved w place) {t : ℕ} {f : Finish α}
    (hpc : CallsFinish (w.threads t) f.sid f.rest)
    (hl : w.manager.live.get? f.sid = some f.model) :
    Conserved (w.move t f.enter (w.manager.takeLive f.sid) [.finishing f.sid f.success])
      (Function.update place f.model (.held t)) := by
  have hp : place f.model = .live f.sid := (h.live f.sid f.model).mp hl
  have hidle : heldModel (w.threads t) = none :=
    held_of_no_claim (claim_of_callsFinish hpc)
  refine ⟨held_take h.held hidle (held_enter f) (by simp [hp]), live_erase h.live hl nofun,
    fun sid ↦ ?_, h.idle.stay (iff_of_false nofun (by simp [hp])), h.idle_nodup,
    h.unborn.stay (iff_of_false nofun (by simp [hp])),
    h.gone.stay (iff_of_false nofun (by simp [hp])), h.once, retires_move h.retires t ?_⟩
  · simp only [World.move, Manager.takeLive, Dict.get?_erase, h.clientModels sid]
  · unfold Finish.enter
    split_ifs <;> exact False.elim

theorem publish_idle (m : Manager α) (sid : Sid) (model : Model) (stored : Option α) (reason : String)
    (idle : Bool) : (m.publish sid model stored reason idle).idle =
      if idle && !m.perClientModels then m.idle ++ [model] else m.idle := by
  cases stored <;> rfl

theorem publish_models (m : Manager α) (sid : Sid) (model : Model) (stored : Option α) (reason : String)
    (idle : Bool) :
    (m.publish sid model stored reason idle).live = m.live ∧
      (m.publish sid model stored reason idle).clientModels = m.clientModels ∧
      (m.publish sid model stored reason idle).retires = m.retires := by
  cases stored <;> exact ⟨rfl, rfl, rfl⟩

theorem Conserved.publish (h : Conserved w place) {t : ℕ} {f : Finish α} {stored : Option α}
    {idle : Bool} (hpc : w.threads t = .publishing f stored idle) :
    ∃ place', Conserved (w.move t (.closing f false)
      (w.manager.publish f.sid f.model stored f.reason idle) []) place' := by
  obtain ⟨hlive, hclient, hret⟩ := publish_models w.manager f.sid f.model stored f.reason idle
  cases idle with
  | false =>
    refine ⟨place, h.keep t _ _ (by rw [hpc]; rfl) False.elim (List.forall_mem_nil _) (fun sid ↦ by rw [hlive])
      (fun sid ↦ ?_) ?_ hret⟩
    · rw [hclient, hlive]
      exact h.clientModels sid
    · cases stored <;> rfl
  | true =>
    -- a retired model is kept for reuse, so the manager is not a per-client one
    have hretires := h.retires t (by rw [hpc]; trivial)
    have hper : w.manager.perClientModels = false := by
      cases hc : w.manager.perClientModels with
      | false => rfl
      | true => exact absurd hretires (by simp [w.manager.exclusive hc])
    have hid := publish_idle w.manager f.sid f.model stored f.reason true
    simp only [hper, Bool.not_false, Bool.and_true, if_true] at hid
    have hold : heldModel (w.threads t) = some f.model := by rw [hpc]; rfl
    have hp : place f.model = .held t := (h.held t f.model).mp hold
    have hnot : f.model ∉ w.manager.idle := h.not_idle (by simp [hp])
    refine ⟨Function.update place f.model .idle, held_drop h.held hold rfl (by simp), ?_, fun sid ↦ ?_,
      h.idle.enter rfl fun x ↦ ?_, ?_, h.unborn.stay (iff_of_false (by simp) (by simp [hp])),
      h.gone.stay (iff_of_false (by simp) (by simp [hp])), h.once, ?_⟩
    · simp only [World.move, hlive]
      exact live_stay h.live (by simp [hp]) (by simp)
    · simp only [World.move, hlive, hclient]
      exact h.clientModels sid
    · simp only [World.move, hid, List.mem_append, List.mem_singleton]
      exact or_comm
    · simp only [World.move, hid]
      exact List.nodup_append.mpr ⟨h.idle_nodup, List.nodup_singleton _, fun x hx y hy ↦ by
        rintro rfl
        exact hnot (List.mem_singleton.mp hy ▸ hx)⟩
    · intro t' ht
      have hclosing : Retiring (.closing f false : Pc α) → w.manager.retires = true := False.elim
      exact hret.trans (retires_move h.retires t hclosing t' ht)

/-- Where the models are after `end_round`. -/
def settle : Place → Place
  | .unborn => .unborn
  | _ => .gone

theorem Conserved.endRound (h : Conserved w place) (hi : Inv w phase) (hq : w.manager.Quiet) {t : ℕ}
    (hpc : w.threads t = .ready) : Conserved (w.endRound t) fun model ↦ settle (place model) := by
  have hthreads : Function.update w.threads t .ready = w.threads := by
    rw [← hpc, Function.update_eq_self]
  have hnone : ∀ t', heldModel (w.threads t') = none := fun t' ↦
    held_of_no_claim (no_claim_of_quiet hi hq t')
  have hreleases : ∀ x, releases (w.endRound t).trace x =
      releases w.trace x + if x ∈ w.manager.roundModels then 1 else 0 := by
    intro x
    have hcons : ∀ l : List (Event α), releases (.ended :: l) x = releases l x := fun l ↦ rfl
    change releases (.ended :: w.manager.releases ++ w.trace) x = _
    rw [List.cons_append, hcons, releases, List.countP_append, Nat.add_comm,
      ← releases_roundModels w.manager x]
    rfl
  have hcount : ∀ x, releases (w.endRound t).trace x = if settle (place x) = .gone then 1 else 0 := by
    intro x
    have hzero : place x ≠ .gone → releases w.trace x = 0 := by
      intro hx
      have hne := mt (h.gone x).mp hx
      have hle := h.once x
      omega
    have hround := mem_roundModels w.manager h.clientModels x
    have hout : (∀ sid, place x ≠ .live sid) → place x ≠ .idle → x ∉ w.manager.roundModels := by
      intro hl hid hm
      rcases hround.mp hm with ⟨sid, hs⟩ | hm
      · exact h.not_live hl sid hs
      · exact h.not_idle hid hm
    rw [hreleases]
    cases hp : place x with
    | unborn => simp [settle, hout (by simp [hp]) (by simp [hp]), hzero (by simp [hp])]
    | held t' =>
      have hh := (h.held t' x).mpr hp
      rw [hnone t'] at hh
      cases hh
    | live sid =>
      have hin := hround.mpr (.inl ⟨sid, (h.live sid x).mpr hp⟩)
      simp [settle, hin, hzero (by simp [hp])]
    | idle =>
      have hin := hround.mpr (.inr ((h.idle x).mpr hp))
      simp [settle, hin, hzero (by simp [hp])]
    | gone =>
      have hone : releases w.trace x = 1 := (h.gone x).mpr hp
      simp [settle, hout (by simp [hp]) (by simp [hp]), hone]
  have hnever : ∀ x, (∀ t', settle (place x) ≠ .held t') ∧ (∀ sid, settle (place x) ≠ .live sid) ∧
      settle (place x) ≠ .idle := by
    intro x
    cases place x <;> simp [settle]
  refine ⟨fun t' x ↦ ?_, fun sid x ↦ ?_, fun sid ↦ rfl, fun x ↦ ?_, List.nodup_nil, fun x ↦ ?_,
    fun x ↦ ?_, fun x ↦ ?_, fun t' ht ↦ ?_⟩
  · refine iff_of_false ?_ ((hnever x).1 t')
    simp [World.endRound, World.move, hthreads, hnone]
  · exact iff_of_false (by simp [World.endRound, World.move, Manager.clear]) ((hnever x).2.1 sid)
  · exact iff_of_false List.not_mem_nil (hnever x).2.2
  · refine (h.unborn x).trans ?_
    cases place x <;> simp [settle]
  · simp only [hcount x]
    split_ifs with hg
    · exact iff_of_true rfl hg
    · exact iff_of_false (by simp) hg
  · rw [hcount x]
    split_ifs <;> simp
  · refine h.retires t' ?_
    rw [← hthreads]
    exact ht

theorem configure_models (m : Manager α) (configs : List (Config α)) :
    (m.configure configs).1.live = m.live ∧ (m.configure configs).1.clientModels = m.clientModels ∧
      (m.configure configs).1.idle = m.idle ∧ (m.configure configs).1.retires = m.retires := by
  unfold Manager.configure
  dsimp only
  split_ifs <;> exact ⟨rfl, rfl, rfl, rfl⟩

theorem Conserved.step (h : Conserved w place) (hi : Inv w phase) (hs : Step finite w w')
    (hr : NoRaise w'.trace) : ∃ place', Conserved w' place' := by
  cases hs with
  | «local» t pc events hl => exact h.local hl hr
  | refuse | getServerModel | endRoundRefused => exact ⟨place, h⟩
  | reserve t sid m model config hpc ha => exact h.reserve hpc ha
  | build t a hpc => exact ⟨_, h.build hpc⟩
  | number t a model hpc =>
    have h' := h.keep t (.peaking a model w.manager.numberModel.nextModelInstanceId)
      w.manager.numberModel (by rw [hpc]; rfl) False.elim (List.forall_mem_nil _) (fun _ ↦ rfl)
      h.clientModels rfl rfl
    exact ⟨place, h'.held, h'.live, h'.clientModels, h'.idle, h'.idle_nodup, h'.unborn, h'.gone,
      h'.once, h'.retires⟩
  | notePeak t a model instanceId hpc =>
    exact ⟨place, h.keep t _ _ (by rw [hpc]; rfl) False.elim (List.forall_mem_nil _) (fun _ ↦ rfl)
      h.clientModels rfl rfl⟩
  | identify t a model hpc =>
    refine ⟨place, h.keep t _ _ ?_ ?_ (List.forall_mem_nil _) (fun _ ↦ rfl) h.clientModels rfl rfl⟩
    · rw [hpc]
      cases w.instanceIds model <;> rfl
    · cases w.instanceIds model <;> exact False.elim
  | unregister t a error hpc =>
    have hcl : claim (w.threads t) = some (a.sid, .preparing) := by rw [hpc]; rfl
    have hphase := phase_eq_preparing (hi.phase_of_claim hcl)
    have hl : w.manager.live.get? a.sid = none :=
      not_mem_keys_of_fibre hi.refines.live (by simp [hphase])
    refine ⟨place, h.keep t _ _ (by rw [hpc]; rfl) False.elim (List.forall_mem_nil _) (fun _ ↦ rfl)
      (fun sid ↦ ?_) rfl rfl⟩
    simp only [Manager.unregister, Dict.get?_erase, h.clientModels sid]
    split_ifs with hsid
    · rw [← hsid, hl]
    · rfl
  | commit t a model receipt hpc => exact ⟨_, h.commit hi hpc⟩
  | finishAbsent t sid rest hpc hl =>
    have hheld : heldModel (returnTo rest : Pc α) = heldModel (w.threads t) := by
      rw [held_of_no_claim (claim_of_callsFinish hpc), held_of_no_claim (claim_returnTo rest)]
    refine ⟨place, h.keep t _ _ hheld ?_ (List.forall_mem_nil _) (fun _ ↦ rfl) h.clientModels rfl rfl⟩
    cases rest <;> exact False.elim
  | finishUnconfigured t sid model rest hpc hl hc => exact absurd hc (hi.config_of_live hl)
  | finish t f config hpc hcollect hl hc hinit => exact ⟨_, h.finish hpc hl⟩
  | record t f error hpc =>
    exact ⟨place, h.keep t _ _ (by rw [hpc]; rfl) False.elim (List.forall_mem_nil _) (fun _ ↦ rfl)
      h.clientModels rfl rfl⟩
  | publish t f stored idle hpc => exact h.publish hpc
  | close t f raised hpc =>
    have hheld : heldModel (f.next raised) = heldModel (w.threads t) := by
      rw [held_of_no_claim (claim_next f raised), hpc]
      rfl
    refine ⟨place, h.keep t _ _ hheld ?_ (List.forall_mem_nil _) (fun _ ↦ rfl) h.clientModels rfl rfl⟩
    unfold Finish.next
    split_ifs
    · exact False.elim
    · cases f.rest <;> exact False.elim
  | collect t hpc | report t hpc =>
    exact ⟨place, h.keep t _ _ (by rw [hpc]; rfl) False.elim (List.forall_mem_nil _) (fun _ ↦ rfl)
      h.clientModels rfl rfl⟩
  | endRound t hpc hq => exact ⟨_, h.endRound hi hq hpc⟩
  | endRoundRaises t before after model hpc hq hm => exact absurd List.mem_cons_self (hr model _)
  | initializeServerModels t configs hpc hq =>
    have h' := h.endRound hi hq hpc
    obtain ⟨hlive, hclient, hidle, hret⟩ := configure_models w.manager.clear configs
    refine ⟨_, h'.held, fun sid ↦ ?_, fun sid ↦ ?_, ?_, ?_, h'.unborn, h'.gone, h'.once, fun t' ht ↦ ?_⟩
    · simp only [World.move, hlive]
      exact h'.live sid
    · simp only [World.move, hlive, hclient]
      exact h'.clientModels sid
    · simp only [World.move, hidle]
      exact h'.idle
    · simp only [World.move, hidle]
      exact h'.idle_nodup
    · exact hret.trans (h'.retires t' ht)

end Step

/-! ### Capacity -/

section Load

variable {w w' : World α} {phase : Sid → Phase} {m : Manager α}

theorem unpublished_subset {m' : Manager α} (hf : m'.finishing ⊆ m.finishing)
    (hc : ∀ sid ∈ m.completed.keys, sid ∈ m'.completed.keys)
    (hd : ∀ sid ∈ m.failed.keys, sid ∈ m'.failed.keys) : unpublished m' ⊆ unpublished m := by
  intro sid hm
  obtain ⟨hfin, hnc, hnd⟩ := Finset.mem_filter.mp hm
  exact Finset.mem_filter.mpr ⟨hf hfin, mt (hc sid) hnc, mt (hd sid) hnd⟩

theorem load_reserve {sid : Sid} {m' : Manager α} {model : Option Model} {config : Config α}
    (hl : load m ≤ m.capacity) (ha : m.reserve sid = .ok (m', model, config)) : load m' ≤ m'.capacity := by
  obtain ⟨-, -, hlt, -, rfl⟩ := reserve_eq ha
  have hprep := Finset.card_insert_le sid m.preparing
  have hunp : (unpublished m).card ≤ m.finishing.card := Finset.card_filter_le _ _
  have hsame : ∀ a i, unpublished { m with attempted := a, preparing := insert sid m.preparing, idle := i } =
      unpublished m := fun _ _ ↦ rfl
  simp only [load, Manager.occupied, hsame, List.length_dropLast] at hl hlt ⊢
  -- an idle model is taken, or none is left and the check on the other three applies
  omega

theorem load_commit {sid : Sid} (hp : sid ∈ m.preparing) (hl : m.live.get? sid = none) (model : Model)
    (receipt : Receipt) : load (m.commit sid model receipt) = load m := by
  have hlive := m.live.size_insert hl model
  have hprep := Finset.card_erase_add_one hp
  have hunp : unpublished (m.commit sid model receipt) = unpublished m := rfl
  simp only [load, hunp]
  simp only [Manager.commit]
  omega

theorem load_takeLive {sid : Sid} {model : Model} (hl : m.live.get? sid = some model) :
    load (m.takeLive sid) ≤ load m := by
  have hlive := m.live.size_erase hl
  have hsub : unpublished (m.takeLive sid) ⊆ insert sid (unpublished m) := by
    intro a ha
    obtain ⟨hfin, hout⟩ := Finset.mem_filter.mp ha
    rcases Finset.mem_insert.mp hfin with rfl | hfin
    · exact Finset.mem_insert_self _ _
    · exact Finset.mem_insert_of_mem (Finset.mem_filter.mpr ⟨hfin, hout⟩)
  have hunp := (Finset.card_le_card hsub).trans (Finset.card_insert_le sid (unpublished m))
  simp only [load] at hunp ⊢
  simp only [Manager.takeLive] at hlive hunp ⊢
  omega

/-- Publishing a result frees the room that a retired model then takes in `idle`. -/
theorem load_publish {sid : Sid} (hu : sid ∈ unpublished m) (model : Model) (stored : Option α)
    (reason : String) (idle : Bool) : load (m.publish sid model stored reason idle) ≤ load m := by
  have hsub : unpublished (m.publish sid model stored reason idle) ⊆ (unpublished m).erase sid := by
    intro a ha
    obtain ⟨hfin, hnc, hnd⟩ := Finset.mem_filter.mp ha
    cases stored with
    | none =>
      have hnd' := mt (m.failed.mem_keys_insert).mpr hnd
      rw [not_or] at hnd'
      exact Finset.mem_erase.mpr ⟨hnd'.1, Finset.mem_filter.mpr ⟨hfin, hnc, hnd'.2⟩⟩
    | some v =>
      have hnc' := mt (m.completed.mem_keys_insert).mpr hnc
      rw [not_or] at hnc'
      exact Finset.mem_erase.mpr ⟨hnc'.1, Finset.mem_filter.mpr ⟨hfin, hnc'.2, hnd⟩⟩
  have hcard := Finset.card_le_card hsub
  have herase := Finset.card_erase_add_one hu
  have hidle : (m.publish sid model stored reason idle).idle.length ≤ m.idle.length + 1 := by
    rw [publish_idle]
    split_ifs
    · rw [List.length_append, List.length_singleton]
    · omega
  obtain ⟨hlive, -, -⟩ := publish_models m sid model stored reason idle
  have hprep : (m.publish sid model stored reason idle).preparing = m.preparing := by
    cases stored <;> rfl
  simp only [load, hlive, hprep]
  omega

theorem load_of_unpublished_subset {m' : Manager α} (hlive : m'.live = m.live)
    (hprep : m'.preparing ⊆ m.preparing) (hidle : m'.idle = m.idle)
    (hunp : unpublished m' ⊆ unpublished m) : load m' ≤ load m := by
  have h₁ := Finset.card_le_card hprep
  have h₂ := Finset.card_le_card hunp
  simp only [load, hlive, hidle]
  omega

theorem load_unregister (m : Manager α) (sid : Sid) (error : String) :
    load (m.unregister sid error) ≤ load m := by
  refine load_of_unpublished_subset rfl (Finset.erase_subset _ _) rfl ?_
  exact unpublished_subset (Finset.Subset.refl _) (fun _ h ↦ h)
    fun a h ↦ m.failed.mem_keys_insert.mpr (.inr h)

theorem load_recordFailure (m : Manager α) (sid : Sid) (reason : String) :
    load (m.recordFailure sid reason) ≤ load m := by
  refine load_of_unpublished_subset rfl (Finset.Subset.refl _) rfl ?_
  exact unpublished_subset (Finset.Subset.refl _) (fun _ h ↦ h)
    fun a h ↦ m.failed.mem_keys_insert.mpr (.inr h)

theorem load_closeFinish (m : Manager α) (sid : Sid) : load (m.closeFinish sid) ≤ load m := by
  refine load_of_unpublished_subset rfl (Finset.Subset.refl _) rfl ?_
  exact unpublished_subset (Finset.erase_subset _ _) (fun _ h ↦ h) fun _ h ↦ h

theorem load_clear (hq : m.Quiet) : load m.clear = 0 := by
  have hunp : unpublished m.clear = ∅ := by
    rw [unpublished, Finset.filter_eq_empty_iff]
    intro sid hm
    have hm' : sid ∈ m.finishing := hm
    rw [hq.2] at hm'
    exact absurd hm' (Finset.notMem_empty sid)
  simp only [load, hunp, Finset.card_empty]
  simp [Manager.clear, Dict.size, Dict.empty, hq.1]

theorem load_configure (m : Manager α) (configs : List (Config α)) :
    load (m.configure configs).1 = load m ∧ (m.configure configs).1.capacity = m.capacity := by
  unfold Manager.configure
  dsimp only
  split_ifs <;> exact ⟨rfl, rfl⟩

theorem load_step (hi : Inv w phase) (hl : load w.manager ≤ w.manager.capacity)
    (hs : Step finite w w') : load w'.manager ≤ w'.manager.capacity := by
  cases hs with
  | «local» | refuse | build | number | notePeak | identify | getServerModel | finishAbsent | collect
  | report | endRoundRaises | endRoundRefused => exact hl
  | reserve t sid m model config hpc ha => exact load_reserve hl ha
  | unregister t a error hpc => exact (load_unregister w.manager a.sid error).trans hl
  | commit t a model receipt hpc =>
    have hcl : claim (w.threads t) = some (a.sid, .preparing) := by rw [hpc]; rfl
    have hp := phase_eq_preparing (hi.phase_of_claim hcl)
    have hn : w.manager.live.get? a.sid = none :=
      not_mem_keys_of_fibre hi.refines.live (by simp [hp])
    exact (load_commit ((hi.refines.preparing a.sid).mpr hp) hn model receipt).trans_le hl
  | finishUnconfigured t sid model rest hpc hlive hc => exact (load_takeLive hlive).trans hl
  | finish t f config hpc hcollect hlive hc hinit => exact (load_takeLive hlive).trans hl
  | record t f error hpc => exact (load_recordFailure w.manager f.sid error).trans hl
  | publish t f stored idle hpc =>
    have hcl : claim (w.threads t) = some (f.sid, .finishing) := by rw [hpc]; rfl
    have hp := phase_eq_finishing (hi.phase_of_claim hcl)
    have hu : f.sid ∈ unpublished w.manager := by
      refine Finset.mem_filter.mpr ⟨(hi.refines.finishing f.sid).mpr (.inl hp), ?_, ?_⟩
      · refine mt (hi.refines.completed f.sid).mp ?_
        rw [hp]
        simp [Phase.HasOutcome]
      · refine mt (hi.refines.failed f.sid).mp ?_
        rw [hp]
        simp [Phase.HasOutcome]
    have hcap : (w.manager.publish f.sid f.model stored f.reason idle).capacity = w.manager.capacity := by
      cases stored <;> rfl
    exact ((load_publish hu f.model stored f.reason idle).trans hl).trans_eq hcap.symm
  | close t f raised hpc => exact (load_closeFinish w.manager f.sid).trans hl
  | endRound t hpc hq => exact (load_clear hq).trans_le (Nat.zero_le _)
  | initializeServerModels t configs hpc hq =>
    exact ((load_configure _ configs).1.trans (load_clear hq)).trans_le (Nat.zero_le _)

end Load

/-! ### Every interleaving -/

theorem conserved_start (m : Manager α) (hl : m.live = .empty) (hc : m.clientModels = .empty)
    (hi : m.idle = []) : Conserved (.start m) fun _ ↦ .unborn := by
  refine ⟨fun t x ↦ iff_of_false nofun nofun, fun sid x ↦ iff_of_false ?_ nofun, fun sid ↦ ?_,
    fun x ↦ iff_of_false ?_ nofun, ?_, fun x ↦ iff_of_true (Nat.zero_le x) rfl,
    fun x ↦ iff_of_false nofun nofun, fun x ↦ Nat.zero_le 1, nofun⟩
  · simp [World.start, hl]
  · simp [World.start, hl, hc]
  · simp [World.start, hi]
  · simp [World.start, hi]

theorem trace_of_step {w w' : World α} (hs : Step finite w w') :
    ∃ events, w'.trace = events ++ w.trace := by
  cases hs with
  | refuse | getServerModel | endRoundRefused => exact ⟨[], rfl⟩
  | _ => exact ⟨_, rfl⟩

theorem noRaise_of_step {w w' : World α} (hs : Step finite w w') (h : NoRaise w'.trace) :
    NoRaise w.trace := by
  obtain ⟨events, ht⟩ := trace_of_step hs
  intro model cause hm
  exact h model cause (ht ▸ List.mem_append_right _ hm)

theorem conserved_of_reachable {w : World α} (h : Reachable finite w) (hr : NoRaise w.trace) :
    ∃ place phase, Conserved w place ∧ Inv w phase ∧ load w.manager ≤ w.manager.capacity := by
  obtain ⟨capacity, modelCapacity, retires, perClientModels, exclusive, hrun⟩ := h
  induction hrun with
  | refl =>
    exact ⟨_, _, conserved_start _ rfl rfl rfl,
      inv_start capacity modelCapacity retires perClientModels exclusive, Nat.zero_le _⟩
  | tail _ hs ih =>
    obtain ⟨place, phase, hc, hi, hl⟩ := ih (noRaise_of_step hs hr)
    obtain ⟨place', hc'⟩ := hc.step hi hs hr
    obtain ⟨phase', hi'⟩ := hi.step hs
    exact ⟨place', phase', hc', hi', load_step hi hl hs⟩

/-- Who may release a model that is bound to a sid: its own failed `acquire` while the sid is
preparing, `end_round` while it is live. -/
def ReleaseAllowed (w : World α) (model : Model) (cause : Cause) : Prop :=
  (∀ sid, w.manager.live.get? sid = some model → cause = .endRound) ∧
  (∀ t sid, claim (w.threads t) = some (sid, .preparing) → heldModel (w.threads t) = some model →
    cause = .failedAcquire sid)

theorem releaseAllowed_of_held {w : World α} {place : Model → Place} (h : Conserved w place) {t : ℕ}
    {model : Model} {cause : Cause} (hold : heldModel (w.threads t) = some model)
    (hc : ∀ sid, claim (w.threads t) = some (sid, .preparing) → cause = .failedAcquire sid) :
    ReleaseAllowed w model cause := by
  have hp : place model = .held t := (h.held t model).mp hold
  refine ⟨fun sid hl ↦ absurd hl (h.not_live (by simp [hp]) sid), fun t' sid hcl hm ↦ ?_⟩
  have hp' : place model = .held t' := (h.held t' model).mp hm
  obtain rfl : t = t' := Place.held.inj (hp.symm.trans hp')
  exact hc sid hcl

theorem releaseAllowed_of_quiet {w : World α} {phase : Sid → Phase} (hi : Inv w phase)
    (hq : w.manager.Quiet) (model : Model) : ReleaseAllowed w model .endRound := by
  refine ⟨fun _ _ ↦ rfl, fun t sid hcl ↦ ?_⟩
  rw [no_claim_of_quiet hi hq t] at hcl
  cases hcl

theorem mem_releases {m : Manager α} {model : Model} {cause : Cause} {raised : Bool}
    (h : Event.released model cause raised ∈ m.releases) : cause = .endRound := by
  obtain ⟨_, -, heq⟩ := List.mem_map.mp (List.mem_reverse.mp h)
  cases heq
  rfl

theorem releaseAllowed_of_step {w w' : World α} {place : Model → Place} {phase : Sid → Phase}
    (h : Conserved w place) (hi : Inv w phase) (hs : Step finite w w') {events : List (Event α)}
    (ht : w'.trace = events ++ w.trace) {model : Model} {cause : Cause} {raised : Bool}
    (hm : .released model cause raised ∈ events) : ReleaseAllowed w model cause := by
  cases hs with
  | «local» t pc es hl =>
    obtain rfl := List.append_cancel_right ht
    generalize hpc : w.threads t = old at hl
    cases hl with
    | unwindModel a model' error raised' =>
      cases List.mem_singleton.mp hm
      refine releaseAllowed_of_held h (by rw [hpc]; rfl) fun sid hcl ↦ ?_
      rw [hpc] at hcl
      cases hcl
      rfl
    | released f stored | releaseRaises f stored error =>
      cases List.mem_singleton.mp hm
      refine releaseAllowed_of_held h (by rw [hpc]; rfl) fun sid hcl ↦ ?_
      rw [hpc] at hcl
      cases hcl
    | failed f error raised' =>
      cases List.mem_singleton.mp hm
      refine releaseAllowed_of_held h (by rw [hpc]; rfl) fun sid hcl ↦ ?_
      rw [hpc] at hcl
      cases hcl
    | _ => simp at hm
  | endRound t hpc hq =>
    obtain rfl := List.append_cancel_right ht
    rcases List.mem_cons.mp hm with hm | hm
    · cases hm
    · cases mem_releases hm
      exact releaseAllowed_of_quiet hi hq model
  | endRoundRaises t before after model' hpc hq hmodels =>
    obtain rfl := List.append_cancel_right ht
    rcases List.mem_cons.mp hm with hm | hm
    · cases hm
      exact releaseAllowed_of_quiet hi hq model
    · obtain ⟨_, -, heq⟩ := List.mem_map.mp (List.mem_reverse.mp hm)
      cases heq
      exact releaseAllowed_of_quiet hi hq model
  | initializeServerModels t configs hpc hq =>
    obtain rfl := List.append_cancel_right ht
    rcases List.mem_cons.mp hm with hm | hm
    · cases hm
    rcases List.mem_cons.mp hm with hm | hm
    · cases hm
    · cases mem_releases hm
      exact releaseAllowed_of_quiet hi hq model
  | refuse | getServerModel | endRoundRefused =>
    obtain rfl : [] = events := List.append_cancel_right ht
    exact absurd hm List.not_mem_nil
  | unregister | commit | number | notePeak | identify | finishAbsent | finishUnconfigured | record
  | publish | close | collect | report =>
    obtain rfl : [] = events := List.append_cancel_right ht
    exact absurd hm List.not_mem_nil
  | reserve | build | finish =>
    obtain rfl := List.append_cancel_right ht
    cases List.mem_singleton.mp hm

/-- The models of a manager whose release hook does not raise. -/
theorem models_conserved {w : World α} (h : Reachable finite w) (hr : NoRaise w.trace) :
    (∀ model, releases w.trace model ≤ 1) ∧
    (∀ t, w.threads t = .ready → w.manager.Quiet →
      ∀ model < (w.endRound t).created, releases (w.endRound t).trace model = 1) ∧
    (∀ model ∈ w.manager.idle, (∀ sid, w.manager.live.get? sid ≠ some model) ∧
      ∀ t, heldModel (w.threads t) ≠ some model) ∧
    load w.manager ≤ w.manager.capacity ∧
    ∀ w' events, Step finite w w' → w'.trace = events ++ w.trace →
      ∀ model cause raised, .released model cause raised ∈ events → ReleaseAllowed w model cause := by
  obtain ⟨place, phase, hc, hi, hl⟩ := conserved_of_reachable h hr
  refine ⟨hc.once, fun t hpc hq model hm ↦ ?_, fun model hm ↦ ?_, hl,
    fun w' events hs ht model cause raised hm ↦ releaseAllowed_of_step hc hi hs ht hm⟩
  · have he := hc.endRound hi hq hpc
    refine (he.gone model).mpr ?_
    cases hp : place model with
    | unborn =>
      have hb : w.created ≤ model := (hc.unborn model).mpr hp
      exact absurd hm (not_lt.mpr hb)
    | _ => rfl
  · have hp : place model = .idle := (hc.idle model).mp hm
    exact ⟨hc.not_live (by simp [hp]), fun t ht ↦ by
      have hh := (hc.held t model).mp ht
      rw [hp] at hh
      cases hh⟩

/-! ### A task that commits and one whose configuration fails -/

theorem committed_model_released : ∃ w : World ℕ, w.created = 1 ∧
    releases (w.endRound 0).trace 0 = 1 := by
  have h₁ := Relation.ReflTransGen.single (@Step.initializeServerModels ℕ (fun _ ↦ true)
    (.start ReplicaHistory.single) 0 [⟨"a", true, 3⟩] rfl ⟨rfl, rfl⟩)
  have h₂ := h₁.tail (.reserve 0 "a" _ none ⟨"a", true, 3⟩ rfl rfl)
  have h₃ := h₂.tail (.build 0 _ rfl)
  have h₄ := h₃.tail (.number 0 _ _ rfl)
  have h₅ := h₄.tail (.notePeak 0 _ _ _ rfl)
  have h₆ := h₅.tail (.local 0 _ _ (.configured _ _ _ false))
  have h₇ := h₆.tail (.commit 0 _ _ _ rfl)
  have hreach : Reachable (fun _ ↦ true) _ := ⟨1, 1, false, true, _, h₇⟩
  refine ⟨_, rfl, (models_conserved hreach ?_).2.1 0 rfl ⟨rfl, rfl⟩ 0 Nat.one_pos⟩
  simp [NoRaise, World.move, World.start, Manager.releases, Manager.roundModels,
    ReplicaHistory.single, Manager.fresh, Dict.values, Dict.empty]

/-- A failed `acquire` releases its model while the sid is still preparing. -/
theorem released_while_preparing :
    ¬ ∀ (finite : ℕ → Bool) (w w' : World ℕ) (model : Model) (cause : Cause),
      Reachable finite w → NoRaise w'.trace → Step finite w w' →
      w'.trace = .released model cause false :: w.trace →
      ∀ t sid stage, claim (w.threads t) = some (sid, stage) → heldModel (w.threads t) = some model →
        sid ∉ w.manager.live.keys ∧ sid ∉ w.manager.preparing := by
  intro h
  have h₁ := Relation.ReflTransGen.single (@Step.initializeServerModels ℕ (fun _ ↦ true)
    (.start ReplicaHistory.single) 0 [⟨"a", true, 3⟩] rfl ⟨rfl, rfl⟩)
  have h₂ := h₁.tail (.reserve 0 "a" _ none ⟨"a", true, 3⟩ rfl rfl)
  have h₃ := h₂.tail (.build 0 _ rfl)
  have h₄ := h₃.tail (.number 0 _ _ rfl)
  have h₅ := h₄.tail (.notePeak 0 _ _ _ rfl)
  have h₆ := h₅.tail (.local 0 _ _ (.configureRaises _ _ _ "failed"))
  have hreach : Reachable (fun _ ↦ true) _ := ⟨1, 1, false, true, _, h₆⟩
  have hn := h (fun _ ↦ true) _ _ 0 (.failedAcquire "a") hreach ?_
    (.local 0 _ _ (.unwindModel _ _ _ false)) rfl 0 "a" .preparing rfl rfl
  · exact hn.2 (Finset.mem_insert_self _ _)
  · simp [NoRaise, World.move, World.start, Manager.releases, Manager.roundModels,
      ReplicaHistory.single, Manager.fresh, Dict.values, Dict.empty]

end SplitFleet.ModelConservation
