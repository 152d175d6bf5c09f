import SplitFleet.NativeCaptureGate

set_option autoImplicit false

namespace SplitFleet.NativeCapture

open Lib

variable {T : Type} [DecidableEq T] {g : NativeCaptureGate T} {sc : T → List Scope} {t : T} {rest : List Scope}

/-! ### What the gate knows of the scopes -/

/-- What `readers` has for a thread. -/
def reading (scopes : List Scope) : Option ℤ :=
  if scopes.count .execution = 0 then none else some (scopes.count .execution)

/-- The counters of a gate for threads that are in these scopes. -/
structure Held (g : NativeCaptureGate T) (sc : T → List Scope) : Prop where
  written : ∀ t, g.writer = some t → g.writeDepth = (sc t).count .capture ∧ Scope.capture ∈ sc t ∧ ∀ u, u ≠ t → sc u = []
  unwritten : g.writer = none → ∀ t, Scope.capture ∉ sc t
  readers : ∀ t, g.readers.get? t = reading (sc t)

theorem reading_cons_capture (scopes : List Scope) : reading (.capture :: scopes) = reading scopes := by
  simp [reading]

theorem reading_cons_execution (scopes : List Scope) :
    reading (.execution :: scopes) = some ((reading scopes).getD 0 + 1) := by
  unfold reading
  rw [List.count_cons_self, if_neg (Nat.succ_ne_zero _)]
  split_ifs with h <;> simp [h]

theorem eq_nil_of_notMem {scopes : List Scope} (he : Scope.execution ∉ scopes) (hc : Scope.capture ∉ scopes) :
    scopes = [] := by
  refine List.eq_nil_iff_forall_not_mem.mpr fun s hs ↦ ?_
  cases s with
  | execution => exact he hs
  | capture => exact hc hs

theorem reading_eq_none_iff {scopes : List Scope} : reading scopes = none ↔ Scope.execution ∉ scopes := by
  unfold reading
  rw [← List.count_eq_zero]
  split_ifs with h <;> simp [h]

namespace Held

variable (h : Held g sc)
include h

theorem writer_of_capture (ht : Scope.capture ∈ sc t) : g.writer = some t := by
  cases hw : g.writer with
  | none => exact absurd ht (h.unwritten hw t)
  | some u =>
    by_cases hut : t = u
    · rw [hut]
    · rw [(h.written u hw).2.2 t hut] at ht
      cases ht

/-- A thread that is no writer and no reader is in no scope. -/
theorem outside (hw : g.writer ≠ some t) (hr : g.readers.get? t = none) : sc t = [] :=
  eq_nil_of_notMem (reading_eq_none_iff.mp ((h.readers t).symm.trans hr)) fun hc ↦ hw (h.writer_of_capture hc)

theorem readers_update {readers : Dict T ℤ} {scopes : List Scope}
    (hr : ∀ u, readers.get? u = if t = u then reading scopes else g.readers.get? u) (u : T) :
    readers.get? u = reading (Function.update sc t scopes u) := by
  rw [hr]
  split_ifs with htu
  · rw [← htu, Function.update_self]
  · rw [Function.update_of_ne (Ne.symm htu), h.readers]

theorem read (hw : ∀ u, g.writer = some u → u = t) : Held (g.read t) (Function.update sc t (.execution :: sc t)) := by
  refine ⟨fun u hu ↦ ?_, fun hn u ↦ ?_, h.readers_update fun u ↦ ?_⟩
  · obtain rfl := hw u hu
    obtain ⟨hdepth, hmem, hothers⟩ := h.written u hu
    rw [Function.update_self]
    refine ⟨hdepth.trans (by simp), List.mem_cons_of_mem _ hmem, fun v hv ↦ ?_⟩
    rw [Function.update_of_ne hv]
    exact hothers v hv
  · by_cases hut : u = t
    · subst hut
      rw [Function.update_self]
      simpa using h.unwritten hn u
    · rw [Function.update_of_ne hut]
      exact h.unwritten hn u
  · rw [NativeCaptureGate.read, Dict.get?_insert, reading_cons_execution, ← h.readers]

theorem deepen (hw : g.writer = some t) :
    Held { g with writeDepth := g.writeDepth + 1 } (Function.update sc t (.capture :: sc t)) := by
  refine ⟨fun u hu ↦ ?_, fun hn ↦ ?_, h.readers_update fun u ↦ ?_⟩
  · obtain rfl := Option.some.inj (hw.symm.trans hu)
    obtain ⟨hdepth, hmem, hothers⟩ := h.written t hw
    rw [Function.update_self]
    refine ⟨by simpa using hdepth, List.mem_cons_self, fun v hv ↦ ?_⟩
    rw [Function.update_of_ne hv]
    exact hothers v hv
  · cases hw.symm.trans hn
  · rw [reading_cons_capture, ← h.readers]
    split_ifs with htu
    · rw [htu]
    · rfl

theorem all_outside (hw : g.writer = none) (hr : g.readers.entries = []) (u : T) : sc u = [] := by
  exact h.outside (by simp [hw]) ((Dict.entries_eq_nil_iff _).mp hr u)

theorem write (hw : g.writer = none) (hr : g.readers.entries = []) (t : T) :
    Held (g.write t) (Function.update sc t (.capture :: sc t)) := by
  have hnil := h.all_outside hw hr
  refine ⟨fun u hu ↦ ?_, fun hn ↦ ?_, h.readers_update fun u ↦ ?_⟩
  · obtain rfl := Option.some.inj hu
    rw [Function.update_self, hnil]
    refine ⟨rfl, List.mem_cons_self, fun v hv ↦ ?_⟩
    rw [Function.update_of_ne hv, hnil]
  · cases hn
  · rw [reading_cons_capture, ← h.readers]
    split_ifs with htu
    · rw [htu]; rfl
    · rfl

theorem endRead (ht : sc t = .execution :: rest) {n : ℤ} (hn : g.readers.get? t = some n) :
    Held (g.endRead t n) (Function.update sc t rest) := by
  have hcount : n = rest.count .execution + 1 := by
    have hr := (h.readers t).symm.trans hn
    rw [ht, reading, List.count_cons_self, if_neg (Nat.succ_ne_zero _)] at hr
    exact (Option.some.inj hr).symm
  refine ⟨fun u hu ↦ ?_, fun hw u ↦ ?_, h.readers_update fun u ↦ ?_⟩
  · obtain ⟨hdepth, hmem, hothers⟩ := h.written u hu
    obtain rfl : t = u := by
      by_contra htu
      rw [hothers t htu] at ht
      cases ht
    rw [ht] at hdepth hmem
    rw [Function.update_self]
    refine ⟨hdepth.trans (by simp), by simpa using hmem, fun v hv ↦ ?_⟩
    rw [Function.update_of_ne hv]
    exact hothers v hv
  · by_cases hut : u = t
    · subst hut
      have hnot := h.unwritten hw u
      rw [ht] at hnot
      rw [Function.update_self]
      exact fun hmem ↦ hnot (List.mem_cons_of_mem _ hmem)
    · rw [Function.update_of_ne hut]
      exact h.unwritten hw u
  · have hsub : n - 1 = rest.count .execution := by omega
    rw [NativeCaptureGate.endRead, hsub, reading]
    dsimp only
    by_cases hz : rest.count .execution = 0
    · rw [if_pos (by simp [hz]), if_pos hz, Dict.get?_erase]
    · rw [if_neg (by exact_mod_cast hz), if_neg hz, Dict.get?_insert]

theorem endWrite (ht : sc t = .capture :: rest) : Held g.endWrite (Function.update sc t rest) := by
  have hw : g.writer = some t := h.writer_of_capture (ht ▸ List.mem_cons_self)
  obtain ⟨hdepth, -, hothers⟩ := h.written t hw
  rw [ht, List.count_cons_self] at hdepth
  have hsub : g.writeDepth - 1 = rest.count .capture := by
    rw [hdepth]
    simp
  have hrest {u : T} (hu : u ≠ t) : Function.update sc t rest u = [] := by
    rw [Function.update_of_ne hu]
    exact hothers u hu
  refine ⟨fun u hu ↦ ?_, fun hn u ↦ ?_, h.readers_update fun u ↦ ?_⟩
  · unfold NativeCaptureGate.endWrite at hu ⊢
    dsimp only at hu ⊢
    rw [hsub] at hu ⊢
    split_ifs at hu with hz
    obtain rfl := Option.some.inj (hw.symm.trans hu)
    rw [Function.update_self]
    refine ⟨rfl, List.count_pos_iff.mp (Nat.pos_of_ne_zero (by exact_mod_cast hz)), fun v hv ↦ hrest hv⟩
  · by_cases hut : u = t
    · subst hut
      unfold NativeCaptureGate.endWrite at hn
      dsimp only at hn
      rw [hsub] at hn
      split_ifs at hn with hz
      · rw [Function.update_self]
        exact List.count_eq_zero.mp (by exact_mod_cast hz)
      · cases hw.symm.trans hn
    · rw [hrest hut]
      exact List.not_mem_nil
  · have hr := h.readers t
    rw [ht, reading_cons_capture] at hr
    change g.readers.get? u = _
    split_ifs with htu
    · rw [← htu, hr]
    · rfl

end Held

/-! ### One step -/

variable [Fintype T] {w w' : World T} {extra extra' : ℤ}

/-- The invariant, with `waiting_writers` ahead of those that wait by `extra`. -/
structure Consistent (extra : ℤ) (w : World T) : Prop where
  held : Held w.gate w.scopes
  outside : ∀ t, w.room t ≠ none → w.scopes t = []
  waitingWriters : w.gate.waitingWriters = w.room.count .capture + extra
  noneLost : w.room.NoneLost w.gate.admits

namespace Consistent

theorem start : Consistent 0 (World.start : World T) where
  held := {
    written := fun t ht ↦ by cases ht
    unwritten := fun _ _ ↦ List.not_mem_nil
    readers := fun _ ↦ rfl }
  outside _ _ := rfl
  waitingWriters := by simp [World.start, NativeCaptureGate.start, Room.empty, Room.count]
  noneLost t k h := by cases h

variable (h : Consistent extra w)
include h

theorem update {x : Option (Scope × Bool)} (hs : w.scopes t = []) (hx : ∀ s, x = some (s, false) → ¬ w.gate.admits s)
    (hextra : extra' + (if x.map Prod.fst = some .capture then 1 else 0) =
      extra + if (w.room t).map Prod.fst = some .capture then 1 else 0) :
    Consistent extra' { w with room := Function.update w.room t x } := by
  refine ⟨h.held, fun u hu ↦ ?_, ?_, h.noneLost.update hx⟩
  · by_cases hut : u = t
    · exact hut ▸ hs
    · dsimp only at hu
      rw [Function.update_of_ne hut] at hu
      exact h.outside u hu
  · have hcount := Room.count_update w.room .capture t x
    have hwaiting := h.waitingWriters
    dsimp only
    split_ifs at hcount hextra <;> omega

/-- The gate of the threads that wait changes to one that admits no more. -/
theorem setGate {g : NativeCaptureGate T} {scopes : T → List Scope} (hheld : Held g scopes)
    (hscopes : ∀ t, w.room t ≠ none → scopes t = []) (hg : g.waitingWriters + extra = w.gate.waitingWriters + extra')
    (hmono : ∀ s, g.admits s → w.gate.admits s) : Consistent extra' { w with gate := g, scopes := scopes } := by
  refine ⟨hheld, hscopes, ?_, h.noneLost.mono hmono⟩
  have hwaiting := h.waitingWriters
  dsimp only
  omega

/-- The gate changes, and all that wait are notified. -/
theorem notify {g : NativeCaptureGate T} {scopes : T → List Scope} (hheld : Held g scopes)
    (hscopes : ∀ t, w.room t ≠ none → scopes t = []) (hg : g.waitingWriters + extra = w.gate.waitingWriters + extra') :
    Consistent extra' ⟨g, w.room.notifyAll, scopes⟩ := by
  refine ⟨hheld, fun t ht ↦ hscopes t fun hr ↦ ht (Room.notifyAll_eq_none_iff.mpr hr), ?_, Room.noneLost_notifyAll _ _⟩
  have hwaiting := h.waitingWriters
  rw [Room.count_notifyAll]
  dsimp only
  omega

theorem outside_push (hroom : w.room t = none) {scopes : List Scope} (u : T) (hu : w.room u ≠ none) :
    Function.update w.scopes t scopes u = [] := by
  have hut : u ≠ t := by
    rintro rfl
    exact hu hroom
  rw [Function.update_of_ne hut]
  exact h.outside u hu

theorem beginExecution (hroom : w.room t = none) (hw : ∀ u, w.gate.writer = some u → u = t) :
    Consistent extra (w.beginExecution t) := by
  refine h.setGate (h.held.read hw) (h.outside_push hroom) rfl fun s hs ↦ ?_
  cases s with
  | execution => exact hs
  | capture =>
    have hget := Dict.get?_insert w.gate.readers t t ((w.gate.readers.get? t).getD 0 + 1)
    have hnil : (w.gate.readers.insert t ((w.gate.readers.get? t).getD 0 + 1)).entries = [] := hs.2
    rw [if_pos rfl, (Dict.entries_eq_nil_iff _).mp hnil] at hget
    cases hget

theorem beginCapture (hroom : w.room t = none) (hadmits : w.gate.admits .capture) :
    Consistent (extra - 1) (w.beginCapture t) := by
  have hg : (w.gate.write t).waitingWriters - 1 + extra = w.gate.waitingWriters + (extra - 1) := by
    change w.gate.waitingWriters - 1 + extra = _
    omega
  have hheld := h.held.write hadmits.1 hadmits.2 t
  exact h.notify ⟨hheld.written, hheld.unwritten, hheld.readers⟩ (h.outside_push hroom) hg

theorem endWait : Consistent (extra - 1) w.endWait := by
  have hheld := h.held
  refine h.notify ⟨hheld.written, hheld.unwritten, hheld.readers⟩ h.outside ?_
  change w.gate.waitingWriters - 1 + extra = _
  omega

end Consistent

namespace Consistent

variable (h : Consistent 0 w)
include h

theorem waitingWriters_nonneg : 0 ≤ w.gate.waitingWriters := by
  rw [h.waitingWriters]
  omega

theorem execution (hroom : w.room t = none) : Consistent 0 (w.execution t) := by
  unfold World.execution
  split_ifs with hwait
  · refine h.update (h.held.outside hwait.2.1 hwait.1) ?_ (by simp [hroom])
    rintro s hs
    cases hs
    exact hwait.2.2
  · refine h.beginExecution hroom fun u hu ↦ ?_
    by_contra hut
    refine hwait ⟨?_, ?_, fun hadmits ↦ ?_⟩
    · rw [h.held.readers, (h.held.written u hu).2.2 t (Ne.symm hut)]
      rfl
    · intro ht
      exact hut (Option.some.inj (hu.symm.trans ht))
    · cases hu.symm.trans hadmits.1

theorem capture (hroom : w.room t = none) (hs : w.capture t = .ok w') : Consistent 0 w' := by
  have hheld := h.held
  unfold World.capture at hs
  split_ifs at hs with hwriter hreader
  · cases hs
    refine h.setGate (hheld.deepen hwriter) (h.outside_push hroom) rfl fun s hs ↦ ?_
    cases s <;> cases hwriter.symm.trans hs.1
  · cases hs
    have hone : Consistent 1 (w.setGate { w.gate with waitingWriters := w.gate.waitingWriters + 1 }) := by
      refine h.setGate ⟨hheld.written, hheld.unwritten, hheld.readers⟩ h.outside (Int.add_zero _) fun s hs ↦ ?_
      cases s with
      | execution =>
        have hzero : w.gate.waitingWriters + 1 = 0 := hs.2
        have hnonneg := h.waitingWriters_nonneg
        omega
      | capture => exact hs
    dsimp only
    split_ifs with hadmits
    · exact hone.beginCapture hroom hadmits
    · refine hone.update (hheld.outside hwriter (Option.not_isSome_iff_eq_none.mp hreader)) ?_ ?_
      · rintro s hs
        cases hs
        exact hadmits
      · have hroom' : (w.setGate { w.gate with waitingWriters := w.gate.waitingWriters + 1 }).room t = none := hroom
        rw [hroom']
        rfl

theorem wake (hs : w.wake t = some w') : Consistent 0 w' := by
  unfold World.wake at hs
  split at hs
  · next s hroom =>
    have houtside : w.scopes t = [] := h.outside t (by simp [hroom])
    have hstop : (w.stopWaiting t).room t = none := Function.update_self ..
    split_ifs at hs with hadmits
    · cases s with
      | execution =>
        cases hs
        have hstopped : Consistent 0 (w.stopWaiting t) := h.update houtside (by simp) (by simp [hroom])
        exact hstopped.beginExecution hstop fun u hu ↦ by cases hu.symm.trans hadmits.1
      | capture =>
        cases hs
        have hstopped : Consistent 1 (w.stopWaiting t) := h.update houtside (by simp) (by simp [hroom])
        exact hstopped.beginCapture hstop hadmits
    · cases hs
      refine h.update houtside ?_ (by simp [hroom])
      rintro s' hs'
      cases hs'
      exact hadmits
  · cases hs

theorem interrupt (hs : w.interrupt t = some w') : Consistent 0 w' := by
  unfold World.interrupt at hs
  split at hs
  · next hroom =>
    cases hs
    exact h.update (h.outside t (by simp [hroom])) (by simp) (by simp [hroom])
  · next hroom =>
    cases hs
    have hstopped : Consistent 1 (w.stopWaiting t) :=
      h.update (h.outside t (by simp [hroom])) (by simp) (by simp [hroom])
    exact hstopped.endWait
  · cases hs

theorem leave (hroom : w.room t = none) (hs : w.leave t = some w') : Consistent 0 w' := by
  unfold World.leave at hs
  split at hs
  · cases hs
  · next rest ht =>
    obtain ⟨n, hn, rfl⟩ := Option.map_eq_some_iff.mp hs
    exact h.notify (h.held.endRead ht hn) (h.outside_push hroom) rfl
  · next rest ht =>
    cases hs
    exact h.notify (h.held.endWrite ht) (h.outside_push hroom) rfl

theorem next {a : Action T} (hs : step w a = some w') : Consistent 0 w' := by
  cases a with
  | execution t =>
    unfold NativeCapture.step at hs
    dsimp only at hs
    split_ifs at hs with hroom
    cases hs
    exact h.execution hroom
  | capture t =>
    unfold NativeCapture.step at hs
    dsimp only at hs
    split_ifs at hs with hroom
    split at hs
    · next hcapture =>
      cases hs
      exact h.capture hroom hcapture
    · cases hs
      exact h
  | leave t =>
    unfold NativeCapture.step at hs
    dsimp only at hs
    split_ifs at hs with hroom
    exact h.leave hroom hs
  | wake t => exact h.wake hs
  | interrupt t => exact h.interrupt hs

end Consistent

/-! ### Runs -/

/-- What the gate keeps of its threads. -/
structure Excluding (w : World T) : Prop where
  exclusive : ∀ t, w.gate.writer = some t → ∀ u, u ≠ t → w.scopes u = []
  writer : ∀ t, Scope.capture ∈ w.scopes t → w.gate.writer = some t
  writeDepth : ∀ t, w.gate.writer = some t → w.gate.writeDepth = (w.scopes t).count .capture
  readers : ∀ t, w.gate.readers.get? t = reading (w.scopes t)
  waitingWriters : w.gate.waitingWriters = w.room.count .capture
  /-- A reader that is not the writer cannot capture. -/
  refuses : ∀ t, w.room t = none → Scope.execution ∈ w.scopes t → w.gate.writer ≠ some t →
    (∃ error, w.capture t = .error error) ∧ step w (.capture t) = some w
  /-- A thread that is in a scope need not wait for another. -/
  reentrant : ∀ t, w.room t = none → w.scopes t ≠ [] →
    (∃ w', step w (.execution t) = some w' ∧ w'.room t = none) ∧ ∃ w', step w (.capture t) = some w' ∧ w'.room t = none
  leaves : ∀ t, w.room t = none → w.scopes t ≠ [] → ∃ w', step w (.leave t) = some w'
  noneLost : ∀ t s, w.room t = some (s, false) → ¬ w.gate.admits s
  /-- When nobody is in a scope, somebody who waits can enter one. -/
  progress : (∀ t, w.scopes t = []) → (∃ t, w.room t ≠ none) →
    ∃ t s w', step w (.wake t) = some w' ∧ w'.room t = none ∧ w'.scopes t = [s]

theorem Consistent.wake_admitted (h : Consistent 0 w) {s : Scope} {notified : Bool} (hroom : w.room t = some (s, notified))
    (hadmits : w.gate.admits s) : ∃ w', step w (.wake t) = some w' ∧ w'.room t = none ∧ w'.scopes t = [s] := by
  have hscopes : w.scopes t = [] := h.outside t (by simp [hroom])
  obtain rfl : notified = true := by
    cases notified with
    | true => rfl
    | false => exact absurd hadmits (h.noneLost t s hroom)
  have hstop : Function.update w.room t none t = none := Function.update_self ..
  have hpush : Function.update w.scopes t (s :: w.scopes t) t = [s] := by
    rw [Function.update_self, hscopes]
  unfold step World.wake
  simp only [hroom, if_pos hadmits]
  cases s with
  | execution => exact ⟨_, rfl, hstop, hpush⟩
  | capture => exact ⟨_, rfl, Room.notifyAll_eq_none_iff.mpr hstop, hpush⟩

theorem Consistent.progress (h : Consistent 0 w) (hout : ∀ t, w.scopes t = []) (hwaits : ∃ t, w.room t ≠ none) :
    ∃ t s w', step w (.wake t) = some w' ∧ w'.room t = none ∧ w'.scopes t = [s] := by
  have hwriter : w.gate.writer = none := by
    cases hw : w.gate.writer with
    | none => rfl
    | some t =>
      have hmem := (h.held.written t hw).2.1
      rw [hout] at hmem
      cases hmem
  by_cases hcapture : ∃ t, (w.room t).map Prod.fst = some .capture
  · obtain ⟨t, ht⟩ := hcapture
    obtain ⟨⟨s, notified⟩, hroom, rfl⟩ := Option.map_eq_some_iff.mp ht
    have hreaders : w.gate.readers.entries = [] := by
      refine (Dict.entries_eq_nil_iff _).mpr fun u ↦ ?_
      rw [h.held.readers, hout]
      rfl
    exact ⟨t, _, h.wake_admitted hroom ⟨hwriter, hreaders⟩⟩
  · obtain ⟨t, ht⟩ := hwaits
    obtain ⟨⟨s, notified⟩, hroom⟩ := Option.ne_none_iff_exists'.mp ht
    have hnone : w.gate.waitingWriters = 0 := by
      have hcount : w.room.count .capture = 0 := by
        refine Finset.card_eq_zero.mpr (Finset.filter_eq_empty_iff.mpr fun u _ hu ↦ ?_)
        exact hcapture ⟨u, hu⟩
      rw [h.waitingWriters, hcount]
      rfl
    cases s with
    | execution => exact ⟨t, _, h.wake_admitted hroom ⟨hwriter, hnone⟩⟩
    | capture => exact absurd ⟨t, by rw [hroom]; rfl⟩ hcapture

theorem Consistent.refuses (h : Consistent 0 w) (hroom : w.room t = none) (hread : Scope.execution ∈ w.scopes t)
    (hw : w.gate.writer ≠ some t) : (∃ error, w.capture t = .error error) ∧ step w (.capture t) = some w := by
  have hsome : (w.gate.readers.get? t).isSome = true := by
    rw [h.held.readers, Option.isSome_iff_ne_none]
    exact fun hnone ↦ reading_eq_none_iff.mp hnone hread
  have hcapture : w.capture t = .error "Cannot capture native operations inside an active execution scope" := by
    unfold World.capture
    rw [if_neg hw, if_pos hsome]
  refine ⟨⟨_, hcapture⟩, ?_⟩
  unfold step
  simp only [if_pos hroom, hcapture]

theorem Consistent.reentrant (h : Consistent 0 w) (hroom : w.room t = none) (hscopes : w.scopes t ≠ []) :
    (∃ w', step w (.execution t) = some w' ∧ w'.room t = none) ∧
      ∃ w', step w (.capture t) = some w' ∧ w'.room t = none := by
  constructor
  · have hexecution : w.execution t = w.beginExecution t := by
      refine if_neg fun hwait ↦ hscopes ?_
      exact h.held.outside hwait.2.1 hwait.1
    refine ⟨w.beginExecution t, ?_, hroom⟩
    unfold step
    simp only [if_pos hroom, hexecution]
  · by_cases hw : w.gate.writer = some t
    · have hok : w.capture t =
          .ok ((w.setGate { w.gate with writeDepth := w.gate.writeDepth + 1 }).push t .capture) := if_pos hw
      refine ⟨(w.setGate { w.gate with writeDepth := w.gate.writeDepth + 1 }).push t .capture, ?_, hroom⟩
      unfold step
      simp only [if_pos hroom, hok]
    · have hread : Scope.execution ∈ w.scopes t := by
        by_contra hnot
        exact hscopes (eq_nil_of_notMem hnot fun hc ↦ hw (h.held.writer_of_capture hc))
      exact ⟨w, (h.refuses hroom hread hw).2, hroom⟩

theorem Consistent.leaves (h : Consistent 0 w) (hroom : w.room t = none) (hscopes : w.scopes t ≠ []) :
    ∃ w', step w (.leave t) = some w' := by
  unfold step World.leave
  simp only [if_pos hroom]
  cases ht : w.scopes t with
  | nil => exact absurd ht hscopes
  | cons s scopes =>
    cases s with
    | capture => exact ⟨_, rfl⟩
    | execution =>
      rw [h.held.readers, ht, reading_cons_execution]
      exact ⟨_, rfl⟩

/-- However the threads enter and leave scopes, and wherever a body or a wait raises. -/
theorem excluding_of_reaches (h : Reaches step (fun _ _ ↦ True) (.start : World T) w) : Excluding w := by
  have hinv : Consistent 0 w := h.invariant .start fun _ _ _ hi _ hs ↦ hi.next hs
  constructor
  · exact fun t ht ↦ (hinv.held.written t ht).2.2
  · exact fun t ht ↦ hinv.held.writer_of_capture ht
  · exact fun t ht ↦ (hinv.held.written t ht).1
  · exact hinv.held.readers
  · rw [hinv.waitingWriters, Int.add_zero]
  · exact fun t ↦ hinv.refuses
  · exact fun t ↦ hinv.reentrant
  · exact fun t ↦ hinv.leaves
  · exact hinv.noneLost
  · exact hinv.progress

/-- A thread captures while another waits to execute. -/
theorem excluding_of_waiting_reader : ∃ w : World Bool, w.gate.writer = some true ∧
    w.room false = some (.execution, false) ∧ Excluding w := by
  have h : Reaches step (fun _ _ ↦ True) (.start : World Bool) _ :=
    .next (.execution false) (.next (.capture true) .start trivial rfl) trivial rfl
  exact ⟨_, rfl, rfl, excluding_of_reaches h⟩

/-- The writer enters an execution scope, and in it a capture scope. -/
theorem writer_captures_in_execution : ∃ w w' : World Unit, Reaches step (fun _ _ ↦ True) .start w ∧
    Scope.execution ∈ w.scopes () ∧ w.capture () = .ok w' ∧ w'.gate.writeDepth ≠ w.gate.writeDepth := by
  refine ⟨_, _, .next (.execution ()) (.next (.capture ()) .start trivial rfl) trivial rfl, ?_, rfl, ?_⟩
  · decide
  · decide

end SplitFleet.NativeCapture
