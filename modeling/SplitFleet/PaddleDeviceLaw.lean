import SplitFleet.PaddleDeviceGate

set_option autoImplicit false

namespace SplitFleet.PaddleDevice

open Lib

variable {T δ : Type} {device : δ} {rest : List (Frame δ)}

/-! ### The scopes of a thread -/

def innermost (l : List (Frame δ)) : Option δ := l.head?.map Frame.device

theorem innermost_eq_none_iff {l : List (Frame δ)} : innermost l = none ↔ l = [] := by
  simp [innermost]

def Frame.isShared : Frame δ → Bool
  | shared _ => true
  | switched _ _ => false

/-- What `readers` has for a thread. -/
def reading (l : List (Frame δ)) : Option ℤ :=
  if l.countP Frame.isShared = 0 then none else some (l.countP Frame.isShared)

def switches (l : List (Frame δ)) : ℕ := l.countP fun f ↦ !f.isShared

/-- A scope of a reader is for the device of the one around it, and a switch is in some other scope. -/
inductive Chained : List (Frame δ) → Prop
  | nil : Chained []
  | first (device : δ) : Chained [.shared device]
  | again {device : δ} {rest : List (Frame δ)} (h : Chained rest) (hd : innermost rest = some device) :
      Chained (.shared device :: rest)
  | switched (device : δ) {previous : Option δ} {rest : List (Frame δ)} (h : Chained rest) (hne : rest ≠ [])
      (hp : innermost rest = previous) : Chained (.switched device previous :: rest)

theorem Chained.of_cons {f : Frame δ} (h : Chained (f :: rest)) : Chained rest := by
  cases h with
  | first device => exact .nil
  | again h hd => exact h
  | switched device h hne hp => exact h

theorem reading_eq_none_iff {l : List (Frame δ)} (h : Chained l) : reading l = none ↔ l = [] := by
  have hcount : l.countP Frame.isShared = 0 ↔ l = [] := by
    induction h with
    | nil => simp
    | first device => simp [Frame.isShared]
    | again h hd ih => simp [Frame.isShared]
    | switched device h hne hp ih => simpa [Frame.isShared, hne] using ih
  unfold reading
  rw [← hcount]
  split_ifs with hz <;> simp [hz]

theorem reading_cons_shared (l : List (Frame δ)) : reading (.shared device :: l) = some ((reading l).getD 0 + 1) := by
  unfold reading
  rw [List.countP_cons_of_pos (by rfl), if_neg (Nat.succ_ne_zero _)]
  split_ifs with hz <;> simp [hz]

theorem reading_cons_switched (previous : Option δ) (l : List (Frame δ)) :
    reading (.switched device previous :: l) = reading l := by
  unfold reading
  rw [List.countP_cons_of_neg (by simp [Frame.isShared])]

theorem switches_cons_shared (device : δ) (l : List (Frame δ)) : switches (.shared device :: l) = switches l :=
  List.countP_cons_of_neg (by simp [Frame.isShared])

theorem switches_cons_switched (previous : Option δ) (l : List (Frame δ)) :
    switches (.switched device previous :: l) = switches l + 1 := List.countP_cons_of_pos (by rfl)

theorem RLock.of_release_some {T : Type} {t u : T} {n m : ℕ} (h : RLock.release (some (t, n)) = some (u, m)) :
    ∃ k, n = k + 2 := by
  cases n with
  | zero => cases h
  | succ n =>
    cases n with
    | zero => cases h
    | succ k => exact ⟨k, rfl⟩

theorem RLock.of_release_none {T : Type} {t : T} {n : ℕ} (h : RLock.release (some (t, n)) = none) : n ≤ 1 := by
  cases n with
  | zero => exact Nat.zero_le 1
  | succ n =>
    cases n with
    | zero => exact le_rfl
    | succ k => cases h

/-! ### What the gate knows of the scopes -/

variable [DecidableEq T] {g : PaddleDeviceGate T δ} {lock : RLock T} {frames : T → List (Frame δ)} {t : T}

structure Held (g : PaddleDeviceGate T δ) (lock : RLock T) (frames : T → List (Frame δ)) : Prop where
  readers : ∀ t, g.readers.get? t = reading (frames t)
  chained : ∀ t, Chained (frames t)
  current : ∀ t, frames t ≠ [] → g.device = innermost (frames t)
  free : (∀ t, frames t = []) → g.device = none ∧ g.guard = none
  guarded : ∀ t, frames t ≠ [] → g.guard ≠ none
  locked : ∀ t n, lock = some (t, n) → n = switches (frames t) ∧ 0 < n ∧ ∀ u, u ≠ t → frames u = []
  unlocked : lock = none → ∀ t, switches (frames t) = 0

namespace Held

variable (h : Held g lock frames)
include h

theorem get?_eq_none_iff : g.readers.get? t = none ↔ frames t = [] := by
  rw [h.readers, reading_eq_none_iff (h.chained t)]

theorem outside_of_device (hd : g.device = none) (t : T) : frames t = [] := by
  by_contra ht
  exact ht (innermost_eq_none_iff.mp ((h.current t ht).symm.trans hd))

theorem inside_of_device (hd : g.device ≠ none) : ∃ t, frames t ≠ [] := by
  by_contra hall
  exact hd (h.free fun t ↦ by_contra fun ht ↦ hall ⟨t, ht⟩).1

theorem readers_update {readers : Dict T ℤ} {l : List (Frame δ)}
    (hr : ∀ u, readers.get? u = if t = u then reading l else g.readers.get? u) (u : T) :
    readers.get? u = reading (Function.update frames t l u) := by
  rw [hr]
  split_ifs with htu
  · rw [← htu, Function.update_self]
  · rw [Function.update_of_ne (Ne.symm htu), h.readers]

theorem chained_update {l : List (Frame δ)} (hl : Chained l) (u : T) : Chained (Function.update frames t l u) := by
  by_cases hut : u = t
  · rw [hut, Function.update_self]
    exact hl
  · rw [Function.update_of_ne hut]
    exact h.chained u

/-- The lock is with those that switch, after one who may take it has entered or left a scope of a reader. -/
theorem locked_update {l : List (Frame δ)} (ht : ∀ u n, lock = some (u, n) → u = t)
    (hl : switches l = switches (frames t)) :
    (∀ u n, lock = some (u, n) → n = switches (Function.update frames t l u) ∧ 0 < n ∧
      ∀ v, v ≠ u → Function.update frames t l v = []) ∧
    (lock = none → ∀ u, switches (Function.update frames t l u) = 0) := by
  refine ⟨fun u n hu ↦ ?_, fun hn u ↦ ?_⟩
  · obtain rfl := ht u n hu
    obtain ⟨hcount, hpos, hothers⟩ := h.locked u n hu
    rw [Function.update_self, hl]
    refine ⟨hcount, hpos, fun v hv ↦ ?_⟩
    rw [Function.update_of_ne hv]
    exact hothers v hv
  · by_cases hut : u = t
    · rw [hut, Function.update_self, hl]
      exact h.unlocked hn t
    · rw [Function.update_of_ne hut]
      exact h.unlocked hn u

theorem read [DecidableEq δ] (ht : ∀ u n, lock = some (u, n) → u = t) (hadmits : g.admits device) :
    Held (g.read t device) lock (Function.update frames t (.shared device :: frames t)) := by
  have hdevice : (g.read t device).device = some device := by
    unfold PaddleDeviceGate.read
    rcases hadmits with hnone | hsome
    · exact if_pos hnone
    · dsimp only
      rw [hsome, if_neg (Option.some_ne_none device)]
  have hguard : (g.read t device).guard ≠ none := by
    unfold PaddleDeviceGate.read
    dsimp only
    split_ifs with hnone
    · exact Option.some_ne_none device
    · obtain ⟨u, hu⟩ := h.inside_of_device hnone
      exact h.guarded u hu
  have hchained : Chained (.shared device :: frames t) := by
    by_cases hnil : frames t = []
    · rw [hnil]
      exact .first device
    · refine .again (h.chained t) ((h.current t hnil).symm.trans ?_)
      rcases hadmits with hnone | hsome
      · exact absurd (h.outside_of_device hnone t) hnil
      · exact hsome
  have hlocked := h.locked_update ht (switches_cons_shared device (frames t))
  refine ⟨h.readers_update fun u ↦ ?_, h.chained_update hchained, fun u hu ↦ ?_, fun hall ↦ ?_, fun u _ ↦ hguard,
    hlocked.1, hlocked.2⟩
  · rw [PaddleDeviceGate.read, Dict.get?_insert, reading_cons_shared, ← h.readers]
  · rw [hdevice]
    by_cases hut : u = t
    · rw [hut, Function.update_self]
      rfl
    · rw [Function.update_of_ne hut] at hu ⊢
      rw [← h.current u hu]
      rcases hadmits with hnone | hsome
      · exact absurd (h.outside_of_device hnone u) hu
      · exact hsome.symm
  · have hnil := hall t
    rw [Function.update_self] at hnil
    cases hnil

theorem others_of_size (hsize : g.readers.size = 1) (ht : frames t ≠ []) {u : T} (hu : u ≠ t) : frames u = [] := by
  by_contra hne
  have hmem {v : T} (hv : frames v ≠ []) : v ∈ g.readers.keys := by
    by_contra hnot
    exact hv (h.get?_eq_none_iff.mp ((Dict.get?_eq_none_iff _).mpr hnot))
  obtain ⟨p, hp⟩ := List.length_eq_one_iff.mp hsize
  have hkeys : g.readers.keys = [p.1] := by
    rw [Dict.keys, hp]
    rfl
  have hut := hmem hne
  have htt := hmem ht
  rw [hkeys, List.mem_singleton] at hut htt
  exact hu (hut.trans htt.symm)

/-- The sole reader switches to another device. -/
theorem switchTo (ht : ∀ u n, lock = some (u, n) → u = t) (hread : (g.readers.get? t).isSome = true)
    (hsize : g.readers.size = 1) (device : δ) :
    Held { g with device := some device } (lock.acquire t)
      (Function.update frames t (.switched device g.device :: frames t)) := by
  have hne : frames t ≠ [] := by
    intro hnil
    rw [h.get?_eq_none_iff.mpr hnil] at hread
    cases hread
  have hothers {u : T} (hu : u ≠ t) (l : List (Frame δ)) : Function.update frames t l u = [] := by
    rw [Function.update_of_ne hu]
    exact h.others_of_size hsize hne hu
  refine ⟨h.readers_update fun u ↦ ?_, h.chained_update (.switched device (h.chained t) hne (h.current t hne).symm),
    fun u hu ↦ ?_, fun hall ↦ ?_, fun u _ ↦ h.guarded t hne, fun u n hu ↦ ?_, fun hn ↦ by cases lock <;> cases hn⟩
  · rw [reading_cons_switched, ← h.readers]
    split_ifs with htu
    · rw [htu]
    · rfl
  · by_cases hut : u = t
    · rw [hut, Function.update_self]
      rfl
    · exact absurd (hothers hut _) hu
  · have hnil := hall t
    rw [Function.update_self] at hnil
    cases hnil
  · have hcount : u = t ∧ n = switches (frames t) + 1 := by
      cases lock with
      | none =>
        obtain ⟨rfl, rfl⟩ := Prod.mk.inj (Option.some.inj hu)
        exact ⟨rfl, by rw [h.unlocked rfl]⟩
      | some p =>
        obtain ⟨rfl, rfl⟩ := Prod.mk.inj (Option.some.inj hu)
        obtain ⟨v, m⟩ := p
        obtain rfl := ht v m rfl
        exact ⟨rfl, by rw [← (h.locked v m rfl).1]⟩
    obtain ⟨rfl, rfl⟩ := hcount
    refine ⟨?_, Nat.succ_pos _, fun v hv ↦ hothers hv _⟩
    rw [Function.update_self, switches_cons_switched]

/-- A switch ends. -/
theorem switchBack {previous : Option δ} (ht : frames t = .switched device previous :: rest) :
    Held { g with device := previous } lock.release (Function.update frames t rest) := by
  have hne : frames t ≠ [] := ht ▸ List.cons_ne_nil _ _
  have hcount : switches (frames t) = switches rest + 1 := by
    rw [ht, switches_cons_switched]
  obtain ⟨n, rfl⟩ : ∃ n, lock = some (t, n) := by
    cases lock with
    | none =>
      have hzero := h.unlocked rfl t
      omega
    | some p =>
      obtain ⟨u, n⟩ := p
      by_cases hut : t = u
      · exact ⟨n, by rw [hut]⟩
      · exact absurd ((h.locked u n rfl).2.2 t hut) hne
  obtain ⟨hswitches, -, hothers⟩ := h.locked t n rfl
  have hrest (u : T) (hu : u ≠ t) : Function.update frames t rest u = [] := by
    rw [Function.update_of_ne hu]
    exact hothers u hu
  have hchained := h.chained t
  rw [ht] at hchained
  obtain ⟨hrestne, hprevious⟩ : rest ≠ [] ∧ innermost rest = previous := by
    cases hchained with
    | switched device hc hne hp => exact ⟨hne, hp⟩
  refine ⟨h.readers_update fun u ↦ ?_, h.chained_update hchained.of_cons, fun u hu ↦ ?_, fun hall ↦ ?_,
    fun u _ ↦ h.guarded t hne, fun u m hu ↦ ?_, fun hnone u ↦ ?_⟩
  · have hr := h.readers t
    rw [ht, reading_cons_switched] at hr
    split_ifs with htu
    · rw [← htu, hr]
    · rfl
  · by_cases hut : u = t
    · rw [hut, Function.update_self, hprevious]
    · exact absurd (hrest u hut) hu
  · have hnil := hall t
    rw [Function.update_self] at hnil
    exact absurd hnil hrestne
  · obtain ⟨k, rfl⟩ := RLock.of_release_some hu
    obtain ⟨rfl, rfl⟩ := Prod.mk.inj (Option.some.inj hu)
    rw [Function.update_self]
    exact ⟨by omega, Nat.succ_pos k, hrest⟩
  · by_cases hut : u = t
    · rw [hut, Function.update_self]
      have hone := RLock.of_release_none hnone
      omega
    · rw [hrest u hut]
      rfl

theorem readers_endRead (ht : frames t = .shared device :: rest) {n : ℤ} (hn : g.readers.get? t = some n) (u : T) :
    (g.endRead t n).readers.get? u = reading (Function.update frames t rest u) := by
  refine h.readers_update (fun u ↦ ?_) u
  have hcount : n - 1 = rest.countP Frame.isShared := by
    have hr := (h.readers t).symm.trans hn
    rw [ht, reading, List.countP_cons_of_pos (by rfl), if_neg (Nat.succ_ne_zero _)] at hr
    have hsome := Option.some.inj hr
    omega
  rw [PaddleDeviceGate.endRead, hcount, reading]
  dsimp only
  by_cases hz : rest.countP Frame.isShared = 0
  · rw [if_pos (by simp [hz]), if_pos hz, Dict.get?_erase]
  · rw [if_neg (by exact_mod_cast hz), if_neg hz, Dict.get?_insert]

/-- A reader leaves, and some are left. -/
theorem endRead (hlock : ∀ u n, lock = some (u, n) → u = t) (ht : frames t = .shared device :: rest) {n : ℤ}
    (hn : g.readers.get? t = some n) (hleft : (g.endRead t n).readers.entries ≠ []) :
    Held (g.endRead t n) lock (Function.update frames t rest) := by
  have hne : frames t ≠ [] := ht ▸ List.cons_ne_nil _ _
  have hchained := h.chained t
  rw [ht] at hchained
  have hlocked := h.locked_update hlock (l := rest) (by rw [ht, switches_cons_shared])
  have hreaders := h.readers_endRead ht hn
  refine ⟨hreaders, h.chained_update hchained.of_cons, fun u hu ↦ ?_, fun hall ↦ ?_, fun u _ ↦ h.guarded t hne,
    hlocked.1, hlocked.2⟩
  · change g.device = _
    by_cases hut : u = t
    · rw [hut, Function.update_self] at hu ⊢
      have hdevice := h.current t hne
      rw [ht] at hdevice
      cases hchained with
      | first device => exact absurd rfl hu
      | again hc hd => rw [hd]; exact hdevice
    · rw [Function.update_of_ne hut] at hu ⊢
      exact h.current u hu
  · refine absurd ((Dict.entries_eq_nil_iff _).mpr fun u ↦ ?_) hleft
    rw [hreaders, hall]
    rfl

/-- The last reader leaves. -/
theorem release (ht : frames t = .shared device :: rest) {n : ℤ} (hn : g.readers.get? t = some n)
    (hleft : (g.endRead t n).readers.entries = []) :
    (∀ u, Function.update frames t rest u = []) ∧ Held (g.endRead t n).release lock (Function.update frames t rest) := by
  have hchained := h.chained t
  rw [ht] at hchained
  have hreaders := h.readers_endRead ht hn
  have hnil (u : T) : Function.update frames t rest u = [] := by
    refine (reading_eq_none_iff (h.chained_update hchained.of_cons u)).mp ?_
    rw [← hreaders, (Dict.entries_eq_nil_iff _).mp hleft]
  have hrest : rest = [] := by
    have ht' := hnil t
    rwa [Function.update_self] at ht'
  have hunlocked : lock = none := by
    cases lock with
    | none => rfl
    | some p =>
      obtain ⟨u, m⟩ := p
      obtain ⟨hm, hpos, hothers⟩ := h.locked u m rfl
      by_cases hut : t = u
      · subst hut
        rw [ht, switches_cons_shared, hrest] at hm
        exact absurd hm hpos.ne'
      · rw [hothers t hut] at ht
        cases ht
  refine ⟨hnil, hreaders, h.chained_update hchained.of_cons, fun u hu ↦ absurd (hnil u) hu, fun _ ↦ ⟨rfl, rfl⟩,
    fun u hu ↦ absurd (hnil u) hu, fun u m hu ↦ ?_, fun _ u ↦ ?_⟩
  · cases hunlocked.symm.trans hu
  · rw [hnil]
    rfl

end Held

/-! ### One step -/

variable {w w' : World T δ}

structure Inv (w : World T δ) : Prop where
  held : Held w.gate w.lock w.frames
  outside : ∀ t, w.room t ≠ none → w.frames t = []
  /-- Nobody waits at a free gate without having been notified. -/
  notified : w.gate.device = none → ∀ t device notified, w.room t = some (device, notified) → notified = true

/-- The only scope that any thread is in. -/
def World.LastScope (w : World T δ) (t : T) : Prop := (w.frames t).length = 1 ∧ ∀ u, u ≠ t → w.frames u = []

/-- The guard exits when the last reader leaves, unless nobody has still to be notified. -/
def announces (w : World T δ) (a : Action T δ) : Prop :=
  ∀ t, a = .leave t false → w.LastScope t → ∀ u device notified, w.room u = some (device, notified) → notified = true

/-- The count of those that wait is of no account to the rest. -/
theorem Held.countWaiting {g : PaddleDeviceGate T δ} {lock : RLock T} {frames : T → List (Frame δ)}
    (h : Held g lock frames) (n : ℤ) : Held { g with waiting := n } lock frames :=
  ⟨h.readers, h.chained, h.current, h.free, h.guarded, h.locked, h.unlocked⟩

namespace Inv

theorem start : Inv (World.start : World T δ) where
  held := {
    readers := fun _ ↦ rfl
    chained := fun _ ↦ .nil
    current := fun _ ht ↦ absurd rfl ht
    free := fun _ ↦ ⟨rfl, rfl⟩
    guarded := fun _ ht ↦ absurd rfl ht
    locked := fun _ _ ht ↦ by cases ht
    unlocked := fun _ _ ↦ rfl }
  outside _ _ := rfl
  notified _ _ _ _ h := by cases h

variable (h : Inv w)
include h

theorem countWaiting (n : ℤ) : Inv (w.countWaiting n) :=
  ⟨h.held.countWaiting _, h.outside, h.notified⟩

theorem outside_update (hroom : w.room t = none) {l : List (Frame δ)} (u : T) (hu : w.room u ≠ none) :
    Function.update w.frames t l u = [] := by
  have hut : u ≠ t := by
    rintro rfl
    exact hu hroom
  rw [Function.update_of_ne hut]
  exact h.outside u hu

theorem setRoom {x : Option (δ × Bool)} (ht : w.frames t = [])
    (hx : w.gate.device = none → ∀ device, x ≠ some (device, false)) : Inv (w.setRoom t x) := by
  refine ⟨h.held, fun u hu ↦ ?_, fun hd u device notified hu ↦ ?_⟩
  · by_cases hut : u = t
    · rw [hut]
      exact ht
    · refine h.outside u ?_
      simpa [World.setRoom, Function.update_of_ne hut] using hu
  · change Function.update w.room t x u = _ at hu
    by_cases hut : u = t
    · rw [hut, Function.update_self] at hu
      cases notified with
      | true => rfl
      | false => exact absurd hu (hx hd device)
    · rw [Function.update_of_ne hut] at hu
      exact h.notified hd u device notified hu

variable [DecidableEq δ]

theorem proceed (hroom : w.room t = none) (ht : w.unlocked t) (hadmits : w.gate.admits device) (guardEnters : Bool) :
    Inv (w.proceed t device guardEnters).1 := by
  unfold World.proceed
  split_ifs
  · exact h.countWaiting _
  · have hread := h.held.read ht hadmits
    refine ⟨hread.countWaiting _, h.outside_update hroom, fun hd ↦ ?_⟩
    have hcurrent := hread.current t (by rw [Function.update_self]; exact List.cons_ne_nil _ _)
    rw [Function.update_self] at hcurrent
    cases hcurrent.symm.trans hd

theorem scope (hroom : w.room t = none) (ht : w.unlocked t) (device : δ) (guardEnters : Bool) :
    Inv (w.scope t device guardEnters).1 := by
  unfold World.scope
  split_ifs with hswitch
  · unfold World.switchTo
    split_ifs with hsize
    · exact h
    · exact ⟨h.held.switchTo ht hswitch.1 (not_not.mp hsize) device, h.outside_update hroom, fun hd ↦ by cases hd⟩
    · exact h
  dsimp only
  split_ifs with hadmits
  · exact (h.countWaiting 1).proceed hroom ht hadmits guardEnters
  · refine (h.countWaiting 1).setRoom ?_ fun hd ↦ absurd (Or.inl hd) hadmits
    rw [not_and_not_right] at hswitch
    by_contra hne
    have hread : (w.gate.readers.get? t).isSome = true := by
      rw [Option.isSome_iff_ne_none]
      exact fun hnone ↦ hne (h.held.get?_eq_none_iff.mp hnone)
    exact hadmits (.inr (hswitch hread))

theorem wake (ht : w.unlocked t) {guardEnters : Bool} {raised : Option Raised}
    (hs : w.wake t guardEnters = some (w', raised)) : Inv w' := by
  unfold World.wake at hs
  split at hs
  · next device hroom =>
    have hout : w.frames t = [] := h.outside t (by simp [hroom])
    split_ifs at hs with hadmits
    · have hcleared : Inv (w.setRoom t none) := h.setRoom hout fun _ _ hx ↦ by cases hx
      have hproceed := hcleared.proceed (Function.update_self ..) ht hadmits guardEnters
      have hfst : _ = w' := congrArg Prod.fst (Option.some.inj hs)
      exact hfst ▸ hproceed
    · cases hs
      exact h.setRoom hout fun hd ↦ absurd (Or.inl hd) hadmits
  · cases hs

omit [DecidableEq δ] in
theorem leave (hroom : w.room t = none) (ht : w.unlocked t) {guardExits : Bool}
    (ha : announces w (.leave t guardExits)) (hs : w.leave t guardExits = some w') : Inv w' := by
  unfold World.leave at hs
  split at hs
  · cases hs
  · next device previous rest hframes =>
    cases hs
    have hback := h.held.switchBack hframes
    refine ⟨hback, h.outside_update hroom, fun hd ↦ ?_⟩
    have hall := hback.outside_of_device hd t
    have hchained := h.held.chained t
    rw [hframes] at hchained
    rw [Function.update_self] at hall
    cases hchained with
    | switched device hc hne hp => exact absurd hall hne
  · next device rest hframes =>
    obtain ⟨n, hn, rfl⟩ := Option.map_eq_some_iff.mp hs
    have houtside := h.outside_update hroom (l := rest)
    dsimp only
    split_ifs with hleft hexits
    · obtain ⟨-, hheld⟩ := h.held.release hframes hn hleft
      refine ⟨hheld, fun u hu ↦ houtside u fun hnone ↦ hu (Room.notifyAll_eq_none_iff.mpr hnone),
        fun _ u device notified hu ↦ ?_⟩
      obtain ⟨p, -, hp⟩ := Option.map_eq_some_iff.mp hu
      cases hp
      rfl
    · obtain ⟨hnil, hheld⟩ := h.held.release hframes hn hleft
      have hlast : w.LastScope t := by
        refine ⟨?_, fun u hu ↦ ?_⟩
        · have hrest := hnil t
          rw [Function.update_self] at hrest
          rw [hframes, hrest]
          rfl
        · have hu' := hnil u
          rwa [Function.update_of_ne hu] at hu'
      obtain rfl : guardExits = false := by simpa using hexits
      exact ⟨hheld, houtside, fun _ ↦ ha t rfl hlast⟩
    · have hheld := h.held.endRead ht hframes hn hleft
      refine ⟨hheld, fun u hu ↦ houtside u fun hnone ↦ hu (Room.notifyAll_eq_none_iff.mpr hnone),
        fun _ u device notified hu ↦ ?_⟩
      obtain ⟨p, -, hp⟩ := Option.map_eq_some_iff.mp hu
      cases hp
      rfl

theorem next {a : Action T δ} (ha : announces w a) (hs : step w a = some w') : Inv w' := by
  cases a with
  | scope t device guardEnters =>
    unfold step at hs
    dsimp only at hs
    split_ifs at hs with hready
    cases hs
    exact h.scope hready.1 hready.2 device guardEnters
  | leave t guardExits =>
    unfold step at hs
    dsimp only at hs
    split_ifs at hs with hready
    exact h.leave hready.1 hready.2 ha hs
  | wake t guardEnters =>
    unfold step at hs
    dsimp only at hs
    split_ifs at hs with hunlocked
    obtain ⟨⟨u, raised⟩, hu, rfl⟩ := Option.map_eq_some_iff.mp hs
    exact h.wake hunlocked hu

end Inv

/-! ### Runs -/

variable [DecidableEq δ]

/-- What the gate keeps of its threads. -/
structure KeepsDevice (w : World T δ) : Prop where
  device_iff : w.gate.device ≠ none ↔ ∃ t, w.gate.readers.get? t ≠ none
  guard_iff : w.gate.guard ≠ none ↔ ∃ t, w.gate.readers.get? t ≠ none
  reader_iff : ∀ t, w.gate.readers.get? t ≠ none ↔ w.frames t ≠ []
  /-- The body that a thread runs has the device it requested. -/
  current : ∀ t f rest, w.frames t = f :: rest → w.gate.device = some f.device
  same : ∀ t u f f' rest rest', w.frames t = f :: rest → w.frames u = f' :: rest' → f.device = f'.device
  refuses : ∀ t u device guardEnters, w.frames t ≠ [] → w.gate.device ≠ some device → u ≠ t → w.frames u ≠ [] →
    ∃ message, w.scope t device guardEnters = (w, some (.runtimeError message))
  /-- A scope that raises before its body changes nothing. -/
  unchanged : ∀ t device guardEnters w' raised, w.scope t device guardEnters = (w', some raised) → w' = w
  restores : ∀ t device previous rest guardExits w', w.frames t = .switched device previous :: rest →
    step w (.leave t guardExits) = some w' → w'.frames t = rest ∧ rest ≠ [] ∧ w'.gate.device = innermost rest
  /-- Everybody who waits at a free gate has been notified, and can enter. -/
  notified : w.gate.device = none → ∀ t device notified, w.room t = some (device, notified) → notified = true ∧
    ∃ w', step w (.wake t true) = some w' ∧ w'.room t = none ∧ w'.frames t = [.shared device]

namespace Inv

theorem refuses (h : Inv w) {u : T} (ht : w.frames t ≠ []) (hd : w.gate.device ≠ some device) (hut : u ≠ t)
    (hu : w.frames u ≠ []) (guardEnters : Bool) :
    ∃ message, w.scope t device guardEnters = (w, some (.runtimeError message)) := by
  have hread : (w.gate.readers.get? t).isSome = true := by
    rw [Option.isSome_iff_ne_none]
    exact fun hnone ↦ ht (h.held.get?_eq_none_iff.mp hnone)
  have hsize : w.gate.readers.size ≠ 1 := fun hsize ↦ hu (h.held.others_of_size hsize ht hut)
  unfold World.scope
  rw [if_pos ⟨hread, hd⟩, World.switchTo, if_pos hsize]
  exact ⟨_, rfl⟩

theorem wake_free (h : Inv w) (hd : w.gate.device = none) {notified : Bool} (hroom : w.room t = some (device, notified)) :
    notified = true ∧ ∃ w', step w (.wake t true) = some w' ∧ w'.room t = none ∧ w'.frames t = [.shared device] := by
  obtain rfl := h.notified hd t device notified hroom
  have hunlocked : w.unlocked t := by
    intro u n hu
    obtain ⟨hn, hpos, -⟩ := h.held.locked u n hu
    rw [h.held.outside_of_device hd u] at hn
    exact absurd hn hpos.ne'
  have hadmits : w.gate.admits device := .inl hd
  obtain ⟨w', hw', hroom', hframes⟩ : ∃ w', (w.setRoom t none).proceed t device true = (w', none) ∧
      w'.room t = none ∧ w'.frames t = [.shared device] := by
    refine ⟨_, if_neg (by simp), Function.update_self .., ?_⟩
    change Function.update w.frames t (.shared device :: w.frames t) t = _
    rw [Function.update_self, h.held.outside_of_device hd t]
  refine ⟨rfl, w', ?_, hroom', hframes⟩
  unfold step World.wake
  simp only [if_pos hunlocked, hroom, if_pos hadmits, hw', Option.map_some]

end Inv

theorem scope_raised {guardEnters : Bool} {raised : Raised} (hs : w.scope t device guardEnters = (w', some raised)) :
    w' = w := by
  have hfst := congrArg Prod.fst hs
  have hsnd := congrArg Prod.snd hs
  clear hs
  unfold World.scope at hfst hsnd
  split_ifs at hfst hsnd
  · unfold World.switchTo at hfst hsnd
    split_ifs at hfst hsnd
    · exact hfst.symm
    · exact hfst.symm
  · dsimp only at hfst hsnd
    split_ifs at hfst hsnd
    unfold World.proceed at hfst hsnd
    split_ifs at hfst hsnd
    have hcount : (w.countWaiting 1).countWaiting (-1) = w := by
      unfold World.countWaiting World.setGate
      dsimp only
      rw [Int.add_assoc, Int.add_right_neg, Int.add_zero]
    exact hfst.symm.trans hcount

/-- In a run in which the guard exits whenever somebody has still to be notified. -/
theorem keepsDevice_of_reaches (h : Reaches step announces (.start : World T δ) w) : KeepsDevice w := by
  have hinv : Inv w := h.invariant .start fun _ _ _ hi ha hs ↦ hi.next ha hs
  have hheld := hinv.held
  have hreader (t : T) : w.gate.readers.get? t ≠ none ↔ w.frames t ≠ [] := hheld.get?_eq_none_iff.not
  have hcurrent {t : T} {f : Frame δ} {rest : List (Frame δ)} (ht : w.frames t = f :: rest) :
      w.gate.device = some f.device := by
    rw [hheld.current t (ht ▸ List.cons_ne_nil f rest), ht]
    rfl
  constructor
  · simp only [hreader]
    exact ⟨hheld.inside_of_device, fun hinside hd ↦ hinside.elim fun t ht ↦ ht (hheld.outside_of_device hd t)⟩
  · simp only [hreader]
    refine ⟨fun hguard ↦ ?_, fun hinside ↦ hinside.elim hheld.guarded⟩
    by_contra hall
    exact hguard (hheld.free fun t ↦ by_contra fun ht ↦ hall ⟨t, ht⟩).2
  · exact hreader
  · exact fun t f rest ↦ hcurrent
  · exact fun t u f f' rest rest' ht hu ↦ Option.some.inj ((hcurrent ht).symm.trans (hcurrent hu))
  · exact fun t u device guardEnters ht hd hut hu ↦ hinv.refuses ht hd hut hu guardEnters
  · exact fun t device guardEnters w' raised ↦ scope_raised
  · intro t device previous rest guardExits w' ht hs
    unfold step World.leave at hs
    simp only [ht] at hs
    split_ifs at hs
    cases hs
    have hchained := hheld.chained t
    rw [ht] at hchained
    cases hchained with
    | switched device hc hne hp => exact ⟨Function.update_self .., hne, hp.symm⟩
  · exact fun hd t device notified ↦ hinv.wake_free hd

/-- A reader and a thread that waits for another device. -/
theorem keepsDevice_of_waiting : ∃ w : World Bool Bool, w.gate.device = some true ∧
    w.room false = some (false, false) ∧ KeepsDevice w := by
  have h : Reaches step announces (.start : World Bool Bool) _ :=
    .next (.scope false false true) (.next (.scope true true true) .start (fun _ ha ↦ by cases ha) rfl)
      (fun _ ha ↦ by cases ha) rfl
  exact ⟨_, rfl, rfl, keepsDevice_of_reaches h⟩

/-- The guard raises when the last reader leaves, and the thread that waits is not told. -/
theorem waiter_left_unnotified : ∃ w : World Bool Bool, Reaches step (fun _ _ ↦ True) .start w ∧
    w.gate.device = none ∧ w.room false = some (false, false) := by
  refine ⟨_, .next (.leave true false) (.next (.scope false false true) (.next (.scope true true true) .start
    trivial rfl) trivial rfl) trivial rfl, rfl, rfl⟩

end SplitFleet.PaddleDevice
