import Mathlib.Algebra.Order.Field.Rat
import Mathlib.Data.String.Basic
import Mathlib.Tactic.Linarith
import Mathlib.Tactic.Positivity
import Mathlib.Tactic.Ring
import SplitFleet.Lib.Method

set_option autoImplicit false

namespace SplitFleet.Pacing

open Lib

/-- A value of the control state. -/
inductive Setting
  | null
  | bool (b : Bool)
  | number (q : ℚ)
  deriving DecidableEq

abbrev Control := Dict String Setting

structure DirectionPacer where
  direction : String
  nextDue : ℚ
  lastRate : Option ℚ

def DirectionPacer.create (direction : String) : DirectionPacer := ⟨direction, 0, none⟩

/-- `state.get(f"{direction}_mbps", state.get("cap_mbps"))` -/
def capSetting (direction : String) (state : Control) : Setting :=
  (state.get? (direction ++ "_mbps")).getD ((state.get? "cap_mbps").getD .null)

/-- The rate in megabits a second, without one where the stream is not capped. -/
def rateOf (direction : String) (state : Control) : Except PyError (Option ℚ) :=
  match capSetting direction state with
  | .null => .ok none
  | .bool _ => .error (.valueError "TCP cap must be positive or null")
  | .number rate => if rate ≤ 0 then .error (.valueError "TCP cap must be positive or null") else .ok (some rate)

/-- `float(state.get("rtt_ms", 0.)) / 2000.` -/
def latencyOf (state : Control) : Except PyError ℚ :=
  match (state.get? "rtt_ms").getD (.number 0) with
  | .null => .error (.typeError "float() argument must be a string or a real number, not 'NoneType'")
  | .bool b => .ok ((if b then 1 else 0) / 2000)
  | .number rtt => .ok (rtt / 2000)

/-- The bytes that a rate lets through in a second. -/
def bytesPerSecond (rate : ℚ) : ℚ := rate * 1000000 / 8

/-- When the bytes are due, in the section under the lock. -/
def dueAt (rate : Option ℚ) (now : ℚ) (count : ℕ) (p : DirectionPacer) : ℚ :=
  let nextDue := if rate ≠ p.lastRate then now else p.nextDue
  match rate with
  | none => now
  | some r => max now nextDue + count * 8 / (r * 1000000)

def DirectionPacer.advance (rate : Option ℚ) (now : ℚ) (count : ℕ) (p : DirectionPacer) : DirectionPacer :=
  { p with nextDue := dueAt rate now count p, lastRate := rate }

/-- `reserve`. The control state was read before the lock was taken, at `now` it is held. -/
def reserve (state : Control) (now : ℚ) (count : ℕ) : Method DirectionPacer ℚ := do
  let p ← get
  let rate ← rateOf p.direction state
  set (p.advance rate now count)
  let latency ← latencyOf state
  if latency < 0 then throw (.valueError "TCP RTT must be nonnegative")
  return dueAt rate now count p + latency

/-- A call of `reserve`, in the order in which the calls hold the lock. -/
structure Call where
  state : Control
  now : ℚ
  count : ℕ

/-- A call that returned, with its due time, and whether it changed the rate while earlier bytes were still to come. -/
structure Reservation where
  call : Call
  due : ℚ
  cut : Bool

/-- The rate is not the last one, and bytes are due later than now. -/
def cuts (c : Call) (p : DirectionPacer) : Bool :=
  decide ((rateOf p.direction c.state).toOption.join ≠ p.lastRate ∧ c.now < p.nextDue)

def reservations : DirectionPacer → List Call → List Reservation
  | _, [] => []
  | p, c :: calls =>
    match (reserve c.state c.now c.count).run p with
    | .ok due p' => ⟨c, due, cuts c p⟩ :: reservations p' calls
    | .error _ p' => reservations p' calls

/-- The bytes that are due in `(s, t]`. -/
def bytesDue (s t : ℚ) (l : List Reservation) : ℕ :=
  ((l.filter fun r ↦ s < r.due ∧ r.due ≤ t).map (·.call.count)).sum

def cutsIn (l : List Reservation) : ℕ := l.countP (·.cut)

/-- A control state with a finite positive rate and without a round trip time. -/
structure Capped (direction : String) (state : Control) (rate : ℚ) : Prop where
  setting : capSetting direction state = .number rate
  positive : 0 < rate
  undelayed : latencyOf state = .ok 0

section Capped

variable {direction : String} {p : DirectionPacer} {c : Call} {rate : ℚ}

theorem Capped.rateOf_eq {state : Control} (h : Capped direction state rate) :
    rateOf direction state = .ok (some rate) := by
  rw [rateOf, h.setting]
  exact if_neg (not_le.mpr h.positive)

/-- What a call does that returns. -/
theorem reserve_run (h : Capped p.direction c.state rate) :
    (reserve c.state c.now c.count).run p =
      .ok (dueAt (some rate) c.now c.count p) (p.advance (some rate) c.now c.count) := by
  simp [reserve, h.rateOf_eq, h.undelayed, EStateM.run_bind, EStateM.run_get, EStateM.run_set, EStateM.run_pure]

theorem reservations_cons (h : Capped p.direction c.state rate) (calls : List Call) :
    reservations p (c :: calls) =
      ⟨c, dueAt (some rate) c.now c.count p, cuts c p⟩ ::
        reservations (p.advance (some rate) c.now c.count) calls := by
  rw [reservations, reserve_run h]

theorem cuts_eq (h : Capped p.direction c.state rate) :
    cuts c p = true ↔ some rate ≠ p.lastRate ∧ c.now < p.nextDue := by
  rw [cuts, h.rateOf_eq, decide_eq_true_eq]
  rfl

/-- Behind a call that cuts nothing off, the bytes follow the earlier ones at the rate. -/
theorem le_dueAt (h : ¬(some rate ≠ p.lastRate ∧ c.now < p.nextDue)) :
    p.nextDue + c.count * 8 / (rate * 1000000) ≤ dueAt (some rate) c.now c.count p := by
  rw [dueAt]
  apply add_le_add_left
  by_cases hrate : some rate ≠ p.lastRate
  · rw [if_pos hrate]
    exact (not_lt.mp fun hnow ↦ h ⟨hrate, hnow⟩).trans (le_max_left ..)
  · rw [if_neg hrate]
    exact le_max_right ..

end Capped

section Bound

variable {direction : String} {s t R : ℚ} {B : ℕ} {p : DirectionPacer} {calls : List Call}

theorem bytesDue_cons (r : Reservation) (l : List Reservation) :
    bytesDue s t (r :: l) = (if s < r.due ∧ r.due ≤ t then r.call.count else 0) + bytesDue s t l := by
  rw [bytesDue, bytesDue, List.filter_cons]
  by_cases h : s < r.due ∧ r.due ≤ t
  · rw [if_pos (decide_eq_true h), if_pos h, List.map_cons, List.sum_cons]
  · rw [if_neg (by simpa using h), if_neg h, Nat.zero_add]

theorem cutsIn_cons (r : Reservation) (l : List Reservation) :
    cutsIn (r :: l) = cutsIn l + if r.cut then 1 else 0 := by
  rw [cutsIn, List.countP_cons]
  rfl

/-- The calls are for blocks of at most `B` bytes, at rates of at most `R` where the bytes are due in `(s, t]`. -/
structure Fits (direction : String) (s t R : ℚ) (B : ℕ) (p : DirectionPacer) (calls : List Call) : Prop where
  direction_eq : p.direction = direction
  capped : ∀ c ∈ calls, ∃ rate, Capped direction c.state rate
  count_le : ∀ c ∈ calls, c.count ≤ B
  rate_le : ∀ r ∈ reservations p calls, s < r.due → r.due ≤ t →
    ∀ rate, Capped direction r.call.state rate → rate ≤ R

/-- The rest of the calls, and what is known of the first one. -/
theorem Fits.uncons {c : Call} (h : Fits direction s t R B p (c :: calls)) :
    ∃ rate, Capped p.direction c.state rate ∧ c.count ≤ B ∧
      (s < dueAt (some rate) c.now c.count p → dueAt (some rate) c.now c.count p ≤ t → rate ≤ R) ∧
      Fits direction s t R B (p.advance (some rate) c.now c.count) calls := by
  obtain ⟨hdirection, hcapped, hcount, hrate⟩ := h
  obtain ⟨rate, hc⟩ := hcapped c List.mem_cons_self
  rw [← hdirection] at hc
  rw [reservations_cons hc] at hrate
  refine ⟨rate, hc, hcount c List.mem_cons_self, ?_, hdirection, ?_, ?_, ?_⟩
  · intro hs ht
    exact hrate _ List.mem_cons_self hs ht rate (hdirection ▸ hc)
  · exact fun d hd ↦ hcapped d (List.mem_cons_of_mem c hd)
  · exact fun d hd ↦ hcount d (List.mem_cons_of_mem c hd)
  · exact fun r hr ↦ hrate r (List.mem_cons_of_mem _ hr)

/-- What one unbroken schedule lets through in `(s, t]`. -/
def burst (s t R : ℚ) (B : ℕ) : ℚ := bytesPerSecond R * (t - s) + B

theorem bytesPerSecond_nonneg (hR : 0 ≤ R) : 0 ≤ bytesPerSecond R := by
  rw [bytesPerSecond]
  positivity

theorem burst_nonneg (hst : s ≤ t) (hR : 0 ≤ R) : 0 ≤ burst s t R B := by
  have hlength : 0 ≤ t - s := sub_nonneg.mpr hst
  exact add_nonneg (mul_nonneg (bytesPerSecond_nonneg hR) hlength) (Nat.cast_nonneg B)

/-- The two bounds for a stretch of calls: from any state, and from a state whose bytes are due up to a time in the
interval. -/
structure Bounded (s t R : ℚ) (B : ℕ) (p : DirectionPacer) (calls : List Call) : Prop where
  all : (bytesDue s t (reservations p calls) : ℚ) ≤
    burst s t R B + cutsIn (reservations p calls).tail * burst s t R B
  later : s ≤ p.nextDue → (bytesDue s t (reservations p calls) : ℚ) ≤
    bytesPerSecond R * max 0 (t - p.nextDue) + cutsIn (reservations p calls) * burst s t R B

/-- The bytes of a call take their time at the rate. -/
theorem count_le_of_le {rate x : ℚ} {n : ℕ} (hrate : 0 < rate) (hR : rate ≤ R) (hx : n * 8 / (rate * 1000000) ≤ x) :
    (n : ℚ) ≤ bytesPerSecond R * x := by
  have hx0 : 0 ≤ x := le_trans (by positivity) hx
  rw [div_le_iff₀ (by positivity)] at hx
  have hmul : x * rate ≤ x * R := mul_le_mul_of_nonneg_left hR hx0
  rw [bytesPerSecond]
  linarith

theorem cutsIn_tail_le (l : List Reservation) : cutsIn l.tail ≤ cutsIn l := (List.tail_sublist l).countP_le

section Cons

variable {c : Call} {rate : ℚ} (hR : 0 ≤ R) (hc : Capped p.direction c.state rate)
  (h : Bounded s t R B (p.advance (some rate) c.now c.count) calls)

include hR hc h

/-- A call after which the schedule is unbroken: its own bytes, and what follows them. -/
theorem Bounded.cons_all (hst : s ≤ t) (hcount : c.count ≤ B) :
    (bytesDue s t (reservations p (c :: calls)) : ℚ) ≤ burst s t R B +
      cutsIn (reservations (p.advance (some rate) c.now c.count) calls) * burst s t R B := by
  obtain ⟨hall, hlater⟩ := h
  have hburst := burst_nonneg (B := B) hst hR
  have hspeed := bytesPerSecond_nonneg hR
  have htail : (cutsIn (reservations (p.advance (some rate) c.now c.count) calls).tail : ℚ) * burst s t R B ≤
      cutsIn (reservations (p.advance (some rate) c.now c.count) calls) * burst s t R B :=
    mul_le_mul_of_nonneg_right (Nat.cast_le.mpr (cutsIn_tail_le _)) hburst
  have hB : (c.count : ℚ) ≤ B := Nat.cast_le.mpr hcount
  have hdue : (p.advance (some rate) c.now c.count).nextDue = dueAt (some rate) c.now c.count p := rfl
  rw [reservations_cons hc, bytesDue_cons, Nat.cast_add]
  rw [hdue] at hlater
  by_cases hs : s < dueAt (some rate) c.now c.count p
  · have hlater := hlater hs.le
    have hlength : max 0 (t - dueAt (some rate) c.now c.count p) ≤ t - s := by
      apply max_le <;> linarith
    have hrest := mul_le_mul_of_nonneg_left hlength hspeed
    have hown : (((if s < dueAt (some rate) c.now c.count p ∧ dueAt (some rate) c.now c.count p ≤ t then c.count
        else 0 : ℕ)) : ℚ) ≤ B := by
      split_ifs
      · exact hB
      · exact Nat.cast_nonneg B
    refine (add_le_add hown hlater).trans ?_
    rw [burst]
    linarith
  · rw [if_neg fun hin ↦ hs hin.1, Nat.cast_zero]
    linarith

/-- A call that cuts nothing off takes its time behind the bytes that are due already. -/
theorem Bounded.cons_later (hs : s ≤ p.nextDue) (hcut : ¬(some rate ≠ p.lastRate ∧ c.now < p.nextDue))
    (hrate : s < dueAt (some rate) c.now c.count p → dueAt (some rate) c.now c.count p ≤ t → rate ≤ R) :
    (bytesDue s t (reservations p (c :: calls)) : ℚ) ≤ bytesPerSecond R * max 0 (t - p.nextDue) +
      cutsIn (reservations (p.advance (some rate) c.now c.count) calls) * burst s t R B := by
  have hspeed := bytesPerSecond_nonneg hR
  have hclear := le_dueAt hcut
  have hpos := hc.positive
  obtain ⟨x, hx⟩ : ∃ x : ℚ, x = c.count * 8 / (rate * 1000000) := ⟨_, rfl⟩
  have htime : 0 ≤ x := by
    rw [hx]
    positivity
  rw [← hx] at hclear
  have hdue : (p.advance (some rate) c.now c.count).nextDue = dueAt (some rate) c.now c.count p := rfl
  have hlater := h.later
  rw [hdue] at hlater
  rw [reservations_cons hc, bytesDue_cons, Nat.cast_add]
  generalize dueAt (some rate) c.now c.count p = due at *
  have hlater := hlater (by linarith)
  by_cases hin : s < due ∧ due ≤ t
  · have hown := count_le_of_le (x := due - p.nextDue) hpos (hrate hin.1 hin.2) (by rw [← hx]; linarith)
    rw [if_pos hin]
    rw [max_eq_right (by linarith)] at hlater ⊢
    linarith
  · have hlength : max 0 (t - due) ≤ max 0 (t - p.nextDue) := max_le_max le_rfl (by linarith)
    have hrest := mul_le_mul_of_nonneg_left hlength hspeed
    rw [if_neg hin, Nat.cast_zero]
    linarith

end Cons

theorem bounded (hst : s ≤ t) (hR : 0 ≤ R) (h : Fits direction s t R B p calls) : Bounded s t R B p calls := by
  have hburst := burst_nonneg (B := B) hst hR
  induction calls generalizing p with
  | nil =>
    constructor
    · simpa [reservations, bytesDue, cutsIn] using hburst
    · intro _
      have : 0 ≤ bytesPerSecond R * max 0 (t - p.nextDue) :=
        mul_nonneg (bytesPerSecond_nonneg hR) (le_max_left ..)
      simpa [reservations, bytesDue, cutsIn] using this
  | cons c calls ih =>
    obtain ⟨rate, hc, hcount, hrate, hrest⟩ := h.uncons
    have hall := (ih hrest).cons_all hR hc hst hcount
    constructor
    · rw [reservations_cons hc, List.tail_cons, ← reservations_cons hc]
      exact hall
    · intro hs
      by_cases hcut : some rate ≠ p.lastRate ∧ c.now < p.nextDue
      · have htime : 0 ≤ bytesPerSecond R * max 0 (t - p.nextDue) :=
          mul_nonneg (bytesPerSecond_nonneg hR) (le_max_left ..)
        have hcount : cutsIn (reservations p (c :: calls)) =
            cutsIn (reservations (p.advance (some rate) c.now c.count) calls) + 1 := by
          rw [reservations_cons hc, cutsIn_cons, if_pos ((cuts_eq hc).mpr hcut)]
        rw [hcount, Nat.cast_succ]
        linarith
      · have hcount : cutsIn (reservations p (c :: calls)) =
            cutsIn (reservations (p.advance (some rate) c.now c.count) calls) := by
          rw [reservations_cons hc, cutsIn_cons, if_neg (mt (cuts_eq hc).mp hcut), Nat.add_zero]
        rw [hcount]
        exact (ih hrest).cons_later hR hc hs hcut hrate

end Bound

/-- Whatever was reserved before, the calls of a stretch stay within the rate and one block, as many times as the
stretch has schedules: a new one begins where the rate changes while bytes are still to come. -/
theorem stretch_within_rate (direction : String) (nextDue : ℚ) (lastRate : Option ℚ) (calls : List Call)
    (s t R : ℚ) (B : ℕ) (hst : s ≤ t) (hR : 0 ≤ R)
    (hcapped : ∀ c ∈ calls, ∃ rate, Capped direction c.state rate) (hcount : ∀ c ∈ calls, c.count ≤ B)
    (hrate : ∀ r ∈ reservations ⟨direction, nextDue, lastRate⟩ calls, s < r.due → r.due ≤ t →
      ∀ rate, Capped direction r.call.state rate → rate ≤ R) :
    (bytesDue s t (reservations ⟨direction, nextDue, lastRate⟩ calls) : ℚ) ≤
      (cutsIn (reservations ⟨direction, nextDue, lastRate⟩ calls).tail + 1) * (R * 1000000 * (t - s) / 8 + B) := by
  have hfits : Fits direction s t R B ⟨direction, nextDue, lastRate⟩ calls := ⟨rfl, hcapped, hcount, hrate⟩
  have hbound := (bounded hst hR hfits).all
  have hburst : burst s t R B = R * 1000000 * (t - s) / 8 + B := by
    rw [burst, bytesPerSecond]
    ring
  rw [hburst] at hbound
  linarith

/-- A control state with one setting. -/
def capped (rate : ℚ) : Control := Dict.ofList [("upload_mbps", .number rate)]

theorem capped_capped {rate : ℚ} (h : 0 < rate) : Capped "upload" (capped rate) rate := ⟨rfl, h, congrArg Except.ok (zero_div 2000)⟩

/-- Four blocks of 1000 bytes at once, at the rates 1, 2, 1 and 2. -/
def alternating : List Call := [1, 2, 1, 2].map fun rate ↦ ⟨capped rate, 0, 1000⟩

theorem alternating_exceeds :
    (∀ c ∈ alternating, c.now = 0 ∧ c.count ≤ 1000 ∧ ∃ rate, rate ≤ 2 ∧ Capped "upload" c.state rate) ∧
    ¬(bytesDue 0 (8 / 1000) (reservations (.create "upload") alternating) : ℚ) ≤
      2 * 1000000 * (8 / 1000 - 0) / 8 + 1000 := by
  constructor
  · intro c hc
    obtain ⟨rate, hrate, rfl⟩ := List.mem_map.mp hc
    have hrange : 0 < rate ∧ rate ≤ 2 := by
      simp only [List.mem_cons, List.not_mem_nil, or_false] at hrate
      obtain rfl | rfl | rfl | rfl := hrate <;> norm_num
    exact ⟨rfl, le_rfl, rate, hrange.2, capped_capped hrange.1⟩
  · have hbytes : bytesDue 0 (8 / 1000) (reservations (.create "upload") alternating) = 4000 := by decide +kernel
    rw [hbytes]
    norm_num

theorem call_mem {p : DirectionPacer} {calls : List Call} : ∀ r ∈ reservations p calls, r.call ∈ calls := by
  induction calls generalizing p with
  | nil => exact fun r hr ↦ absurd hr List.not_mem_nil
  | cons c calls ih =>
    intro r hr
    rw [reservations] at hr
    cases hrun : (reserve c.state c.now c.count).run p with
    | ok due p' =>
      rw [hrun] at hr
      obtain rfl | hr := List.mem_cons.mp hr
      · exact List.mem_cons_self
      · exact List.mem_cons_of_mem c (ih r hr)
    | error e p' =>
      rw [hrun] at hr
      exact List.mem_cons_of_mem c (ih r hr)

/-- Two blocks at once, at the rate 1. -/
def steady : List Call := [⟨capped 1, 0, 1000⟩, ⟨capped 1, 0, 1000⟩]

theorem steady_within_rate :
    (bytesDue 0 (8 / 1000) (reservations ⟨"upload", 0, none⟩ steady) : ℚ) ≤
      (cutsIn (reservations ⟨"upload", 0, none⟩ steady).tail + 1) * (1 * 1000000 * (8 / 1000 - 0) / 8 + (1000 : ℕ)) := by
  have hmem : ∀ c ∈ steady, c = ⟨capped 1, 0, 1000⟩ := by simp [steady]
  apply stretch_within_rate "upload" 0 none steady 0 (8 / 1000) 1 1000 (by norm_num) zero_le_one
  · intro c hc
    rw [hmem c hc]
    exact ⟨1, capped_capped one_pos⟩
  · intro c hc
    rw [hmem c hc]
  · intro r hr _ _ rate hrate
    rw [hmem _ (call_mem r hr)] at hrate
    exact (Setting.number.inj (hrate.setting.symm.trans (capped_capped one_pos).setting)).le

end SplitFleet.Pacing
