import Mathlib
import SplitFleet.Lib.Sorting

set_option autoImplicit false

namespace SplitFleet.Lib

section Pass

variable {α : Type}

/-- A start counts 1 and an end counts -1. -/
def events (intervals : List (α × α)) : List (α × ℤ) :=
  intervals.map (fun i ↦ (i.1, 1)) ++ intervals.map (fun i ↦ (i.2, -1))

/-- The running count after some events. -/
def active (done : List (α × ℤ)) : ℤ := (done.map Prod.snd).sum

/-- The running count at the end of a pass, and the largest one on the way. -/
def sweep (l : List (α × ℤ)) : ℤ × ℤ := l.foldl (fun s e ↦ (s.1 + e.2, max s.2 (s.1 + e.2))) (0, 0)

theorem events_perm {intervals others : List (α × α)} (h : intervals.Perm others) :
    (events intervals).Perm (events others) := (h.map _).append (h.map _)

theorem countP_events (intervals : List (α × α)) (p : α × ℤ → Bool) : (events intervals).countP p =
    intervals.countP (fun i ↦ p (i.1, 1)) + intervals.countP (fun i ↦ p (i.2, -1)) := by
  rw [events, List.countP_append, List.countP_map, List.countP_map]
  rfl

theorem snd_of_mem_events {intervals : List (α × α)} {e : α × ℤ} (h : e ∈ events intervals) :
    e.2 = 1 ∨ e.2 = -1 := by
  rw [events, List.mem_append, List.mem_map, List.mem_map] at h
  obtain ⟨i, -, rfl⟩ | ⟨i, -, rfl⟩ := h
  · exact .inl rfl
  · exact .inr rfl

theorem sweep_append (l : List (α × ℤ)) (e : α × ℤ) :
    sweep (l ++ [e]) = ((sweep l).1 + e.2, max (sweep l).2 ((sweep l).1 + e.2)) := by
  rw [sweep, List.foldl_append]
  rfl

theorem active_append (l : List (α × ℤ)) (e : α × ℤ) : active (l ++ [e]) = active l + e.2 := by
  simp [active]

theorem sweep_fst (l : List (α × ℤ)) : (sweep l).1 = active l := by
  induction l using List.reverseRecOn with
  | nil => rfl
  | append_singleton l e ih => rw [sweep_append, active_append, ih]

theorem active_le_sweep {l done : List (α × ℤ)} (h : done <+: l) : active done ≤ (sweep l).2 := by
  induction l using List.reverseRecOn with
  | nil =>
    rw [List.prefix_nil.mp h]
    exact le_rfl
  | append_singleton l e ih =>
    rw [sweep_append, sweep_fst]
    obtain rfl | h := List.prefix_concat_iff.mp h
    · rw [active_append]
      exact le_max_right _ _
    · exact (ih h).trans (le_max_left _ _)

theorem exists_active_eq_sweep (l : List (α × ℤ)) : ∃ done, done <+: l ∧ active done = (sweep l).2 := by
  induction l using List.reverseRecOn with
  | nil => exact ⟨[], List.prefix_rfl, rfl⟩
  | append_singleton l e ih =>
    rw [sweep_append, sweep_fst]
    obtain h | h := max_choice (sweep l).2 (active l + e.2)
    · obtain ⟨done, hd, he⟩ := ih
      exact ⟨done, hd.trans (List.prefix_append l [e]), by rw [h, he]⟩
    · exact ⟨l ++ [e], List.prefix_rfl, by rw [h, active_append]⟩

theorem active_eq_countP {l : List (α × ℤ)} (h : ∀ e ∈ l, e.2 = 1 ∨ e.2 = -1) :
    active l = l.countP (fun e ↦ e.2 = 1) - l.countP (fun e ↦ e.2 = -1) := by
  induction l using List.reverseRecOn with
  | nil => rfl
  | append_singleton l e ih =>
    have ih := ih fun x hx ↦ h x (List.mem_append_left [e] hx)
    rw [active_append, ih, List.countP_append, List.countP_append, List.countP_singleton, List.countP_singleton]
    obtain he | he := h e List.mem_concat_self
    · simp [he]
      omega
    · simp [he]
      omega

end Pass

/-- Where no item after one that fails passes, the items that pass are the first ones. -/
theorem takeWhile_eq_filter {α : Type} {p : α → Bool} {l : List α}
    (h : l.Pairwise fun a b ↦ p a = false → p b = false) : l.takeWhile p = l.filter p := by
  induction l with
  | nil => rfl
  | cons a l ih =>
    rw [List.pairwise_cons] at h
    cases ha : p a with
    | true => rw [List.takeWhile_cons_of_pos ha, List.filter_cons_of_pos ha, ih h.2]
    | false =>
      rw [List.takeWhile_cons_of_neg (by simp [ha]), eq_comm, List.filter_eq_nil_iff]
      intro b hb
      obtain rfl | hb := List.mem_cons.mp hb
      · simp [ha]
      · simp [h.1 b hb ha]

section Timeline

variable {α : Type} [LinearOrder α]

/-- The number of the half-open intervals that hold an instant. -/
def overlap (intervals : List (α × α)) (t : α) : ℕ := intervals.countP fun i ↦ i.1 ≤ t ∧ t < i.2

/-- `sorted(events)`: at one instant the ends come first. -/
def timeline (intervals : List (α × α)) : List (α × ℤ) := sortedBy toLex (events intervals)

theorem timeline_perm (intervals : List (α × α)) : (timeline intervals).Perm (events intervals) :=
  sortedBy_perm toLex (events intervals)

theorem timeline_congr {intervals others : List (α × α)} (h : intervals.Perm others) :
    timeline intervals = timeline others :=
  sortedBy_congr toLex (events_perm h) fun _ _ _ _ he ↦ toLex.injective he

theorem countP_timeline (intervals : List (α × α)) (p : α × ℤ → Bool) : (timeline intervals).countP p =
    intervals.countP (fun i ↦ p (i.1, 1)) + intervals.countP (fun i ↦ p (i.2, -1)) := by
  rw [(timeline_perm intervals).countP_eq p, countP_events]

variable {intervals : List (α × α)} {done left : List (α × ℤ)}

theorem active_eq_of_timeline (h : timeline intervals = done ++ left) :
    active done = done.countP (fun e ↦ e.2 = 1) - done.countP (fun e ↦ e.2 = -1) := by
  apply active_eq_countP
  intro e he
  apply snd_of_mem_events
  rw [← (timeline_perm intervals).mem_iff, h]
  exact List.mem_append_left left he

/-- The events that come strictly before one that is done are done. -/
theorem countP_lt_le (h : timeline intervals = done ++ left) {x : α × ℤ} (hx : x ∈ done) (q : α × ℤ → Bool) :
    intervals.countP (fun i ↦ q (i.1, 1) && decide (toLex (i.1, (1 : ℤ)) < toLex x)) +
      intervals.countP (fun i ↦ q (i.2, -1) && decide (toLex (i.2, (-1 : ℤ)) < toLex x)) ≤ done.countP q := by
  have hs := pairwise_sortedBy toLex (events intervals)
  rw [← timeline, h, List.pairwise_append] at hs
  have hleft : left.countP (fun e ↦ q e && decide (toLex e < toLex x)) = 0 := by
    rw [List.countP_eq_zero]
    intro y hy hlt
    rw [Bool.and_eq_true, decide_eq_true_eq] at hlt
    exact absurd hlt.2 (not_lt.mpr (hs.2.2 x hx y hy))
  have hcount := countP_timeline intervals fun e ↦ q e && decide (toLex e < toLex x)
  rw [h, List.countP_append, hleft, add_zero] at hcount
  rw [← hcount]
  apply List.countP_mono_left
  intro e _ he
  exact (Bool.and_eq_true _ _ ▸ he).1

/-- The events that are done come no later than the last of them. -/
theorem countP_le_le (h : timeline intervals = done ++ left) {x : α × ℤ} (hx : ∀ y ∈ done, toLex y ≤ toLex x)
    (q : α × ℤ → Bool) : done.countP q ≤
    intervals.countP (fun i ↦ q (i.1, 1) && decide (toLex (i.1, (1 : ℤ)) ≤ toLex x)) +
      intervals.countP (fun i ↦ q (i.2, -1) && decide (toLex (i.2, (-1 : ℤ)) ≤ toLex x)) := by
  have hcount := countP_timeline intervals fun e ↦ q e && decide (toLex e ≤ toLex x)
  rw [← hcount, h, List.countP_append]
  apply le_add_right
  apply List.countP_mono_left
  intro e he hq
  rw [hq, Bool.true_and, decide_eq_true_eq]
  exact hx e he

theorem ends_le (h : timeline intervals = done ++ left) {x : α × ℤ} (hx : ∀ y ∈ done, toLex y ≤ toLex x) :
    done.countP (fun e ↦ e.2 = -1) ≤ intervals.countP (fun i ↦ toLex (i.2, (-1 : ℤ)) ≤ toLex x) := by
  have hcount := countP_le_le h hx fun e ↦ e.2 = -1
  simpa only [decide_eq_false (by decide : ¬(1 : ℤ) = -1), decide_true, Bool.false_and, Bool.true_and,
    List.countP_false, Function.const_apply, zero_add] using hcount

theorem starts_le (h : timeline intervals = done ++ left) {x : α × ℤ} (hx : ∀ y ∈ done, toLex y ≤ toLex x) :
    done.countP (fun e ↦ e.2 = 1) ≤ intervals.countP (fun i ↦ toLex (i.1, (1 : ℤ)) ≤ toLex x) := by
  have hcount := countP_le_le h hx fun e ↦ e.2 = 1
  simpa only [decide_eq_false (by decide : ¬(-1 : ℤ) = 1), decide_true, Bool.false_and, Bool.true_and,
    List.countP_false, Function.const_apply, add_zero] using hcount

theorem le_starts (h : timeline intervals = done ++ left) {x : α × ℤ} (hx : x ∈ done) :
    intervals.countP (fun i ↦ toLex (i.1, (1 : ℤ)) < toLex x) ≤ done.countP (fun e ↦ e.2 = 1) := by
  have hcount := countP_lt_le h hx fun e ↦ e.2 = 1
  simpa only [decide_eq_false (by decide : ¬(-1 : ℤ) = 1), decide_true, Bool.false_and, Bool.true_and,
    List.countP_false, Function.const_apply, add_zero] using hcount

theorem le_ends (h : timeline intervals = done ++ left) {x : α × ℤ} (hx : x ∈ done) :
    intervals.countP (fun i ↦ toLex (i.2, (-1 : ℤ)) < toLex x) ≤ done.countP (fun e ↦ e.2 = -1) := by
  have hcount := countP_lt_le h hx fun e ↦ e.2 = -1
  simpa only [decide_eq_false (by decide : ¬(1 : ℤ) = -1), decide_true, Bool.false_and, Bool.true_and,
    List.countP_false, Function.const_apply, zero_add] using hcount

/-- In a prefix of the timeline no event comes after the last one. -/
theorem le_last {x : α × ℤ} (h : timeline intervals = done ++ [x] ++ left) :
    ∀ y ∈ done ++ [x], toLex y ≤ toLex x := by
  have hs := pairwise_sortedBy toLex (events intervals)
  rw [← timeline, h, List.pairwise_append, List.pairwise_append] at hs
  intro y hy
  rw [List.mem_append, List.mem_singleton] at hy
  obtain hy | rfl := hy
  · exact hs.1.2.2 y hy x List.mem_cons_self
  · exact le_rfl

/-! ### Intervals of positive length -/

variable (hpos : ∀ i ∈ intervals, i.1 < i.2)

include hpos

/-- An interval that has started has ended, or holds the instant. -/
theorem overlap_add (t : α) :
    overlap intervals t + intervals.countP (fun i ↦ i.2 ≤ t) = intervals.countP (fun i ↦ i.1 ≤ t) := by
  induction intervals with
  | nil => rfl
  | cons i l ih =>
    rw [List.forall_mem_cons] at hpos
    have ih := ih hpos.2
    have hi := hpos.1
    rw [overlap] at ih ⊢
    rw [List.countP_cons, List.countP_cons, List.countP_cons]
    by_cases h : i.2 ≤ t
    · have hlt : i.1 ≤ t := hi.le.trans h
      simp only [hlt, h, not_lt.mpr h, decide_true, and_false, decide_false, if_true, Bool.false_eq_true, if_false]
      omega
    · simp only [h, not_le.mp h, and_true, decide_false, Bool.false_eq_true, if_false]
      omega

theorem active_nonneg (h : done <+: timeline intervals) : 0 ≤ active done := by
  obtain ⟨left, h⟩ := h
  rw [active_eq_of_timeline h.symm]
  obtain rfl | ⟨first, x, rfl⟩ := List.eq_nil_or_concat' done
  · rfl
  · have hends := ends_le h.symm (le_last h.symm)
    have hstarts := le_starts h.symm List.mem_concat_self
    -- An end that is done has its start before it.
    have hmono : intervals.countP (fun i ↦ toLex (i.2, (-1 : ℤ)) ≤ toLex x) ≤
        intervals.countP (fun i ↦ toLex (i.1, (1 : ℤ)) < toLex x) := by
      apply List.countP_mono_left
      intro i hi hle
      rw [decide_eq_true_eq] at hle ⊢
      exact lt_of_lt_of_le (Prod.Lex.toLex_lt_toLex.mpr (.inl (hpos i hi))) hle
    omega

theorem active_le_overlap (h : done <+: timeline intervals) : active done ≤ 0 ∨ ∃ t, active done ≤ overlap intervals t := by
  induction done using List.reverseRecOn with
  | nil => exact .inl le_rfl
  | append_singleton first x ih =>
    have hprefix := (List.prefix_append first [x]).trans h
    obtain ⟨left, h⟩ := h
    have hx : x ∈ timeline intervals := by
      rw [← h]
      exact List.mem_append_left left List.mem_concat_self
    obtain h1 | h1 := snd_of_mem_events ((timeline_perm intervals).mem_iff.mp hx)
    · -- At a start, the ends up to that instant are done.
      refine .inr ⟨x.1, ?_⟩
      have hstarts := starts_le h.symm (le_last h.symm)
      have hends := le_ends h.symm List.mem_concat_self
      have hover := overlap_add hpos x.1
      have hs : intervals.countP (fun i ↦ toLex (i.1, (1 : ℤ)) ≤ toLex x) = intervals.countP (fun i ↦ i.1 ≤ x.1) := by
        congr 1
        funext i
        rw [decide_eq_decide, Prod.Lex.toLex_le_toLex]
        simp [h1, le_iff_lt_or_eq]
      have he : intervals.countP (fun i ↦ toLex (i.2, (-1 : ℤ)) < toLex x) = intervals.countP (fun i ↦ i.2 ≤ x.1) := by
        congr 1
        funext i
        rw [decide_eq_decide, Prod.Lex.toLex_lt_toLex]
        simp [h1, le_iff_lt_or_eq]
      rw [active_eq_of_timeline h.symm]
      omega
    · rw [active_append, h1]
      obtain ih | ⟨t, ih⟩ := ih hprefix
      · exact .inl (by omega)
      · exact .inr ⟨t, by omega⟩

theorem overlap_eq_active (t : α) : ∃ done, done <+: timeline intervals ∧ active done = overlap intervals t := by
  have hs := pairwise_sortedBy toLex (events intervals)
  have htake : (timeline intervals).takeWhile (fun e ↦ e.1 ≤ t) = (timeline intervals).filter fun e ↦ e.1 ≤ t := by
    apply takeWhile_eq_filter
    apply hs.imp
    intro a b hab ha
    rw [decide_eq_false_iff_not, not_le] at ha ⊢
    rw [Prod.Lex.toLex_le_toLex] at hab
    obtain hab | hab := hab
    · exact ha.trans hab
    · rwa [← hab.1]
  have hprefix := List.takeWhile_prefix (l := timeline intervals) fun e ↦ e.1 ≤ t
  rw [htake] at hprefix
  refine ⟨_, hprefix, ?_⟩
  obtain ⟨left, h⟩ := hprefix
  rw [active_eq_of_timeline h.symm, List.countP_filter, List.countP_filter, countP_timeline, countP_timeline]
  have hover := overlap_add hpos t
  simp
  omega

/-- The largest running count is the largest overlap. -/
theorem overlap_le_sweep (t : α) : (overlap intervals t : ℤ) ≤ (sweep (timeline intervals)).2 := by
  obtain ⟨done, hd, he⟩ := overlap_eq_active hpos t
  rw [← he]
  exact active_le_sweep hd

theorem exists_overlap_eq_sweep [Nonempty α] : ∃ t, (overlap intervals t : ℤ) = (sweep (timeline intervals)).2 := by
  obtain ⟨done, hd, he⟩ := exists_active_eq_sweep (timeline intervals)
  obtain h | ⟨t, h⟩ := active_le_overlap hpos hd
  · obtain ⟨t⟩ := ‹Nonempty α›
    have hle := overlap_le_sweep hpos t
    exact ⟨t, by omega⟩
  · have hle := overlap_le_sweep hpos t
    exact ⟨t, by omega⟩

end Timeline

/-! ### Occupied time -/

section Occupied

variable {intervals : List (ℤ × ℤ)} {first last : ℤ}

def occupied (intervals : List (ℤ × ℤ)) : ℤ := (intervals.map fun i ↦ i.2 - i.1).sum

/-- The occupied time is the sum of the overlaps of the instants. -/
theorem occupied_eq_sum (h : ∀ i ∈ intervals, first ≤ i.1 ∧ i.1 < i.2 ∧ i.2 ≤ last) :
    occupied intervals = ∑ t ∈ Finset.Ico first last, (overlap intervals t : ℤ) := by
  induction intervals with
  | nil => simp [occupied, overlap]
  | cons i l ih =>
    rw [List.forall_mem_cons] at h
    obtain ⟨⟨hfirst, hlt, hlast⟩, h⟩ := h
    have hholds : ∑ t ∈ Finset.Ico first last, (if i.1 ≤ t ∧ t < i.2 then (1 : ℤ) else 0) = i.2 - i.1 := by
      have hfilter : (Finset.Ico first last).filter (fun t ↦ i.1 ≤ t ∧ t < i.2) = Finset.Ico i.1 i.2 := by
        ext t
        simp only [Finset.mem_filter, Finset.mem_Ico]
        omega
      rw [Finset.sum_boole, hfilter, Int.card_Ico]
      simp only [Int.natCast_toNat_eq_self]
      omega
    have hcons (t : ℤ) : (overlap (i :: l) t : ℤ) = overlap l t + if i.1 ≤ t ∧ t < i.2 then (1 : ℤ) else 0 := by
      rw [overlap, List.countP_cons, overlap]
      simp
    have ih := ih h
    rw [occupied] at ih ⊢
    rw [List.map_cons, List.sum_cons, ih, Finset.sum_congr rfl fun t _ ↦ hcons t, Finset.sum_add_distrib, hholds,
      add_comm]

theorem occupied_le {peak : ℤ} (h : ∀ i ∈ intervals, first ≤ i.1 ∧ i.1 < i.2 ∧ i.2 ≤ last) (hle : first ≤ last)
    (hpeak : ∀ t, (overlap intervals t : ℤ) ≤ peak) : occupied intervals ≤ (last - first) * peak := by
  rw [occupied_eq_sum h]
  have hsum := Finset.sum_le_card_nsmul (Finset.Ico first last) (fun t ↦ (overlap intervals t : ℤ)) peak
    fun t _ ↦ hpeak t
  rwa [Int.card_Ico, nsmul_eq_mul, Int.toNat_of_nonneg (by omega)] at hsum

end Occupied

end SplitFleet.Lib
