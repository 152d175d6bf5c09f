import Mathlib.Data.List.Forall2
import Mathlib.Data.List.Nodup
import Mathlib.Data.List.Dedup
import SplitFleet.Lib.Python

set_option autoImplicit false

namespace SplitFleet.Lib

theorem forall₂_trans {α β γ : Type} {R : α → β → Prop} {Q : β → γ → Prop} {T : α → γ → Prop}
    (hT : ∀ a b c, R a b → Q b c → T a c) {as : List α} {bs : List β} {cs : List γ}
    (h₁ : List.Forall₂ R as bs) (h₂ : List.Forall₂ Q bs cs) : List.Forall₂ T as cs := by
  induction h₁ generalizing cs with
  | nil =>
    cases h₂
    exact .nil
  | cons hab _ ih =>
    cases h₂ with
    | cons hbc h₂ => exact .cons (hT _ _ _ hab hbc) (ih h₂)

theorem forall₂_exists_of_mem_left {α β : Type} {R : α → β → Prop} {l : List α} {l' : List β}
    (h : List.Forall₂ R l l') {a : α} (ha : a ∈ l) : ∃ b ∈ l', R a b := by
  induction h with
  | nil => cases ha
  | @cons x y l l' hxy _ ih =>
    obtain rfl | ha := List.mem_cons.mp ha
    · exact ⟨y, List.mem_cons_self, hxy⟩
    · obtain ⟨b, hb, hab⟩ := ih ha
      exact ⟨b, List.mem_cons_of_mem _ hb, hab⟩

theorem forall₂_exists_of_mem_right {α β : Type} {R : α → β → Prop} {as : List α} {bs : List β}
    (h : List.Forall₂ R as bs) {b : β} (hb : b ∈ bs) : ∃ a ∈ as, R a b := by
  induction h with
  | nil => cases hb
  | cons hab _ ih =>
    rcases List.mem_cons.mp hb with rfl | hb
    · exact ⟨_, List.mem_cons_self, hab⟩
    · obtain ⟨a, ha, hR⟩ := ih hb
      exact ⟨a, List.mem_cons_of_mem _ ha, hR⟩

section Positions

variable {α : Type} {l : List α} {i j k : ℕ} {a : α}

theorem eq_take_cons_drop (h : l[i]? = some a) : l = l.take i ++ a :: l.drop (i + 1) := by
  obtain ⟨hi, rfl⟩ := List.getElem?_eq_some_iff.mp h
  rw [List.getElem_cons_drop, List.take_append_drop]

theorem mem_iff_of_getElem? (h : l[i]? = some a) {b : α} : b ∈ l ↔ b = a ∨ b ∈ l.eraseIdx i := by
  conv_lhs => rw [eq_take_cons_drop h]
  rw [List.eraseIdx_eq_take_drop_succ, List.mem_append, List.mem_append, List.mem_cons]
  tauto

theorem getElem?_inj_of_nodup (hl : l.Nodup) (hi : l[i]? = some a) (hj : l[j]? = some a) : i = j :=
  (List.getElem?_inj (List.getElem?_eq_some_iff.mp hi).1 hl).mp (hi.trans hj.symm)

theorem mem_take_iff_lt (hl : l.Nodup) (hi : l[i]? = some a) : a ∈ l.take k ↔ i < k := by
  rw [List.mem_iff_getElem?]
  constructor
  · rintro ⟨j, hj⟩
    rw [List.getElem?_take] at hj
    split at hj
    · next hjk => exact getElem?_inj_of_nodup hl hj hi ▸ hjk
    · cases hj
  · intro hik
    exact ⟨i, by rw [List.getElem?_take_of_lt hik, hi]⟩

theorem mem_drop_iff_le (hl : l.Nodup) (hi : l[i]? = some a) : a ∈ l.drop k ↔ k ≤ i := by
  rw [List.mem_iff_getElem?]
  constructor
  · rintro ⟨j, hj⟩
    rw [List.getElem?_drop] at hj
    exact getElem?_inj_of_nodup hl hj hi ▸ Nat.le_add_right k j
  · intro hki
    exact ⟨i - k, by rw [List.getElem?_drop, Nat.add_sub_cancel' hki, hi]⟩

end Positions

/-- A set of at most one element. -/
theorem length_dedup_le_one_iff {α : Type} [DecidableEq α] {l : List α} :
    l.dedup.length ≤ 1 ↔ ∀ a ∈ l, ∀ b ∈ l, a = b := by
  constructor
  · intro h a ha b hb
    rw [← List.mem_dedup] at ha hb
    match hd : l.dedup, h with
    | [], _ =>
      rw [hd] at ha
      cases ha
    | [c], _ =>
      rw [hd, List.mem_singleton] at ha hb
      rw [ha, hb]
  · intro h
    match hd : l.dedup with
    | [] => exact Nat.zero_le 1
    | [_] => exact Nat.le_refl 1
    | a :: b :: rest =>
      have hnd := List.nodup_dedup l
      have ha : a ∈ l := List.mem_dedup.mp (hd ▸ List.mem_cons_self)
      have hb : b ∈ l := List.mem_dedup.mp (hd ▸ List.mem_cons_of_mem a List.mem_cons_self)
      rw [hd, h a ha b hb] at hnd
      exact absurd List.mem_cons_self (List.nodup_cons.mp hnd).1

section Keyed

variable {κ α β : Type} [DecidableEq κ]

/-- The values that a list of pairs has under one key, in order. -/
def valuesAt (k : κ) (l : List (κ × α)) : List α := l.filterMap fun p ↦ if p.1 = k then some p.2 else none

theorem valuesAt_eq_nil {k : κ} {l : List (κ × α)} (h : k ∉ l.map Prod.fst) : valuesAt k l = [] := by
  refine List.filterMap_eq_nil_iff.mpr fun p hp ↦ if_neg ?_
  rintro rfl
  exact h (List.mem_map_of_mem hp)

theorem valuesAt_of_mem {l : List (κ × α)} (hl : (l.map Prod.fst).Nodup) {p : κ × α} (hp : p ∈ l) :
    valuesAt p.1 l = [p.2] := by
  induction l with
  | nil => cases hp
  | cons q l ih =>
    obtain ⟨hq, hl⟩ := List.nodup_cons.mp hl
    rcases List.mem_cons.mp hp with rfl | hp
    · have hnil := valuesAt_eq_nil hq
      rw [valuesAt] at hnil ⊢
      simp [hnil]
    · have hne : q.1 ≠ p.1 := by
        intro he
        exact hq (he ▸ List.mem_map_of_mem hp)
      have := ih hl hp
      rw [valuesAt] at this ⊢
      simpa [hne] using this

/-- Distinct keys zipped with as many values: the keys give back the values, in order. -/
theorem map_valuesAt_zip {ks : List κ} {xs : List α} (hk : ks.Nodup) (hl : ks.length = xs.length) :
    ks.map (fun k ↦ valuesAt k (ks.zip xs)) = xs.map ([·]) := by
  have hfst : (ks.zip xs).map Prod.fst = ks := List.map_fst_zip (Nat.le_of_eq hl)
  have hsnd : (ks.zip xs).map Prod.snd = xs := List.map_snd_zip (Nat.le_of_eq hl.symm)
  calc ks.map (fun k ↦ valuesAt k (ks.zip xs))
      = ((ks.zip xs).map Prod.fst).map (fun k ↦ valuesAt k (ks.zip xs)) := by rw [hfst]
    _ = (ks.zip xs).map (fun p ↦ [p.2]) := by
        rw [List.map_map]
        refine List.map_congr_left fun p hp ↦ valuesAt_of_mem ?_ hp
        rwa [hfst]
    _ = ((ks.zip xs).map Prod.snd).map ([·]) := by
        rw [List.map_map]
        rfl
    _ = xs.map ([·]) := by rw [hsnd]

end Keyed

theorem forM_eq_ok_iff {ε α : Type} {f : α → Except ε Unit} {l : List α} :
    l.forM f = .ok () ↔ ∀ a ∈ l, f a = .ok () := by
  induction l with
  | nil => exact iff_of_true rfl (by simp)
  | cons a l ih =>
    rw [List.forall_mem_cons, ← ih]
    constructor
    · intro h
      obtain ⟨_, ha, h⟩ := bind_eq_ok h
      exact ⟨ha, h⟩
    · rintro ⟨ha, h⟩
      exact (congrArg (· >>= fun _ ↦ l.forM f) ha).trans h

/-- The results of a comprehension are those of its items. -/
theorem mem_mapM_ok_iff {ε α β : Type} {f : α → Except ε β} {l : List α} {r : List β} (h : l.mapM f = .ok r) {b : β} :
    b ∈ r ↔ ∃ a ∈ l, f a = .ok b := by
  induction mapM_eq_ok_iff.mp h with
  | nil => simp
  | cons ha _ ih =>
    rw [List.mem_cons, ih (mapM_eq_ok_iff.mpr ‹_›), List.exists_mem_cons_iff, ha, Except.ok.injEq, eq_comm]

/-- Where a key tells the items apart, a search by it finds the item itself. -/
theorem find?_key {α κ : Type} [DecidableEq κ] {key : α → κ} {l : List α} (hnd : (l.map key).Nodup) {a : α}
    (ha : a ∈ l) : l.find? (fun b ↦ decide (key b = key a)) = some a := by
  rw [List.find?_eq_some_iff_append]
  refine ⟨decide_eq_true rfl, ?_⟩
  obtain ⟨before, after, rfl⟩ := List.append_of_mem ha
  refine ⟨before, after, rfl, fun b hb ↦ ?_⟩
  rw [List.map_append, List.map_cons] at hnd
  have hne : key b ≠ key a :=
    (List.nodup_append.mp hnd).2.2 (key b) (List.mem_map_of_mem hb) (key a) List.mem_cons_self
  simp [hne]

end SplitFleet.Lib
