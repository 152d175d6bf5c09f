import Mathlib.Data.List.Basic
import SplitFleet.Lib.Python

set_option autoImplicit false

namespace SplitFleet.Lib.Dict

variable {κ υ : Type} [DecidableEq κ]

theorem assign_keys (l : List (κ × υ)) (k : κ) (v : υ) : (Dict.assign l k v).map Prod.fst =
    if k ∈ l.map Prod.fst then l.map Prod.fst else l.map Prod.fst ++ [k] := by
  induction l with
  | nil => rfl
  | cons p l ih =>
    obtain ⟨a, b⟩ := p
    by_cases ha : a = k
    · simp [Dict.assign, ha]
    · simp only [Dict.assign, ha, if_false, List.map_cons, List.mem_cons, Ne.symm ha, false_or, ih]
      split_ifs
      · rfl
      · rfl

theorem keys_insert (d : Dict κ υ) (k : κ) (v : υ) :
    (d.insert k v).keys = if k ∈ d.keys then d.keys else d.keys ++ [k] := assign_keys d.entries k v

theorem keys_foldl_insert {l : List (κ × υ)} {d : Dict κ υ} (h : ∀ p ∈ l, p.1 ∈ d.keys) :
    (l.foldl (fun d p ↦ d.insert p.1 p.2) d).keys = d.keys := by
  induction l generalizing d with
  | nil => rfl
  | cons p l ih =>
    rw [List.forall_mem_cons] at h
    have hkeys : (d.insert p.1 p.2).keys = d.keys := by rw [keys_insert, if_pos h.1]
    rw [List.foldl_cons, ih (hkeys.symm ▸ h.2), hkeys]

theorem mem_keys_foldl_insert (l : List (κ × υ)) (d : Dict κ υ) {k : κ} :
    k ∈ (l.foldl (fun d p ↦ d.insert p.1 p.2) d).keys ↔ k ∈ l.map Prod.fst ∨ k ∈ d.keys := by
  induction l generalizing d with
  | nil => simp
  | cons p l ih =>
    rw [List.foldl_cons, ih, Dict.mem_keys_insert, List.map_cons, List.mem_cons]
    tauto

theorem lookup_map_of_mem {f : κ → υ} {names : List κ} {name : κ} (h : name ∈ names) :
    lookup (names.map fun n ↦ (n, f n)) name = some (f name) := by
  induction names with
  | nil => cases h
  | cons n names ih =>
    by_cases hn : n = name
    · simp [lookup, hn]
    · have hmem : name ∈ names := (List.mem_cons.mp h).resolve_left (Ne.symm hn)
      simpa [lookup, hn] using ih hmem

theorem lookup_map_of_not_mem {f : κ → υ} {names : List κ} {name : κ} (h : name ∉ names) :
    lookup (names.map fun n ↦ (n, f n)) name = none := by
  rw [lookup_eq_none_iff, List.map_map]
  intro hm
  obtain ⟨n, hn, rfl⟩ := List.mem_map.mp hm
  exact h hn

theorem keys_erase (d : Dict κ υ) (k : κ) : (d.erase k).keys = d.keys.filter (· ≠ k) := by
  rw [Dict.keys, Dict.erase, Dict.keys, List.filter_map]
  rfl

theorem entries_eq_filterMap (d : Dict κ υ) : d.entries = d.keys.filterMap fun k ↦ (d.get? k).map (k, ·) := by
  have h : ∀ p ∈ d.entries, (d.get? p.1).map (p.1, ·) = some p := by
    intro p hp
    rw [(d.get?_eq_some_iff).mpr hp]
    rfl
  rw [Dict.keys, List.filterMap_map]
  exact List.filterMap_some.symm.trans (List.filterMap_congr fun p hp ↦ (h p hp).symm)

/-- Equal keys in the same order, and equal values. -/
theorem ext_get? {d d' : Dict κ υ} (hk : d.keys = d'.keys) (h : ∀ k, d.get? k = d'.get? k) : d = d' := by
  have he : d.entries = d'.entries := by
    rw [entries_eq_filterMap, entries_eq_filterMap d', hk]
    simp only [h]
  obtain ⟨entries, nodup⟩ := d
  obtain ⟨entries', nodup'⟩ := d'
  cases he
  rfl

/-- The keys of `known` are there, in their order. -/
def Keeps (known d : Dict κ υ) : Prop := d.keys.filter (· ∈ known.keys) = known.keys

theorem Keeps.refl (known : Dict κ υ) : Keeps known known := by
  rw [Keeps, List.filter_eq_self]
  exact fun _ hk ↦ decide_eq_true hk

variable {known d : Dict κ υ}

theorem Keeps.mem (h : Keeps known d) {k : κ} (hk : k ∈ known.keys) : k ∈ d.keys := by
  rw [← h] at hk
  exact (List.mem_filter.mp hk).1

theorem Keeps.insert (h : Keeps known d) (k : κ) (v : υ) : Keeps known (d.insert k v) := by
  rw [Keeps, keys_insert]
  split_ifs with hk
  · exact h
  · have hnot : k ∉ known.keys := fun hm ↦ hk (h.mem hm)
    rw [List.filter_append, h, List.filter_singleton]
    simp [hnot]

theorem Keeps.erase (h : Keeps known d) {k : κ} (hk : k ∉ known.keys) : Keeps known (d.erase k) := by
  rw [Keeps, keys_erase, List.filter_filter]
  have hsame : d.keys.filter (fun a ↦ decide (a ∈ known.keys) && decide (a ≠ k)) =
      d.keys.filter fun a ↦ decide (a ∈ known.keys) := by
    apply List.filter_congr
    intro a _
    by_cases ha : a = k
    · subst ha
      simp [hk]
    · simp [ha]
  rw [hsame]
  exact h

/-- Where every key is as it was, the dictionary is what it was. -/
theorem Keeps.eq (h : Keeps known d) (hget : ∀ k, d.get? k = known.get? k) : d = known := by
  refine ext_get? ?_ hget
  have hall : d.keys.filter (· ∈ known.keys) = d.keys := by
    rw [List.filter_eq_self]
    intro k hk
    obtain ⟨v, hv⟩ := d.mem_keys_iff.mp hk
    rw [hget] at hv
    exact decide_eq_true (known.mem_keys_iff.mpr ⟨v, hv⟩)
  rw [← hall]
  exact h

/-! ### Keys that move -/

/-- A loop that moves the values under some keys to other keys, where no two of them meet. -/
theorem get?_foldl_move {P : κ → Prop} [DecidablePred P] {f : κ → κ} {d : Dict κ υ}
    {move : Dict κ υ → κ → Dict κ υ}
    (hmove : ∀ e k v, e.get? k = some v → move e k = if P k then (e.erase k).insert (f k) v else e)
    (hinj : ∀ x ∈ d.keys, ∀ y ∈ d.keys, (if P x then f x else x) = (if P y then f y else y) → x = y)
    (hP : ∀ x, P x → ¬P (f x)) (y : κ) (v : υ) :
    (d.keys.foldl move d).get? y = some v ↔ ∃ x, d.get? x = some v ∧ (if P x then f x else x) = y := by
  have hrun : ∀ (rest done : List κ) (e : Dict κ υ), done ++ rest = d.keys →
      (∀ y v, e.get? y = some v ↔ ∃ x, d.get? x = some v ∧ (if x ∈ done ∧ P x then f x else x) = y) →
      ∀ y v, (rest.foldl move e).get? y = some v ↔ ∃ x, d.get? x = some v ∧ (if P x then f x else x) = y := by
    intro rest
    induction rest with
    | nil =>
      intro done e hdone hinv y v
      rw [List.append_nil] at hdone
      rw [List.foldl_nil, hinv]
      refine exists_congr fun x ↦ and_congr_right fun hx ↦ ?_
      have hmem : x ∈ done := hdone ▸ (d.mem_keys_iff).mpr ⟨v, hx⟩
      simp only [hmem, true_and]
    | cons k rest ih =>
      intro done e hdone hinv
      refine ih (done ++ [k]) (move e k) (by rw [← hdone, List.append_assoc]; rfl) ?_
      have hnodup := d.nodup
      rw [← Dict.keys, ← hdone, List.nodup_append] at hnodup
      have hk : k ∉ done := fun hk ↦ hnodup.2.2 k hk k List.mem_cons_self rfl
      have hkmem : k ∈ d.keys := hdone ▸ List.mem_append_right _ List.mem_cons_self
      obtain ⟨w, hw⟩ := d.mem_keys_iff.mp hkmem
      have hback : ∀ x ∈ d.keys, (if x ∈ done ∧ P x then f x else x) = k → x = k := by
        intro x hx h
        split_ifs at h with hdoneP
        · have hnot : ¬P k := h ▸ hP x hdoneP.2
          exact hinj x hx k hkmem (by rw [if_pos hdoneP.2, if_neg hnot, h])
        · exact h
      have hstay : ∀ x, x ≠ k →
          (if x ∈ done ++ [k] ∧ P x then f x else x) = if x ∈ done ∧ P x then f x else x := by
        intro x hx
        simp only [List.mem_append, List.mem_singleton, hx, or_false]
      intro y v
      rw [hmove e k w ((hinv k w).mpr ⟨k, hw, if_neg fun h ↦ hk h.1⟩)]
      by_cases hPk : P k
      · have hself : (if k ∈ done ++ [k] ∧ P k then f k else k) = f k :=
          if_pos ⟨List.mem_append_right _ List.mem_cons_self, hPk⟩
        rw [if_pos hPk, Dict.get?_insert, Dict.get?_erase]
        constructor
        · intro h
          split_ifs at h with hyf hyk
          · obtain rfl := Option.some.inj h
            exact ⟨k, hw, hself.trans hyf⟩
          · obtain ⟨x, hx, hxy⟩ := (hinv y v).mp h
            have hne : x ≠ k := by
              rintro rfl
              rw [if_neg fun h ↦ hk h.1] at hxy
              exact hyk hxy
            exact ⟨x, hx, by rw [hstay x hne, hxy]⟩
        · rintro ⟨x, hx, hxy⟩
          by_cases hxk : x = k
          · subst hxk
            rw [hself] at hxy
            rw [if_pos hxy, ← hw, hx]
          · have hxmem : x ∈ d.keys := d.mem_keys_iff.mpr ⟨v, hx⟩
            rw [hstay x hxk] at hxy
            have hyf : y ≠ f k := by
              rintro rfl
              refine hxk (hinj x hxmem k hkmem ?_)
              rw [if_pos hPk]
              split_ifs at hxy with hdoneP
              · rw [if_pos hdoneP.2, hxy]
              · rw [if_neg (hxy ▸ hP k hPk), hxy]
            have hyk : y ≠ k := by
              rintro rfl
              exact hxk (hback x hxmem hxy)
            rw [if_neg hyf.symm, if_neg hyk.symm]
            exact (hinv y v).mpr ⟨x, hx, hxy⟩
      · rw [if_neg hPk, hinv]
        refine exists_congr fun x ↦ and_congr_right fun _ ↦ ?_
        by_cases hxk : x = k
        · subst hxk
          simp only [hPk, and_false, if_false]
        · rw [hstay x hxk]
  exact hrun d.keys [] d rfl (by simp) y v

end SplitFleet.Lib.Dict
