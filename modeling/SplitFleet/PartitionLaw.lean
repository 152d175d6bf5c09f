import Mathlib.Algebra.BigOperators.Fin
import Mathlib.Algebra.Order.BigOperators.Group.Finset
import Mathlib.Algebra.Order.Ring.Unbundled.Rat
import Mathlib.Data.List.GetD
import SplitFleet.Partition

set_option autoImplicit false

namespace SplitFleet.Partition

open Lib

variable {k n : ℕ} {a b : Parts k} {d r i : Fin k} {x y z : ℕ}

/-- Every index below `n` is with one client, and there once. -/
structure Lossless (n : ℕ) (a : Parts k) : Prop where
  nodup : ∀ i, (a i).Nodup
  disjoint : ∀ i j x, x ∈ a i → x ∈ a j → i = j
  mem : ∀ x, (∃ i, x ∈ a i) ↔ x < n

section Lossless

theorem Lossless.flatMap_perm (h : Lossless n a) : ((List.finRange k).flatMap a).Perm (List.range n) := by
  have hnodup : ((List.finRange k).flatMap a).Nodup := by
    rw [List.nodup_flatMap]
    refine ⟨fun i _ ↦ h.nodup i, (List.nodup_finRange k).pairwise_of_forall_ne fun i _ j _ hne ↦ ?_⟩
    intro x hi hj
    exact hne (h.disjoint i j x hi hj)
  rw [List.perm_ext_iff_of_nodup hnodup List.nodup_range]
  intro x
  rw [List.mem_flatMap, List.mem_range, ← h.mem]
  simp only [List.mem_finRange, true_and]

theorem Lossless.of_flatMap_perm (h : ((List.finRange k).flatMap a).Perm (List.range n)) : Lossless n a := by
  have hnodup : ((List.finRange k).flatMap a).Nodup := h.nodup_iff.mpr List.nodup_range
  rw [List.nodup_flatMap] at hnodup
  refine ⟨fun i ↦ hnodup.1 i (List.mem_finRange i), fun i j x hi hj ↦ ?_, fun x ↦ ?_⟩
  · by_contra hne
    have hsymm : Std.Symm (Function.onFun List.Disjoint a) := ⟨fun _ _ hd ↦ hd.symm⟩
    exact hnodup.2.forall (List.mem_finRange i) (List.mem_finRange j) hne hi hj
  · rw [← List.mem_range, ← h.mem_iff, List.mem_flatMap]
    simp only [List.mem_finRange, true_and]

theorem Lossless.sum_length (h : Lossless n a) : ∑ i, (a i).length = n := by
  have hlen := h.flatMap_perm.length_eq
  rw [List.length_range, List.length_flatMap] at hlen
  rw [Fin.sum_univ_def, ← hlen]

/-- Where a client is below the share of everyone, another one is above it. -/
theorem Lossless.exists_larger (h : Lossless n a) {m : ℕ} (hm : k * m ≤ n) (hr : (a r).length < m) :
    ∃ i, m < (a i).length := by
  by_contra hall
  simp only [not_exists, not_lt] at hall
  have hlt : ∑ i, (a i).length < ∑ _i : Fin k, m :=
    Finset.sum_lt_sum (fun i _ ↦ hall i) ⟨r, Finset.mem_univ r, hr⟩
  rw [h.sum_length, Finset.sum_const, Finset.card_univ, Fintype.card_fin, smul_eq_mul] at hlt
  omega

end Lossless

/-! ### Moves and exchanges -/

section Moves

theorem move_recipient (hne : d ≠ r) (x : ℕ) : move a d r x r = a r ++ [x] := by
  rw [move, Function.update_self, Function.update_of_ne hne.symm]

theorem move_donor (hne : d ≠ r) (x : ℕ) : move a d r x d = (a d).erase x := by
  rw [move, Function.update_of_ne hne, Function.update_self]

theorem move_other (hd : i ≠ d) (hr : i ≠ r) (x : ℕ) : move a d r x i = a i := by
  rw [move, Function.update_of_ne hr, Function.update_of_ne hd]

theorem exchange_recipient : exchange a d r y z r = (a r).erase z ++ [y] := Function.update_self ..

theorem exchange_donor (hne : d ≠ r) : exchange a d r y z d = (a d).erase y ++ [z] := by
  rw [exchange, Function.update_of_ne hne, Function.update_self]

theorem exchange_other (hd : i ≠ d) (hr : i ≠ r) : exchange a d r y z i = a i := by
  rw [exchange, Function.update_of_ne hr, Function.update_of_ne hd]

theorem mem_move (h : Lossless n a) (hne : d ≠ r) (hy : y ∈ a d) :
    x ∈ move a d r y i ↔ (x ≠ y ∧ x ∈ a i) ∨ (x = y ∧ i = r) := by
  have hother : i ≠ d → x ∈ a i → x ≠ y := fun hi hx he ↦ hi (h.disjoint i d y (he ▸ hx) hy)
  by_cases hir : i = r
  · subst hir
    rw [move_recipient hne, List.mem_append, List.mem_singleton]
    have := hother hne.symm
    tauto
  · by_cases hid : i = d
    · subst hid
      rw [move_donor hne, (h.nodup i).mem_erase_iff]
      tauto
    · rw [move_other hid hir]
      have := hother hid
      tauto

theorem mem_exchange (h : Lossless n a) (hne : d ≠ r) (hy : y ∈ a d) (hz : z ∈ a r) :
    x ∈ exchange a d r y z i ↔ (x ≠ y ∧ x ≠ z ∧ x ∈ a i) ∨ (x = y ∧ i = r) ∨ (x = z ∧ i = d) := by
  have hy' : i ≠ d → x ∈ a i → x ≠ y := fun hi hx he ↦ hi (h.disjoint i d y (he ▸ hx) hy)
  have hz' : i ≠ r → x ∈ a i → x ≠ z := fun hi hx he ↦ hi (h.disjoint i r z (he ▸ hx) hz)
  by_cases hir : i = r
  · subst hir
    rw [exchange_recipient, List.mem_append, List.mem_singleton, (h.nodup i).mem_erase_iff]
    have := hy' hne.symm
    tauto
  · by_cases hid : i = d
    · subst hid
      rw [exchange_donor hne, List.mem_append, List.mem_singleton, (h.nodup i).mem_erase_iff]
      have := hz' hne
      tauto
    · rw [exchange_other hid hir]
      have := hy' hid
      have := hz' hir
      tauto

theorem Lossless.move (h : Lossless n a) (hne : d ≠ r) (hy : y ∈ a d) : Lossless n (move a d r y) where
  nodup i := by
    by_cases hir : i = r
    · subst hir
      rw [move_recipient hne, List.nodup_append]
      refine ⟨h.nodup i, List.nodup_singleton y, fun x hx x' hx' he ↦ hne ?_⟩
      rw [List.mem_singleton.mp hx'] at he
      exact h.disjoint d i y hy (he ▸ hx)
    · by_cases hid : i = d
      · subst hid
        rw [move_donor hne]
        exact (h.nodup i).erase y
      · rw [move_other hid hir]
        exact h.nodup i
  disjoint i j x hi hj := by
    rw [mem_move h hne hy] at hi hj
    obtain ⟨hx, hi⟩ | ⟨hx, rfl⟩ := hi
    · obtain ⟨-, hj⟩ | ⟨hx', -⟩ := hj
      · exact h.disjoint i j x hi hj
      · exact absurd hx' hx
    · obtain ⟨hx', -⟩ | ⟨-, rfl⟩ := hj
      · exact absurd hx hx'
      · rfl
  mem x := by
    rw [← h.mem]
    simp only [mem_move h hne hy]
    constructor
    · rintro ⟨i, ⟨-, hi⟩ | ⟨rfl, -⟩⟩
      · exact ⟨i, hi⟩
      · exact ⟨d, hy⟩
    · rintro ⟨i, hi⟩
      by_cases hx : x = y
      · exact ⟨r, .inr ⟨hx, rfl⟩⟩
      · exact ⟨i, .inl ⟨hx, hi⟩⟩

theorem Lossless.exchange (h : Lossless n a) (hne : d ≠ r) (hy : y ∈ a d) (hz : z ∈ a r) :
    Lossless n (exchange a d r y z) where
  nodup i := by
    by_cases hir : i = r
    · subst hir
      rw [exchange_recipient, List.nodup_append]
      refine ⟨(h.nodup i).erase z, List.nodup_singleton y, fun x hx x' hx' he ↦ hne ?_⟩
      rw [List.mem_singleton.mp hx'] at he
      exact h.disjoint d i y hy (he ▸ List.mem_of_mem_erase hx)
    · by_cases hid : i = d
      · subst hid
        rw [exchange_donor hne, List.nodup_append]
        refine ⟨(h.nodup i).erase y, List.nodup_singleton z, fun x hx x' hx' he ↦ hne ?_⟩
        rw [List.mem_singleton.mp hx'] at he
        exact h.disjoint i r z (he ▸ List.mem_of_mem_erase hx) hz
      · rw [exchange_other hid hir]
        exact h.nodup i
  disjoint i j x hi hj := by
    have hyz : y ≠ z := fun he ↦ hne (h.disjoint d r y hy (he ▸ hz))
    rw [mem_exchange h hne hy hz] at hi hj
    obtain ⟨hxy, hxz, hi⟩ | ⟨rfl, rfl⟩ | ⟨rfl, rfl⟩ := hi
    · obtain ⟨-, -, hj⟩ | ⟨hx, -⟩ | ⟨hx, -⟩ := hj
      · exact h.disjoint i j x hi hj
      · exact absurd hx hxy
      · exact absurd hx hxz
    · obtain ⟨hx, -⟩ | ⟨-, rfl⟩ | ⟨hx, -⟩ := hj
      · exact absurd rfl hx
      · rfl
      · exact absurd hx hyz
    · obtain ⟨-, hx, -⟩ | ⟨hx, -⟩ | ⟨-, rfl⟩ := hj
      · exact absurd rfl hx
      · exact absurd hx.symm hyz
      · rfl
  mem x := by
    rw [← h.mem]
    simp only [mem_exchange h hne hy hz]
    constructor
    · rintro ⟨i, ⟨-, -, hi⟩ | ⟨rfl, -⟩ | ⟨rfl, -⟩⟩
      · exact ⟨i, hi⟩
      · exact ⟨d, hy⟩
      · exact ⟨r, hz⟩
    · rintro ⟨i, hi⟩
      by_cases hxy : x = y
      · exact ⟨r, .inr (.inl ⟨hxy, rfl⟩)⟩
      · by_cases hxz : x = z
        · exact ⟨d, .inr (.inr ⟨hxz, rfl⟩)⟩
        · exact ⟨i, .inl ⟨hxy, hxz, hi⟩⟩

theorem move_length (hne : d ≠ r) (hy : y ∈ a d) (i : Fin k) : (move a d r y i).length =
    if i = r then (a i).length + 1 else if i = d then (a i).length - 1 else (a i).length := by
  split_ifs with hir hid
  · subst hir
    rw [move_recipient hne, List.length_append, List.length_singleton]
  · subst hid
    rw [move_donor hne, List.length_erase_of_mem hy]
  · rw [move_other hid hir]

theorem exchange_length (hne : d ≠ r) (hy : y ∈ a d) (hz : z ∈ a r) (i : Fin k) :
    (exchange a d r y z i).length = (a i).length := by
  by_cases hir : i = r
  · subst hir
    have hpos := List.length_pos_of_mem hz
    rw [exchange_recipient, List.length_append, List.length_erase_of_mem hz, List.length_singleton]
    omega
  · by_cases hid : i = d
    · subst hid
      have hpos := List.length_pos_of_mem hy
      rw [exchange_donor hne, List.length_append, List.length_erase_of_mem hy, List.length_singleton]
      omega
    · rw [exchange_other hid hir]

end Moves

/-! ### The minimum size -/

section Fill

variable {labels : List ℤ} {m fuel : ℕ}

theorem firstMax_spec {α κ : Type} [LinearOrder κ] (key : α → κ) {l : List α} (h : l ≠ []) :
    ∃ best ∈ l, firstMax key l = some best ∧ ∀ x ∈ l, key x ≤ key best := by
  obtain ⟨best, hbest⟩ : ∃ best, firstMax key l = some best := firstMin_isSome h
  obtain ⟨pre, post, rfl, hpre, hpost⟩ := firstMin_split (fun x ↦ OrderDual.toDual (key x)) hbest
  refine ⟨best, by simp, hbest, fun x hx ↦ ?_⟩
  rw [List.mem_append, List.mem_cons] at hx
  obtain hx | rfl | hx := hx
  · exact (hpre x hx).le
  · exact le_rfl
  · exact hpost x hx

/-- A sample moves to another client, from one that is above the minimum. -/
def Gives (m : ℕ) (a b : Parts k) : Prop :=
  ∃ d r x, d ≠ r ∧ x ∈ a d ∧ m < (a d).length ∧ b = move a d r x

/-- Neither the donor nor anyone else falls below the minimum. -/
theorem Gives.le_length (h : Gives m a b) (hi : m ≤ (a i).length) : m ≤ (b i).length := by
  obtain ⟨d, r, x, hne, hx, hlt, rfl⟩ := h
  rw [move_length hne hx]
  split_ifs with hir hid
  · exact Nat.le_succ_of_le hi
  · subst hid
    exact Nat.le_sub_one_of_lt hlt
  · exact hi

theorem gives_le_length (h : Relation.ReflTransGen (Gives m) a b) (hi : m ≤ (a i).length) : m ≤ (b i).length := by
  induction h with
  | refl => exact hi
  | tail _ hstep ih => exact hstep.le_length ih

/-- One turn takes a sample from a client that is above the minimum. -/
theorem give_ok (labels : List ℤ) (h : Lossless n a) (hm : k * m ≤ n) (hr : (a r).length < m) :
    ∃ d x, d ≠ r ∧ x ∈ a d ∧ m < (a d).length ∧ give labels r a = .ok (move a d r x) := by
  obtain ⟨j, hj⟩ := h.exists_larger hm hr
  have hclients : List.finRange k ≠ [] := List.ne_nil_of_mem (List.mem_finRange r)
  obtain ⟨d, -, hd, hmax⟩ := firstMax_spec (fun i ↦ (a i).length) hclients
  have hlt : m < (a d).length := hj.trans_le (hmax j (List.mem_finRange j))
  have hsource : a d ≠ [] := List.ne_nil_of_length_pos (Nat.zero_lt_of_lt hlt)
  obtain ⟨x, hx, hchosen, -⟩ := firstMax_spec (rank labels (a r) (a d)) hsource
  refine ⟨d, x, ?_, hx, hlt, ?_⟩
  · rintro rfl
    exact absurd (hr.trans hlt) (lt_irrefl _)
  · rw [give, hd]
    dsimp only
    rw [hchosen]

theorem fill_ok (labels : List ℤ) (h : Lossless n a) (hm : k * m ≤ n) (r : Fin k) (hfuel : m ≤ fuel) :
    ∃ b, fill labels m fuel r a = some (.ok b) ∧ Relation.ReflTransGen (Gives m) a b ∧ Lossless n b ∧
      m ≤ (b r).length := by
  have hbody : ∀ s : Parts k, Lossless n s → decide ((s r).length < m) = true →
      ∃ t, give labels r s = .ok t ∧ Gives m s t ∧ Lossless n t ∧ m - (t r).length < m - (s r).length := by
    intro s hs hlt
    have hlt := of_decide_eq_true hlt
    obtain ⟨d, x, hne, hx, hd, hgive⟩ := give_ok labels hs hm hlt
    refine ⟨_, hgive, ⟨d, r, x, hne, hx, hd, rfl⟩, hs.move hne hx, ?_⟩
    rw [move_length hne hx, if_pos rfl]
    omega
  obtain ⟨b, hb, hruns, hlossless, hdone⟩ :=
    whileLoop_total (Lossless n) (fun s ↦ m - (s r).length) hbody h ((Nat.sub_le _ _).trans hfuel)
  exact ⟨b, hb, hruns, hlossless, not_lt.mp (of_decide_eq_false hdone)⟩

/-- The first loop ends with everyone at the minimum, and loses nothing on its way. -/
theorem fillAll_ok (labels : List ℤ) (h : Lossless n a) (hm : k * m ≤ n) (hfuel : m ≤ fuel) :
    ∃ b, fillAll labels m fuel a = some (.ok b) ∧ Relation.ReflTransGen (Gives m) a b ∧ Lossless n b ∧
      ∀ i, m ≤ (b i).length := by
  have hbody : ∀ (done : List (Fin k)) (r : Fin k) (s : Parts k),
      (Lossless n s ∧ ∀ i ∈ done, m ≤ (s i).length) →
      ∃ t, fill labels m fuel r s = some (.ok t) ∧ Relation.ReflTransGen (Gives m) s t ∧
        Lossless n t ∧ ∀ i ∈ done ++ [r], m ≤ (t i).length := by
    rintro done r s ⟨hs, hdone⟩
    obtain ⟨t, ht, hruns, hlossless, hr⟩ := fill_ok labels hs hm r hfuel
    refine ⟨t, ht, hruns, hlossless, fun i hi ↦ ?_⟩
    obtain hi | hi := List.mem_append.mp hi
    · exact gives_le_length hruns (hdone i hi)
    · rw [List.mem_singleton.mp hi]
      exact hr
  obtain ⟨b, hb, hruns, hlossless, hall⟩ := forLoop_total
    (fun done s ↦ Lossless n s ∧ ∀ i ∈ done, m ≤ (s i).length) hbody [] (List.finRange k)
    ⟨h, fun _ hi ↦ absurd hi List.not_mem_nil⟩
  exact ⟨b, hb, hruns, hlossless, fun i ↦ hall i (List.mem_finRange i)⟩

end Fill

/-! ### Shared classes -/

section Share

variable {labels : List ℤ} {m : ℕ} {c : ℤ}

/-- The clients that hold a class. -/
def holders (labels : List ℤ) (a : Parts k) (c : ℤ) : Finset (Fin k) :=
  Finset.univ.filter fun i ↦ ∃ x ∈ a i, labelOf labels x = c

theorem mem_holders : i ∈ holders labels a c ↔ ∃ x ∈ a i, labelOf labels x = c := by
  rw [holders, Finset.mem_filter]
  exact and_iff_right (Finset.mem_univ i)

/-- A sample of the class leaves a client. -/
def Moved (labels : List ℤ) (a b : Parts k) (c : ℤ) : Prop := ∃ i, ∃ x ∈ a i, x ∉ b i ∧ labelOf labels x = c

/-- What a turn over one class may do. -/
structure Shares (labels : List ℤ) (m : ℕ) (a b : Parts k) : Prop where
  lossless : Lossless labels.length b
  size : ∀ i, m ≤ (b i).length
  holders_le : ∀ c, (holders labels a c).card ≤ (holders labels b c).card
  moved : ∀ c, 2 ≤ (indicesOf labels c).length → Moved labels a b c → 2 ≤ (holders labels b c).card

theorem Shares.refl (h : Lossless labels.length a) (hm : ∀ i, m ≤ (a i).length) : Shares labels m a a where
  lossless := h
  size := hm
  holders_le _ := le_rfl
  moved _ _ hmoved := by
    obtain ⟨i, x, hx, hnot, -⟩ := hmoved
    exact absurd hx hnot

/-- A class with two samples has a sample besides any given one. -/
theorem exists_other (h : Lossless labels.length a) (hc : 2 ≤ (indicesOf labels c).length) (x : ℕ) :
    ∃ y i, y ≠ x ∧ y ∈ a i ∧ labelOf labels y = c := by
  have hnodup : (indicesOf labels c).Nodup := List.nodup_range.filter _
  have hcard : 1 < (indicesOf labels c).toFinset.card := by
    rw [List.toFinset_card_of_nodup hnodup]
    exact hc
  obtain ⟨y, hy, hne⟩ := Finset.exists_mem_ne hcard x
  obtain ⟨hlt, hlabel⟩ := List.mem_filter.mp (List.mem_toFinset.mp hy)
  obtain ⟨i, hi⟩ := (h.mem y).mpr (List.mem_range.mp hlt)
  exact ⟨y, i, hne, hi, of_decide_eq_true hlabel⟩

theorem two_le_card {i j : Fin k} (hne : i ≠ j) (hi : i ∈ holders labels a c) (hj : j ∈ holders labels a c) :
    2 ≤ (holders labels a c).card := by
  rw [← Finset.card_pair hne]
  exact Finset.card_le_card (Finset.insert_subset hi (Finset.singleton_subset_iff.mpr hj))

/-- The only holder of a class with two samples keeps one when the other goes. -/
theorem exists_kept (h : Lossless labels.length a) (hc : 2 ≤ (indicesOf labels (labelOf labels x)).length)
    (halone : ∀ i ∈ holders labels a (labelOf labels x), i = d) :
    ∃ y ∈ a d, y ≠ x ∧ labelOf labels y = labelOf labels x := by
  obtain ⟨y, i, hne, hy, hlabel⟩ := exists_other h hc x
  obtain rfl := halone i (mem_holders.mpr ⟨y, hy, hlabel⟩)
  exact ⟨y, hy, hne, hlabel⟩

theorem shares_move (h : Lossless labels.length a) (hm : ∀ i, m ≤ (a i).length) (hne : d ≠ r) (hx : x ∈ a d)
    (hlt : m < (a d).length) (hc : 2 ≤ (indicesOf labels (labelOf labels x)).length)
    (halone : ∀ i ∈ holders labels a (labelOf labels x), i = d) : Shares labels m a (move a d r x) := by
  obtain ⟨y, hy, hyx, hlabel⟩ := exists_kept h hc halone
  have hkept : y ∈ move a d r x d := (mem_move h hne hx).mpr (.inl ⟨hyx, hy⟩)
  refine ⟨h.move hne hx, fun i ↦ Gives.le_length ⟨d, r, x, hne, hx, hlt, rfl⟩ (hm i), fun c ↦ ?_, fun c _ hmoved ↦ ?_⟩
  · refine Finset.card_le_card fun i hi ↦ ?_
    obtain ⟨z, hz, rfl⟩ := mem_holders.mp hi
    rw [mem_holders]
    by_cases hzx : z = x
    · subst hzx
      obtain rfl := h.disjoint i d z hz hx
      exact ⟨y, hkept, hlabel⟩
    · exact ⟨z, (mem_move h hne hx).mpr (.inl ⟨hzx, hz⟩), rfl⟩
  · obtain ⟨i, z, hz, hnot, rfl⟩ := hmoved
    have hzx : z = x := by
      by_contra hzx
      exact hnot ((mem_move h hne hx).mpr (.inl ⟨hzx, hz⟩))
    subst hzx
    exact two_le_card hne (mem_holders.mpr ⟨y, hkept, hlabel⟩)
      (mem_holders.mpr ⟨z, (mem_move h hne hx).mpr (.inr ⟨rfl, rfl⟩), rfl⟩)

/-- The recipient keeps a sample of the class that it gives back, or the donor lacked that class. -/
theorem spared_of_swapOf (h : Lossless labels.length a) (hz : swapOf labels a d r = some z) : z ∈ a r ∧
    ((∃ y ∈ a r, y ≠ z ∧ labelOf labels y = labelOf labels z) ∨ d ∉ holders labels a (labelOf labels z)) := by
  rw [swapOf] at hz
  have hfound := List.find?_some hz
  rw [decide_eq_true_eq] at hfound
  refine ⟨List.mem_of_find?_eq_some hz, ?_⟩
  obtain hcount | hlacks := hfound
  · left
    have hnodup : ((a r).filter (labelOf labels · = labelOf labels z)).Nodup := (h.nodup r).filter _
    have hcard : 1 < ((a r).filter (labelOf labels · = labelOf labels z)).toFinset.card := by
      rw [List.toFinset_card_of_nodup hnodup, ← List.countP_eq_length_filter]
      exact hcount
    obtain ⟨y, hy, hne⟩ := Finset.exists_mem_ne hcard z
    obtain ⟨hmem, hlabel⟩ := List.mem_filter.mp (List.mem_toFinset.mp hy)
    exact ⟨y, hmem, hne, of_decide_eq_true hlabel⟩
  · right
    intro hd
    obtain ⟨y, hy, hlabel⟩ := mem_holders.mp hd
    exact hlacks (List.mem_map.mpr ⟨y, hy, hlabel⟩)

section Exchange

variable (h : Lossless labels.length a) (hne : d ≠ r) (hx : x ∈ a d) (hz : z ∈ a r)

include h hne hx hz

theorem mem_exchange_of_ne (hyx : y ≠ x) (hyz : y ≠ z) (hy : y ∈ a i) : y ∈ exchange a d r x z i :=
  (mem_exchange h hne hx hz).mpr (.inl ⟨hyx, hyz, hy⟩)

theorem chosen_mem_exchange : x ∈ exchange a d r x z r := (mem_exchange h hne hx hz).mpr (.inr (.inl ⟨rfl, rfl⟩))

theorem swap_mem_exchange : z ∈ exchange a d r x z d := (mem_exchange h hne hx hz).mpr (.inr (.inr ⟨rfl, rfl⟩))

/-- The class of the chosen sample is with the donor and with the recipient. -/
theorem chosen_class_shared (hkept : ∃ y ∈ a d, y ≠ x ∧ labelOf labels y = labelOf labels x) :
    d ∈ holders labels (exchange a d r x z) (labelOf labels x) ∧
      r ∈ holders labels (exchange a d r x z) (labelOf labels x) := by
  obtain ⟨y, hy, hyx, hlabel⟩ := hkept
  have hyz : y ≠ z := fun he ↦ hne (h.disjoint d r y hy (he ▸ hz))
  exact ⟨mem_holders.mpr ⟨y, mem_exchange_of_ne h hne hx hz hyx hyz hy, hlabel⟩,
    mem_holders.mpr ⟨x, chosen_mem_exchange h hne hx hz, rfl⟩⟩

/-- No client but the recipient stops holding a class, and that only of the sample it gives back. -/
theorem holders_exchange (hkept : ∃ y ∈ a d, y ≠ x ∧ labelOf labels y = labelOf labels x)
    (hi : i ∈ holders labels a c) (hstays : c = labelOf labels z → i = r →
      ∃ y ∈ a r, y ≠ z ∧ y ≠ x ∧ labelOf labels y = labelOf labels z) :
    i ∈ holders labels (exchange a d r x z) c := by
  obtain ⟨y, hy, rfl⟩ := mem_holders.mp hi
  by_cases hyx : y = x
  · subst hyx
    obtain rfl := h.disjoint i d y hy hx
    exact (chosen_class_shared h hne hx hz hkept).1
  · by_cases hyz : y = z
    · subst hyz
      obtain rfl := h.disjoint i r y hy hz
      obtain ⟨w, hw, hwz, hwx, hlabel⟩ := hstays rfl rfl
      exact mem_holders.mpr ⟨w, mem_exchange_of_ne h hne hx hz hwx hwz hw, hlabel⟩
    · exact mem_holders.mpr ⟨y, mem_exchange_of_ne h hne hx hz hyx hyz hy, rfl⟩

end Exchange

theorem shares_exchange (h : Lossless labels.length a) (hm : ∀ i, m ≤ (a i).length) (hne : d ≠ r) (hx : x ∈ a d)
    (hc : 2 ≤ (indicesOf labels (labelOf labels x)).length)
    (halone : ∀ i ∈ holders labels a (labelOf labels x), i = d) (hswap : swapOf labels a d r = some z) :
    Shares labels m a (exchange a d r x z) := by
  obtain ⟨hz, hspared⟩ := spared_of_swapOf h hswap
  have hkept := exists_kept h hc halone
  have hshared := chosen_class_shared h hne hx hz hkept
  have hback : d ∈ holders labels (exchange a d r x z) (labelOf labels z) :=
    mem_holders.mpr ⟨z, swap_mem_exchange h hne hx hz, rfl⟩
  have hsparedx : ∀ y ∈ a r, y ≠ x := fun y hy he ↦ hne (h.disjoint d r x hx (he ▸ hy))
  refine ⟨h.exchange hne hx hz, fun i ↦ (exchange_length hne hx hz i).symm ▸ hm i, fun c ↦ ?_, fun c hc' hmoved ↦ ?_⟩
  · obtain ⟨y, hy, hyz, hlabel⟩ | hlacks := hspared
    · exact Finset.card_le_card fun i hi ↦
        holders_exchange h hne hx hz hkept hi fun _ _ ↦ ⟨y, hy, hyz, hsparedx y hy, hlabel⟩
    · by_cases hcz : c = labelOf labels z
      · -- The donor takes the place of the recipient.
        subst hcz
        have hr : r ∈ holders labels a (labelOf labels z) := mem_holders.mpr ⟨z, hz, rfl⟩
        have hsub : insert d ((holders labels a (labelOf labels z)).erase r) ⊆
            holders labels (exchange a d r x z) (labelOf labels z) := by
          refine Finset.insert_subset hback fun i hi ↦ ?_
          obtain ⟨hir, hi⟩ := Finset.mem_erase.mp hi
          exact holders_exchange h hne hx hz hkept hi fun _ he ↦ absurd he hir
        have hcard := Finset.card_le_card hsub
        rw [Finset.card_insert_of_notMem fun hd ↦ hlacks (Finset.mem_of_mem_erase hd),
          Finset.card_erase_add_one hr] at hcard
        exact hcard
      · exact Finset.card_le_card fun i hi ↦
          holders_exchange h hne hx hz hkept hi fun he _ ↦ absurd he hcz
  · obtain ⟨i, w, hw, hnot, rfl⟩ := hmoved
    by_cases hwx : w = x
    · subst hwx
      exact two_le_card hne hshared.1 hshared.2
    · have hwz : w = z := by
        by_contra hwz
        exact hnot (mem_exchange_of_ne h hne hx hz hwx hwz hw)
      subst hwz
      obtain ⟨y, hy, hyz, hlabel⟩ | hlacks := hspared
      · exact two_le_card hne hback (mem_holders.mpr
          ⟨y, mem_exchange_of_ne h hne hx hz (hsparedx y hy) hyz hy, hlabel⟩)
      · by_cases hstays : ∃ y ∈ a r, y ≠ w ∧ labelOf labels y = labelOf labels w
        · obtain ⟨y, hy, hyz, hlabel⟩ := hstays
          exact two_le_card hne hback (mem_holders.mpr
            ⟨y, mem_exchange_of_ne h hne hx hz (hsparedx y hy) hyz hy, hlabel⟩)
        · -- Another sample of the class is with a third client.
          obtain ⟨y, j, hyw, hy, hlabel⟩ := exists_other h hc' w
          have hj : j ∈ holders labels a (labelOf labels w) := mem_holders.mpr ⟨y, hy, hlabel⟩
          have hjd : j ≠ d := fun he ↦ hlacks (he ▸ hj)
          have hjr : j ≠ r := fun he ↦ hstays ⟨y, he ▸ hy, hyw, hlabel⟩
          exact two_le_card hjd.symm hback
            (holders_exchange h hne hx hz hkept hj fun _ he ↦ absurd he hjr)

/-- The loop over the recipients, for the only holder of a class with two samples. -/
theorem shares_shareWith (h : Lossless labels.length a) (hm : ∀ i, m ≤ (a i).length) (hx : x ∈ a d)
    (hc : 2 ≤ (indicesOf labels (labelOf labels x)).length)
    (halone : ∀ i ∈ holders labels a (labelOf labels x), i = d) (l : List (Fin k)) :
    Shares labels m a (shareWith labels m d x a l) := by
  induction l with
  | nil => exact .refl h hm
  | cons r l ih =>
    rw [shareWith]
    split_ifs with hrd hlt
    · exact ih
    · exact shares_move h hm (Ne.symm hrd) hx hlt hc halone
    · cases hswap : swapOf labels a d r with
      | some z => exact shares_exchange h hm (Ne.symm hrd) hx hc halone hswap
      | none => exact ih

theorem shares_shareClass (h : Lossless labels.length a) (hm : ∀ i, m ≤ (a i).length) (c : ℤ) :
    Shares labels m a (shareClass labels m a c) := by
  rw [shareClass]
  split
  · rename_i d hd
    split_ifs with hc
    · exact .refl h hm
    · cases hx : (a d).find? (labelOf labels · = c) with
      | none => exact .refl h hm
      | some x =>
        have hlabel := List.find?_some hx
        rw [decide_eq_true_eq] at hlabel
        subst hlabel
        refine shares_shareWith h hm (List.mem_of_find?_eq_some hx) (not_lt.mp hc) (fun i hi ↦ ?_) _
        have hmem : i ∈ (List.finRange k).filter (holds labels a (labelOf labels x)) := by
          obtain ⟨y, hy, he⟩ := mem_holders.mp hi
          exact List.mem_filter.mpr ⟨List.mem_finRange i, List.any_eq_true.mpr ⟨y, hy, decide_eq_true he⟩⟩
        rw [hd] at hmem
        exact List.mem_singleton.mp hmem
  · exact .refl h hm

/-- The pass over some classes keeps everything and takes no class from the clients that hold it. -/
theorem shareClasses_ok (h : Lossless labels.length a) (hm : ∀ i, m ≤ (a i).length) (l : List ℤ) :
    Lossless labels.length (shareClasses labels m a l) ∧ (∀ i, m ≤ (shareClasses labels m a l i).length) ∧
      ∀ c, (holders labels a c).card ≤ (holders labels (shareClasses labels m a l) c).card := by
  induction l generalizing a with
  | nil => exact ⟨h, hm, fun _ ↦ le_rfl⟩
  | cons c l ih =>
    have hshares := shares_shareClass h hm c
    obtain ⟨hlossless, hsize, hholders⟩ := ih hshares.lossless hshares.size
    exact ⟨hlossless, hsize, fun c' ↦ (hshares.holders_le c').trans (hholders c')⟩

end Share

/-! ### The pieces of the classes -/

section Deal

variable {labels : List ℤ} {c : ℤ}

theorem npSplit_length (l : List ℕ) (start : ℕ) (points : List ℕ) :
    (npSplit l start points).length = points.length + 1 := by
  induction points generalizing start with
  | nil => rfl
  | cons point points ih => rw [npSplit, List.length_cons, ih, List.length_cons]

/-- Nothing is lost between split points that do not decrease. -/
theorem npSplit_flatten (l : List ℕ) {start : ℕ} {points : List ℕ} (h : (start :: points).Pairwise (· ≤ ·)) :
    (npSplit l start points).flatten = l.drop start := by
  induction points generalizing start with
  | nil => rw [npSplit, List.flatten_singleton]
  | cons point points ih =>
    rw [List.pairwise_cons] at h
    have hle : start ≤ point := h.1 point List.mem_cons_self
    rw [npSplit, List.flatten_cons, ih h.2, List.drop_take]
    have hsplit := List.drop_take_append_drop l start (point - start)
    rw [Nat.add_sub_cancel' hle] at hsplit
    exact hsplit

/-- What the client `i` gets of a class. -/
def piece (labels : List ℤ) (draws : Draws k) (c : ℤ) (i : Fin k) : List ℕ :=
  (npSplit (indicesOf labels c) 0 (draws.splitPoints c)).getD i []

theorem foldl_deal (draws : Draws k) (l : List ℤ) (a : Parts k) :
    l.foldl (deal labels draws) a = fun i ↦ a i ++ l.flatMap fun c ↦ piece labels draws c i := by
  induction l generalizing a with
  | nil =>
    funext i
    rw [List.flatMap_nil, List.append_nil]
    rfl
  | cons c l ih =>
    rw [List.foldl_cons, ih]
    funext i
    rw [List.flatMap_cons, ← List.append_assoc]
    rfl

theorem pieces_flatten (draws : Draws k) (c : ℤ) :
    (npSplit (indicesOf labels c) 0 (draws.splitPoints c)).flatten = indicesOf labels c :=
  npSplit_flatten _ (List.pairwise_cons.mpr ⟨fun _ _ ↦ Nat.zero_le _, draws.splitPoints_sorted c⟩)

theorem piece_getElem (labels : List ℤ) (hk : 2 ≤ k) (draws : Draws k) (c : ℤ) (i : Fin k) :
    ∃ hi : i < (npSplit (indicesOf labels c) 0 (draws.splitPoints c)).length,
      piece labels draws c i = (npSplit (indicesOf labels c) 0 (draws.splitPoints c))[i] := by
  have hi : i < (npSplit (indicesOf labels c) 0 (draws.splitPoints c)).length := by
    rw [npSplit_length, draws.splitPoints_length]
    omega
  refine ⟨hi, ?_⟩
  rw [piece, List.getD_eq_getElem _ _ hi]
  rfl

theorem mem_indicesOf {x : ℕ} : x ∈ indicesOf labels c ↔ x < labels.length ∧ labelOf labels x = c := by
  rw [indicesOf, List.mem_filter, List.mem_range, decide_eq_true_eq]

theorem mem_piece (hk : 2 ≤ k) (draws : Draws k) {x : ℕ} (hx : x ∈ piece labels draws c i) :
    x < labels.length ∧ labelOf labels x = c := by
  obtain ⟨hi, he⟩ := piece_getElem labels hk draws c i
  rw [← mem_indicesOf, ← pieces_flatten draws c, List.mem_flatten]
  exact ⟨_, List.getElem_mem hi, he ▸ hx⟩

theorem exists_piece (hk : 2 ≤ k) (draws : Draws k) {x : ℕ} (hx : x < labels.length) :
    ∃ i, x ∈ piece labels draws (labelOf labels x) i := by
  have hmem : x ∈ indicesOf labels (labelOf labels x) := mem_indicesOf.mpr ⟨hx, rfl⟩
  rw [← pieces_flatten draws (labelOf labels x), List.mem_flatten] at hmem
  obtain ⟨l, hl, hx⟩ := hmem
  obtain ⟨i, hi, rfl⟩ := List.getElem_of_mem hl
  have hik : i < k := by
    rw [npSplit_length, draws.splitPoints_length] at hi
    omega
  obtain ⟨_, he⟩ := piece_getElem labels hk draws (labelOf labels x) ⟨i, hik⟩
  exact ⟨⟨i, hik⟩, he ▸ hx⟩

theorem pieces_nodup (labels : List ℤ) (draws : Draws k) (c : ℤ) :
    (npSplit (indicesOf labels c) 0 (draws.splitPoints c)).flatten.Nodup := by
  rw [pieces_flatten]
  exact List.nodup_range.filter _

theorem piece_disjoint (hk : 2 ≤ k) (draws : Draws k) {i j : Fin k} {x : ℕ} (hi : x ∈ piece labels draws c i)
    (hj : x ∈ piece labels draws c j) : i = j := by
  obtain ⟨hilt, hie⟩ := piece_getElem labels hk draws c i
  obtain ⟨hjlt, hje⟩ := piece_getElem labels hk draws c j
  rw [hie] at hi
  rw [hje] at hj
  have hpairwise := (List.nodup_flatten.mp (pieces_nodup labels draws c)).2
  rw [List.pairwise_iff_getElem] at hpairwise
  obtain hlt | he | hlt := lt_trichotomy (i : ℕ) j
  · exact absurd hj (fun hj ↦ hpairwise i j hilt hjlt hlt hi hj)
  · exact Fin.ext he
  · exact absurd hi (fun hi ↦ hpairwise j i hjlt hilt hlt hj hi)

theorem piece_nodup (hk : 2 ≤ k) (draws : Draws k) (c : ℤ) (i : Fin k) : (piece labels draws c i).Nodup := by
  obtain ⟨hi, he⟩ := piece_getElem labels hk draws c i
  rw [he]
  exact (List.nodup_flatten.mp (pieces_nodup labels draws c)).1 _ (List.getElem_mem hi)

/-- Every index is dealt to one client. -/
theorem lossless_deal (labels : List ℤ) (hk : 2 ≤ k) (draws : Draws k) :
    Lossless labels.length ((classes labels).foldl (deal labels draws) fun _ ↦ []) := by
  have hdealt : ((classes labels).foldl (deal labels draws) fun _ ↦ []) =
      fun i ↦ (classes labels).flatMap fun c ↦ piece labels draws c i := by
    rw [foldl_deal]
    rfl
  rw [hdealt]
  refine ⟨fun i ↦ ?_, fun i j x hi hj ↦ ?_, fun x ↦ ⟨?_, fun hx ↦ ?_⟩⟩
  · rw [List.nodup_flatMap]
    refine ⟨fun c _ ↦ piece_nodup hk draws c i, ?_⟩
    refine (nodup_sortedSet labels).pairwise_of_forall_ne fun c _ c' _ hne x hx hx' ↦ hne ?_
    rw [← (mem_piece hk draws hx).2, (mem_piece hk draws hx').2]
  · obtain ⟨c, -, hi⟩ := List.mem_flatMap.mp hi
    obtain ⟨c', -, hj⟩ := List.mem_flatMap.mp hj
    have hcc : c = c' := by rw [← (mem_piece hk draws hi).2, (mem_piece hk draws hj).2]
    subst hcc
    exact piece_disjoint hk draws hi hj
  · rintro ⟨i, hi⟩
    obtain ⟨c, -, hi⟩ := List.mem_flatMap.mp hi
    exact (mem_piece hk draws hi).1
  · obtain ⟨i, hi⟩ := exists_piece hk draws hx
    refine ⟨i, List.mem_flatMap.mpr ⟨labelOf labels x, ?_, hi⟩⟩
    rw [classes, mem_sortedSet, labelOf, List.getD_eq_getElem _ _ hx]
    exact List.getElem_mem hx

end Deal

/-! ### The law -/

section Law

variable {labels : List ℤ} {m fuel : ℕ}

theorem Lossless.of_perm (h : Lossless n a) (hb : ∀ i, (b i).Perm (a i)) : Lossless n b where
  nodup i := (hb i).nodup_iff.mpr (h.nodup i)
  disjoint i j x hi hj := h.disjoint i j x ((hb i).mem_iff.mp hi) ((hb j).mem_iff.mp hj)
  mem x := by
    rw [← h.mem x]
    exact exists_congr fun i ↦ (hb i).mem_iff

/-- What `_enforce_minimum_partition_size` returns for a lossless assignment. -/
theorem enforce_ok (h : Lossless labels.length a) (hm : k * m ≤ labels.length) (hfuel : m ≤ fuel) :
    ∃ b, enforceMinimumPartitionSize labels m fuel a = some (.ok b) ∧ Lossless labels.length b ∧
      ∀ i, m ≤ (b i).length := by
  obtain ⟨b, hb, -, hlossless, hsize⟩ := fillAll_ok labels h hm hfuel
  obtain ⟨hlossless, hsize, -⟩ := shareClasses_ok hlossless hsize (classes labels)
  refine ⟨_, ?_, hlossless, hsize⟩
  rw [enforceMinimumPartitionSize, hb]
  rfl

/-- The turn over one class, between the turns before it and the turns after it. -/
theorem shareClass_between (h : Lossless labels.length a) (hm : ∀ i, m ≤ (a i).length) (before after : List ℤ)
    (c : ℤ) :
    let s := shareClasses labels m a before
    let t := shareClass labels m s c
    let u := shareClasses labels m t after
    (∀ c', (holders labels s c').card ≤ (holders labels t c').card) ∧
      ∀ c', 2 ≤ (indicesOf labels c').length → Moved labels s t c' →
        2 ≤ (holders labels t c').card ∧ 2 ≤ (holders labels u c').card := by
  intro s t u
  obtain ⟨hs, hsize, -⟩ := shareClasses_ok h hm before
  have hshares : Shares labels m s t := shares_shareClass hs hsize c
  refine ⟨hshares.holders_le, fun c' hc' hmoved ↦ ?_⟩
  have htwo := hshares.moved c' hc' hmoved
  obtain ⟨-, -, hholders⟩ := shareClasses_ok hshares.lossless hshares.size after
  exact ⟨htwo, htwo.trans (hholders c')⟩

theorem dirichletPartition_ok (labels : List ℤ) (alpha : ℚ) (minPartitionSize : ℤ) (draws : Draws k) (fuel : ℕ)
    (hk : 2 ≤ k) (ha : 0 < alpha) (hmin : 1 ≤ minPartitionSize) (hn : k ≤ labels.length)
    (hfuel : labels.length ≤ fuel) :
    ∃ parts, dirichletPartition labels k alpha minPartitionSize draws fuel = some (.ok parts) ∧
      Lossless labels.length parts ∧ ∀ i, min minPartitionSize (labels.length / k : ℕ) ≤ ((parts i).length : ℤ) := by
  -- the minimum is a natural number, since both of its bounds are
  obtain ⟨m, hm⟩ := Int.eq_ofNat_of_zero_le (le_min (Int.zero_le_ofNat 1 |>.trans hmin)
    (Int.natCast_nonneg (labels.length / k)))
  have hle : m ≤ labels.length / k := Int.ofNat_le.mp (hm ▸ min_le_right ..)
  have hshare : k * m ≤ labels.length := (Nat.mul_le_mul_left k hle).trans (Nat.mul_div_le _ _)
  have hturns : m ≤ fuel := (hle.trans (Nat.div_le_self _ _)).trans hfuel
  have hdealt := lossless_deal labels hk draws
  rw [dirichletPartition, if_neg (not_or.mpr ⟨not_lt.mpr hk, not_le.mpr ha⟩), if_neg (not_lt.mpr hmin),
    if_neg (not_lt.mpr hn), hm]
  dsimp only
  rw [Int.toNat_natCast]
  generalize (classes labels).foldl (deal labels draws) (fun _ ↦ []) = dealt at hdealt ⊢
  obtain ⟨b, hb, hlossless, hsize⟩ : ∃ b, (if tooSmall dealt m then enforceMinimumPartitionSize labels m fuel dealt
      else some (.ok dealt)) = some (.ok b) ∧ Lossless labels.length b ∧ ∀ i, m ≤ (b i).length := by
    by_cases hsmall : tooSmall dealt m = true
    · rw [if_pos hsmall]
      exact enforce_ok hdealt hshare hturns
    · rw [if_neg hsmall]
      refine ⟨dealt, rfl, hdealt, ?_⟩
      rw [tooSmall, decide_eq_true_eq] at hsmall
      exact fun i ↦ not_lt.mp fun hlt ↦ hsmall ⟨i, hlt⟩
  rw [hb]
  refine ⟨_, rfl, hlossless.of_perm fun i ↦ draws.shuffle_perm i (b i), fun i ↦ ?_⟩
  rw [(draws.shuffle_perm i (b i)).length_eq]
  exact Int.ofNat_le.mpr (hsize i)

/-- `dirichlet_partition` deals every index to one client, each client gets its minimum, and the two loops of
`_enforce_minimum_partition_size` keep to the minimum and to the classes that the clients hold. -/
theorem dirichlet_partition_lossless (labels : List ℤ) (alpha : ℚ) (minPartitionSize : ℤ) (draws : Draws k)
    (fuel : ℕ) (hk : 2 ≤ k) (ha : 0 < alpha) (hmin : 1 ≤ minPartitionSize) (hn : k ≤ labels.length)
    (hfuel : labels.length ≤ fuel) :
    (∃ parts, dirichletPartition labels k alpha minPartitionSize draws fuel = some (.ok parts) ∧
      ((List.finRange k).flatMap parts).Perm (List.range labels.length) ∧
      ∀ i, min minPartitionSize (labels.length / k : ℕ) ≤ ((parts i).length : ℤ)) ∧
    ∀ a : Parts k, ((List.finRange k).flatMap a).Perm (List.range labels.length) → ∀ m ≤ labels.length / k,
      ∃ b, fillAll labels m fuel a = some (.ok b) ∧ Relation.ReflTransGen (Gives m) a b ∧
        (∀ i, m ≤ (b i).length) ∧
        enforceMinimumPartitionSize labels m fuel a = some (.ok (shareClasses labels m b (classes labels))) ∧
        ∀ before label after, classes labels = before ++ label :: after →
          let s := shareClasses labels m b before
          let t := shareClass labels m s label
          let u := shareClasses labels m t after
          (∀ c, (holders labels s c).card ≤ (holders labels t c).card) ∧
            ∀ c, 2 ≤ (indicesOf labels c).length → Moved labels s t c →
              2 ≤ (holders labels t c).card ∧ 2 ≤ (holders labels u c).card := by
  have hshare : ∀ m ≤ labels.length / k, k * m ≤ labels.length := fun m hm ↦
    (Nat.mul_le_mul_left k hm).trans (Nat.mul_div_le _ _)
  have hturns : ∀ m ≤ labels.length / k, m ≤ fuel := fun m hm ↦
    (hm.trans (Nat.div_le_self _ _)).trans hfuel
  constructor
  · obtain ⟨parts, hok, hlossless, hsize⟩ :=
      dirichletPartition_ok labels alpha minPartitionSize draws fuel hk ha hmin hn hfuel
    exact ⟨parts, hok, hlossless.flatMap_perm, hsize⟩
  · intro a ha m hm
    obtain ⟨b, hb, hgives, hlossless, hsize⟩ :=
      fillAll_ok labels (.of_flatMap_perm ha) (hshare m hm) (hturns m hm)
    refine ⟨b, hb, hgives, hsize, ?_, fun before c after _ ↦ shareClass_between hlossless hsize before after c⟩
    rw [enforceMinimumPartitionSize, hb]
    rfl

/-- Both classes are dealt to the client `0`. -/
def oneSided : Draws 2 where
  splitPoints _ := [2]
  shuffle _ := List.reverse
  splitPoints_length _ := rfl
  splitPoints_sorted _ := List.pairwise_singleton _ _
  shuffle_perm _ l := l.reverse_perm

theorem one_sided_lossless : ∃ parts, dirichletPartition [0, 1, 0, 1] 2 (1 / 2) 5 oneSided 4 = some (.ok parts) ∧
    ((List.finRange 2).flatMap parts).Perm (List.range 4) ∧ ∀ i, 2 ≤ (parts i).length := by
  obtain ⟨⟨parts, hok, hperm, hsize⟩, -⟩ := dirichlet_partition_lossless [0, 1, 0, 1] (1 / 2) 5 oneSided 4
    le_rfl (by decide +kernel) (by decide) (by decide) le_rfl
  exact ⟨parts, hok, hperm, fun i ↦ Int.ofNat_le.mp (hsize i)⟩

example : (dirichletPartition [0, 1, 0, 1] 2 (1 / 2) 5 oneSided 4).map (fun r ↦ r.toOption.map fun a ↦ (a 0, a 1)) =
    some (some ([3, 2], [1, 0])) := by decide +kernel

end Law

end SplitFleet.Partition
