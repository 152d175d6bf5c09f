import SplitFleet.Lib.Python
import Mathlib.Data.List.Sort
import Mathlib.Data.Prod.Lex

set_option autoImplicit false

namespace SplitFleet.Lib

section SortedBy

variable {α κ : Type} [LinearOrder κ] (key : α → κ)

/-- `sorted(items, key=key)`. -/
def sortedBy (l : List α) : List α := l.insertionSort fun a b ↦ key a ≤ key b

theorem sortedBy_perm (l : List α) : (sortedBy key l).Perm l := List.perm_insertionSort _ l

@[simp] theorem mem_sortedBy {l : List α} {a : α} : a ∈ sortedBy key l ↔ a ∈ l :=
  (sortedBy_perm key l).mem_iff

instance keyTotal : Std.Total fun a b : α ↦ key a ≤ key b := ⟨fun a b ↦ le_total (key a) (key b)⟩

instance keyTrans : IsTrans α fun a b ↦ key a ≤ key b := ⟨fun _ _ _ hab hbc ↦ le_trans hab hbc⟩

theorem pairwise_sortedBy (l : List α) : (sortedBy key l).Pairwise fun a b ↦ key a ≤ key b :=
  List.pairwise_insertionSort _ l

theorem sortedBy_of_pairwise {l : List α} (h : l.Pairwise fun a b ↦ key a ≤ key b) : sortedBy key l = l :=
  h.insertionSort_eq

theorem sortedBy_sortedBy (l : List α) : sortedBy key (sortedBy key l) = sortedBy key l :=
  sortedBy_of_pairwise key (pairwise_sortedBy key l)

/-- The first items of a sorted list have no larger keys than those that are left. -/
theorem key_le_of_mem_take {l : List α} {n : ℕ} {a b : α} (ha : a ∈ (sortedBy key l).take n) (hb : b ∈ l)
    (hb' : b ∉ (sortedBy key l).take n) : key a ≤ key b := by
  have hsorted := pairwise_sortedBy key l
  rw [← List.take_append_drop n (sortedBy key l), List.pairwise_append] at hsorted
  have hmem := (mem_sortedBy key).mpr hb
  rw [← List.take_append_drop n (sortedBy key l), List.mem_append] at hmem
  exact hsorted.2.2 a ha b (hmem.resolve_left hb')

/-- Where the key tells the items apart, the order they come in does not matter. -/
theorem sortedBy_congr {l l' : List α} (hp : l.Perm l')
    (hk : ∀ a ∈ l, ∀ b ∈ l, key a = key b → a = b) : sortedBy key l = sortedBy key l' := by
  refine List.Perm.eq_of_pairwise ?_ (pairwise_sortedBy key l) (pairwise_sortedBy key l')
    (((sortedBy_perm key l).trans hp).trans (sortedBy_perm key l').symm)
  intro a b ha hb hab hba
  rw [mem_sortedBy] at ha hb
  exact hk a ha b (hp.mem_iff.mpr hb) (le_antisymm hab hba)

end SortedBy

section SortedSet

variable {α : Type} [LinearOrder α]

/-- `sorted(set(items))`. -/
def sortedSet (l : List α) : List α := sortedBy id l.dedup

@[simp] theorem mem_sortedSet {l : List α} {a : α} : a ∈ sortedSet l ↔ a ∈ l := by
  rw [sortedSet, mem_sortedBy, List.mem_dedup]

theorem nodup_sortedSet (l : List α) : (sortedSet l).Nodup :=
  (sortedBy_perm id _).nodup_iff.mpr (List.nodup_dedup l)

/-- Neither order nor repetition shows in a sorted set. -/
theorem sortedSet_congr {l l' : List α} (h : ∀ a, a ∈ l ↔ a ∈ l') : sortedSet l = sortedSet l' := by
  have hp : l.dedup.Perm l'.dedup := by
    refine (List.perm_ext_iff_of_nodup (List.nodup_dedup l) (List.nodup_dedup l')).mpr ?_
    intro a
    rw [List.mem_dedup, List.mem_dedup, h]
  exact sortedBy_congr id hp fun _ _ _ _ he ↦ he

end SortedSet

namespace Dict

variable {κ υ ρ : Type} [LinearOrder ρ] (order : κ → ρ)

theorem sortedBy_keys_nodup (d : Dict κ υ) :
    ((sortedBy (order ∘ Prod.fst) d.entries).map Prod.fst).Nodup :=
  ((sortedBy_perm _ d.entries).map Prod.fst).nodup_iff.mpr d.nodup

theorem ext_entries {d d' : Dict κ υ} (h : d.entries = d'.entries) : d = d' := by
  cases d
  cases d'
  cases h
  rfl

variable [DecidableEq κ]

/-- `dict(sorted(d.items()))`, for keys that `order` compares. -/
def sorted (d : Dict κ υ) : Dict κ υ := ofList (sortedBy (order ∘ Prod.fst) d.entries)

theorem entries_sorted (d : Dict κ υ) : (d.sorted order).entries = sortedBy (order ∘ Prod.fst) d.entries :=
  entries_ofList (sortedBy_keys_nodup order d)

@[simp] theorem get?_sorted (d : Dict κ υ) (k : κ) : (d.sorted order).get? k = d.get? k := by
  apply Option.ext
  intro v
  rw [get?_eq_some_iff, get?_eq_some_iff, entries_sorted, mem_sortedBy]

theorem sorted_sorted (d : Dict κ υ) : (d.sorted order).sorted order = d.sorted order := by
  apply ext_entries
  rw [entries_sorted order (d.sorted order), entries_sorted, sortedBy_sortedBy]

/-- Reading the pairs of a dictionary back in gives the dictionary. -/
theorem ofList_entries (d : Dict κ υ) : ofList d.entries = d := ext_entries (entries_ofList d.nodup)

end Dict

end SplitFleet.Lib
