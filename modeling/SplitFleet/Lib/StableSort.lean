import Mathlib.Data.List.Basic

set_option autoImplicit false

namespace SplitFleet.Lib

variable {κ α β : Type} (le : κ → κ → Bool)

/-- `[x for _, x in sorted(zip(keys, xs), key=lambda pair: pair[0])]`: the sort is stable and
compares the keys only. -/
def sortByKey (keys : List κ) (xs : List α) : List α :=
  ((keys.zip xs).mergeSort fun p q ↦ le p.1 q.1).map Prod.snd

/-- Lists sorted by the same keys stay aligned: the order depends on the keys alone. -/
theorem sortByKey_map (f : α → β) (keys : List κ) (xs : List α) :
    sortByKey le keys (xs.map f) = (sortByKey le keys xs).map f := by
  have hmap : ((keys.zip xs).mergeSort fun p q ↦ le p.1 q.1).map (Prod.map id f) =
      ((keys.zip xs).map (Prod.map id f)).mergeSort fun p q ↦ le p.1 q.1 :=
    List.map_mergeSort fun a _ b _ ↦ rfl
  have hzip : keys.zip (xs.map f) = (keys.zip xs).map (Prod.map id f) := List.zip_map_right ..
  rw [sortByKey, hzip, ← hmap, List.map_map, sortByKey, List.map_map]
  rfl

theorem sortByKey_perm {keys : List κ} {xs : List α} (h : xs.length ≤ keys.length) :
    (sortByKey le keys xs).Perm xs := by
  have hp := ((keys.zip xs).mergeSort_perm fun p q ↦ le p.1 q.1).map Prod.snd
  rw [List.map_snd_zip h] at hp
  exact hp

end SplitFleet.Lib
