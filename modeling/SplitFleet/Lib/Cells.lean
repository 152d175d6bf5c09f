import Mathlib.Data.List.Nodup
import Mathlib.Data.List.Zip
import Mathlib.Logic.Function.Basic

set_option autoImplicit false

namespace SplitFleet.Lib

variable {C V L : Type} [DecidableEq C]

/-- Some assignments to cells, one after the other. -/
def writes (h : C → V) (l : List (C × V)) : C → V := l.foldl (fun h p ↦ Function.update h p.1 p.2) h

theorem writes_cons (h : C → V) (p : C × V) (l : List (C × V)) :
    writes h (p :: l) = writes (Function.update h p.1 p.2) l := rfl

/-- The cells that are not assigned to keep what they hold. -/
theorem writes_of_notMem {h : C → V} {l : List (C × V)} {c : C} (hc : ∀ v, (c, v) ∉ l) : writes h l c = h c := by
  induction l generalizing h with
  | nil => rfl
  | cons p l ih =>
    have hne : c ≠ p.1 := by
      rintro rfl
      exact hc p.2 List.mem_cons_self
    rw [writes_cons, ih fun v hv ↦ hc v (List.mem_cons_of_mem _ hv), Function.update_of_ne hne]

/-- The last assignment to a cell is the one that stays. -/
theorem writes_last {h : C → V} {l : List (C × V)} {i : ℕ} {c : C} {v : V} (hi : l[i]? = some (c, v))
    (hlast : ∀ j w, i < j → l[j]? ≠ some (c, w)) : writes h l c = v := by
  induction l generalizing h i with
  | nil => cases hi
  | cons p l ih =>
    rw [writes_cons]
    cases i with
    | zero =>
      obtain rfl := Option.some.inj hi
      rw [writes_of_notMem, Function.update_self]
      intro w hw
      obtain ⟨j, hj⟩ := List.getElem?_of_mem hw
      exact hlast (j + 1) w (Nat.succ_pos j) hj
    | succ i => exact ih hi fun j w hij ↦ hlast (j + 1) w (Nat.succ_lt_succ hij)

/-- Assigning to cells what they hold changes nothing. -/
theorem writes_self {h : C → V} {l : List (C × V)} (hl : ∀ p ∈ l, p.2 = h p.1) : writes h l = h := by
  induction l with
  | nil => rfl
  | cons p l ih =>
    obtain ⟨hp, hl⟩ := List.forall_mem_cons.mp hl
    rw [writes_cons, hp, Function.update_eq_self, ih hl]

/-- Where each assignment keeps the layout of its cell, so do all of them together. -/
theorem layout_writes {layout : V → L} {h : C → V} {l : List (C × V)}
    (hl : ∀ p ∈ l, layout p.2 = layout (h p.1)) (c : C) : layout (writes h l c) = layout (h c) := by
  induction l generalizing h with
  | nil => rfl
  | cons p l ih =>
    obtain ⟨hp, hl⟩ := List.forall_mem_cons.mp hl
    have hkeep : ∀ c, layout (Function.update h p.1 p.2 c) = layout (h c) := by
      intro c
      by_cases hc : c = p.1
      · rw [hc, Function.update_self, hp]
      · rw [Function.update_of_ne hc]
    rw [writes_cons, ih (fun q hq ↦ (hl q hq).trans (hkeep q.1).symm), hkeep]

/-- What the cells hold after one value was assigned to each, the last one where a cell comes twice. -/
structure Installed (cells : List C) (values : List V) (h h' : C → V) : Prop where
  length : values.length = cells.length
  last : ∀ (i : ℕ) c v, cells[i]? = some c → values[i]? = some v → (∀ j, i < j → cells[j]? ≠ some c) → h' c = v
  other : ∀ c ∉ cells, h' c = h c

theorem installed_writes {cells : List C} {values : List V} (hlength : values.length = cells.length) (h : C → V) :
    Installed cells values h (writes h (cells.zip values)) where
  length := hlength
  last := by
    intro i c v hc hv hlast
    refine writes_last (List.getElem?_zip_eq_some.mpr ⟨hc, hv⟩) fun j w hij hj ↦ ?_
    exact hlast j hij (List.getElem?_zip_eq_some.mp hj).1
  other := by
    intro c hc
    exact writes_of_notMem fun v hv ↦ hc (List.of_mem_zip hv).1

omit [DecidableEq C] in
/-- Where no cell comes twice, each holds its value. -/
theorem Installed.map_eq {cells : List C} {values : List V} {h h' : C → V} (hi : Installed cells values h h')
    (hnodup : cells.Nodup) : cells.map h' = values := by
  refine List.ext_getElem ?_ fun i hi' hv ↦ ?_
  · rw [List.length_map, hi.length]
  · rw [List.length_map] at hi'
    rw [List.getElem_map]
    refine hi.last i _ _ (List.getElem?_eq_getElem hi') (List.getElem?_eq_getElem hv) fun j hij hj ↦ ?_
    obtain ⟨hj', heq⟩ := List.getElem?_eq_some_iff.mp hj
    exact absurd ((List.Nodup.getElem_inj_iff hnodup).mp heq) (Nat.ne_of_gt hij)

end SplitFleet.Lib
