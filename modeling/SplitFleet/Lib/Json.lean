import Mathlib.Data.String.Basic
import Mathlib.Logic.Equiv.List
import SplitFleet.Lib.Python

set_option autoImplicit false

namespace SplitFleet.Lib

/-- A value of the `json` module: a float by its 64 bits, an object as the list of its entries. -/
inductive Json
  | null
  | bool (b : Bool)
  | int (z : ℤ)
  | float (bits : BitVec 64)
  | str (s : String)
  | arr (items : List Json)
  | obj (fields : List (String × Json))

namespace Json

instance : Inhabited Json := ⟨null⟩

/-- Induction with the hypothesis for every item and for every entry. -/
@[elab_as_elim] theorem induction {P : Json → Prop} (null : P .null) (bool : ∀ b, P (.bool b))
    (int : ∀ z, P (.int z)) (float : ∀ bits, P (.float bits)) (str : ∀ s, P (.str s))
    (arr : ∀ items, (∀ j ∈ items, P j) → P (.arr items))
    (obj : ∀ fields, (∀ p ∈ fields, P p.2) → P (.obj fields)) (j : Json) : P j :=
  @Json.rec P (fun items ↦ ∀ j ∈ items, P j) (fun fields ↦ ∀ p ∈ fields, P p.2) (fun p ↦ P p.2)
    null bool int float str arr obj
    (fun _ h ↦ absurd h List.not_mem_nil)
    (fun _ _ ha hl j h ↦ (List.mem_cons.mp h).elim (fun e ↦ e ▸ ha) (hl j))
    (fun _ h ↦ absurd h List.not_mem_nil)
    (fun _ _ ha hl p h ↦ (List.mem_cons.mp h).elim (fun e ↦ e ▸ ha) (hl p))
    (fun _ _ h ↦ h) j

mutual

/-- The value with the keys of every object in order, as `sort_keys=True` writes it. -/
def sorted : Json → Json
  | .arr items => .arr (sortedItems items)
  | .obj fields => .obj ((sortedFields fields).mergeSort (fun a b ↦ a.1 ≤ b.1))
  | j => j

def sortedItems : List Json → List Json
  | [] => []
  | j :: items => sorted j :: sortedItems items

def sortedFields : List (String × Json) → List (String × Json)
  | [] => []
  | (k, j) :: fields => (k, sorted j) :: sortedFields fields

end

theorem sortedItems_eq (items : List Json) : sortedItems items = items.map sorted := by
  induction items with
  | nil => rfl
  | cons j items ih => rw [sortedItems, ih, List.map_cons]

theorem sortedFields_eq (fields : List (String × Json)) :
    sortedFields fields = fields.map (fun p ↦ (p.1, p.2.sorted)) := by
  induction fields with
  | nil => rfl
  | cons p fields ih =>
    obtain ⟨k, j⟩ := p
    rw [sortedFields, ih, List.map_cons]

/-- Sorting by key. -/
def sortKeys (fields : List (String × Json)) : List (String × Json) :=
  fields.mergeSort (fun a b ↦ a.1 ≤ b.1)

theorem sorted_arr (items : List Json) : (arr items).sorted = arr (items.map sorted) := by
  rw [sorted, sortedItems_eq]

theorem sorted_obj (fields : List (String × Json)) :
    (obj fields).sorted = obj (sortKeys (fields.map (fun p ↦ (p.1, p.2.sorted)))) := by
  rw [sorted, sortedFields_eq, sortKeys]

theorem sortKeys_perm (fields : List (String × Json)) : (sortKeys fields).Perm fields :=
  List.mergeSort_perm ..

theorem sortKeys_sortKeys (fields : List (String × Json)) : sortKeys (sortKeys fields) = sortKeys fields := by
  apply List.mergeSort_of_pairwise
  apply List.pairwise_mergeSort
  · intro a b c hab hbc
    simp only [decide_eq_true_eq] at hab hbc ⊢
    exact le_trans hab hbc
  · intro a b
    simp only [Bool.or_eq_true, decide_eq_true_eq]
    exact le_total a.1 b.1

theorem sorted_sorted (j : Json) : j.sorted.sorted = j.sorted := by
  induction j using induction with
  | null | bool | int | float | str => rfl
  | arr items ih =>
    rw [sorted_arr, sorted_arr, List.map_map]
    exact congrArg arr (List.map_congr_left ih)
  | obj fields ih =>
    rw [sorted_obj, sorted_obj]
    -- After one pass every value is sorted, so the second pass keeps the entries.
    have hvalues : (sortKeys (fields.map fun p ↦ (p.1, p.2.sorted))).map (fun p ↦ (p.1, p.2.sorted)) =
        sortKeys (fields.map fun p ↦ (p.1, p.2.sorted)) := by
      refine (List.map_congr_left ?_).trans (List.map_id _)
      intro p hp
      obtain ⟨q, hq, rfl⟩ := List.mem_map.mp ((sortKeys_perm _).mem_iff.mp hp)
      exact Prod.ext rfl (ih q hq)
    rw [hvalues, sortKeys_sortKeys]

/-- Equal as Python values: the order of keys does not count. -/
def Same (a b : Json) : Prop := a.sorted = b.sorted

theorem same_sorted (j : Json) : Same j.sorted j := sorted_sorted j

/-! ### Entries of an object -/

theorem keys_map_sorted (fields : List (String × Json)) :
    (fields.map fun p ↦ (p.1, p.2.sorted)).map Prod.fst = fields.map Prod.fst := by
  rw [List.map_map]
  rfl

theorem lookup_of_perm {l l' : List (String × Json)} (h : l.Perm l') (hn : (l.map Prod.fst).Nodup) (k : String) :
    Dict.lookup l k = Dict.lookup l' k := by
  have hn' : (l'.map Prod.fst).Nodup := (h.map Prod.fst).nodup_iff.mp hn
  apply Option.ext
  intro v
  rw [Dict.lookup_eq_some_iff hn, Dict.lookup_eq_some_iff hn', h.mem_iff]

theorem lookup_map (fields : List (String × Json)) (k : String) :
    Dict.lookup (fields.map fun p ↦ (p.1, p.2.sorted)) k = (Dict.lookup fields k).map sorted := by
  induction fields with
  | nil => rfl
  | cons p fields ih =>
    obtain ⟨a, j⟩ := p
    by_cases ha : a = k
    · simp [Dict.lookup, ha]
    · simpa [Dict.lookup, ha] using ih

/-- The entries of a sorted object. -/
theorem lookup_sorted {fields : List (String × Json)} (hn : (fields.map Prod.fst).Nodup) (k : String) :
    Dict.lookup (sortKeys (fields.map fun p ↦ (p.1, p.2.sorted))) k = (Dict.lookup fields k).map sorted := by
  rw [lookup_of_perm (sortKeys_perm _), lookup_map]
  rwa [((sortKeys_perm _).map Prod.fst).nodup_iff, keys_map_sorted]

/-! ### Normal values -/

/-- The exponent of a float that is neither an infinity nor a NaN. -/
def finiteBits (bits : BitVec 64) : Bool := bits.extractLsb' 52 11 ≠ 0x7ff#11

/-- A value that `json` writes and reads back: finite numbers, and every key once. -/
inductive Normal : Json → Prop
  | null : Normal .null
  | bool (b : Bool) : Normal (.bool b)
  | int (z : ℤ) : Normal (.int z)
  | float (bits : BitVec 64) (h : finiteBits bits = true) : Normal (.float bits)
  | str (s : String) : Normal (.str s)
  | arr (items : List Json) (h : ∀ j ∈ items, Normal j) : Normal (.arr items)
  | obj (fields : List (String × Json)) (hn : (fields.map Prod.fst).Nodup)
      (h : ∀ p ∈ fields, Normal p.2) : Normal (.obj fields)

/-! ### Texts for all values

A value is what a list of instructions leaves on a stack, so the values are countable. -/

/-- Push a constant, an integer, a float or a text, or make a list or an object of the last values. -/
abbrev Instr := Option Bool ⊕ ℤ ⊕ ℕ ⊕ List ℕ ⊕ ℕ ⊕ List (List ℕ)

def ofCodes (l : List ℕ) : String := String.ofList (l.map Char.ofNat)

def toCodes (s : String) : List ℕ := s.toList.map Char.toNat

theorem ofCodes_toCodes (s : String) : ofCodes (toCodes s) = s := by
  simp [ofCodes, toCodes, Function.comp_def]

def push (stack : List Json) : Instr → List Json
  | .inl none => .null :: stack
  | .inl (some b) => .bool b :: stack
  | .inr (.inl z) => .int z :: stack
  | .inr (.inr (.inl n)) => .float (BitVec.ofNat 64 n) :: stack
  | .inr (.inr (.inr (.inl l))) => .str (ofCodes l) :: stack
  | .inr (.inr (.inr (.inr (.inl n)))) => .arr (stack.take n).reverse :: stack.drop n
  | .inr (.inr (.inr (.inr (.inr keys)))) =>
    .obj ((keys.map ofCodes).zip (stack.take keys.length).reverse) :: stack.drop keys.length

theorem exists_pushes {items : List Json} (h : ∀ j ∈ items, ∃ prog : List Instr, ∀ stack, prog.foldl push stack = j :: stack) :
    ∃ prog : List Instr, ∀ stack, prog.foldl push stack = items.reverse ++ stack := by
  induction items with
  | nil => exact ⟨[], fun _ ↦ rfl⟩
  | cons j items ih =>
    obtain ⟨first, hfirst⟩ := h j List.mem_cons_self
    obtain ⟨others, hothers⟩ := ih fun k hk ↦ h k (List.mem_cons_of_mem j hk)
    refine ⟨first ++ others, fun stack ↦ ?_⟩
    rw [List.foldl_append, hfirst, hothers]
    simp

theorem exists_program (j : Json) : ∃ prog : List Instr, ∀ stack, prog.foldl push stack = j :: stack := by
  induction j using induction with
  | null => exact ⟨[.inl none], fun _ ↦ rfl⟩
  | bool b => exact ⟨[.inl (some b)], fun _ ↦ rfl⟩
  | int z => exact ⟨[.inr (.inl z)], fun _ ↦ rfl⟩
  | float bits =>
    refine ⟨[.inr (.inr (.inl bits.toNat))], fun stack ↦ ?_⟩
    simp [push]
  | str s =>
    refine ⟨[.inr (.inr (.inr (.inl (toCodes s))))], fun stack ↦ ?_⟩
    simp [push, ofCodes_toCodes]
  | arr items ih =>
    obtain ⟨prog, hprog⟩ := exists_pushes ih
    refine ⟨prog ++ [.inr (.inr (.inr (.inr (.inl items.length))))], fun stack ↦ ?_⟩
    have hlen : items.reverse.length = items.length := List.length_reverse
    rw [List.foldl_append, hprog, List.foldl_cons, List.foldl_nil, push, List.take_left' hlen,
      List.drop_left' hlen, List.reverse_reverse]
  | obj fields ih =>
    have hvalues : ∀ j ∈ fields.map Prod.snd, ∃ prog : List Instr, ∀ stack, prog.foldl push stack = j :: stack := by
      intro j hj
      obtain ⟨p, hp, rfl⟩ := List.mem_map.mp hj
      exact ih p hp
    obtain ⟨prog, hprog⟩ := exists_pushes hvalues
    refine ⟨prog ++ [.inr (.inr (.inr (.inr (.inr (fields.map fun p ↦ toCodes p.1)))))], fun stack ↦ ?_⟩
    have hlen : (fields.map Prod.snd).reverse.length = (fields.map fun p ↦ toCodes p.1).length := by simp
    have hkeys : (fields.map fun p ↦ toCodes p.1).map ofCodes = fields.map Prod.fst := by
      rw [List.map_map]
      exact List.map_congr_left fun p _ ↦ ofCodes_toCodes p.1
    have hzip : (fields.map Prod.fst).zip (fields.map Prod.snd) = fields := (List.zip_of_prod rfl rfl).symm
    rw [List.foldl_append, hprog, List.foldl_cons, List.foldl_nil, push, List.take_left' hlen,
      List.drop_left' hlen, List.reverse_reverse, hkeys, hzip]

instance : Countable Json := by
  apply @Function.Surjective.countable (List Instr) _ _ fun prog ↦ (prog.foldl push []).headD .null
  intro j
  obtain ⟨prog, hprog⟩ := exists_program j
  exact ⟨prog, by simp [hprog]⟩

/-- There are texts for all values, from which the values are read back with sorted keys, where some
values have given texts. -/
theorem exists_texts (given : Json → Option String) (n : ℕ) (hn : ∀ j s, given j = some s → s.length ≤ n)
    (hgiven : ∀ j k s, given j = some s → given k = some s → j = k) :
    ∃ (dumps : Json → String) (loads : String → Except PyError Json),
      (∀ j s, given j = some s → dumps j = s) ∧ ∀ j, loads (dumps j) = .ok j.sorted := by
  classical
  obtain ⟨number, hnumber⟩ := exists_injective_nat Json
  -- The other texts are longer than the given ones, each by the number of its value.
  let long : Json → String := fun j ↦ String.ofList (List.replicate (n + 1 + number j) 'x')
  let dumps : Json → String := fun j ↦ (given j).getD (long j)
  have hlength : ∀ j, (long j).length = n + 1 + number j := by
    intro j
    simp [long]
  have hsome : ∀ j s, given j = some s → dumps j = s := by
    intro j s h
    simp [dumps, h]
  have hnone : ∀ j, given j = none → dumps j = long j := by
    intro j h
    simp [dumps, h]
  have hinj : Function.Injective dumps := by
    intro j k hjk
    cases hj : given j with
    | some s =>
      have hs := hn j s hj
      rw [hsome j s hj] at hjk
      cases hk : given k with
      | some t =>
        rw [hsome k t hk] at hjk
        exact hgiven j k t (hjk ▸ hj) hk
      | none =>
        rw [hnone k hk] at hjk
        rw [hjk, hlength] at hs
        omega
    | none =>
      rw [hnone j hj] at hjk
      cases hk : given k with
      | some t =>
        have ht := hn k t hk
        rw [← hsome k t hk, ← hjk, hlength] at ht
        omega
      | none =>
        have := congrArg String.length (hjk.trans (hnone k hk))
        rw [hlength, hlength] at this
        apply hnumber
        omega
  refine ⟨dumps, fun s ↦ if h : ∃ j, dumps j = s then .ok h.choose.sorted else .error (.valueError ""), hsome, ?_⟩
  intro j
  have hex : ∃ k, dumps k = dumps j := ⟨j, rfl⟩
  dsimp only
  rw [dif_pos hex, hinj hex.choose_spec]

end Json

end SplitFleet.Lib
