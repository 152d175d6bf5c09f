import Mathlib.Data.List.Forall2
import Mathlib.Data.List.Nodup
import Mathlib.Data.Finset.Card
import Mathlib.Tactic.Common

set_option autoImplicit false

namespace SplitFleet.Lib

/-- An exception with the text it carries. -/
inductive PyError
  | runtimeError (message : String)
  | valueError (message : String)
  | keyError (key : String)
  | typeError (message : String)
  /-- Any other class, by its name. -/
  | raised (kind message : String)
  deriving DecidableEq

/-- A sequence of calls that does not raise is made of calls that do not raise. -/
theorem bind_eq_ok {ε α β : Type} {x : Except ε α} {f : α → Except ε β} {b : β}
    (h : (x >>= f) = .ok b) : ∃ a, x = .ok a ∧ f a = .ok b := by
  cases x with
  | error e => cases h
  | ok a => exact ⟨a, rfl, h⟩

/-- `if not c: raise e`. -/
def require (c : Prop) [Decidable c] (e : PyError) : Except PyError Unit := if c then .ok () else .error e

theorem require_of {c : Prop} [Decidable c] (h : c) (e : PyError) : require c e = .ok () := if_pos h

theorem of_require {c : Prop} [Decidable c] {e : PyError} {u : Unit} (h : require c e = .ok u) : c := by
  by_contra hc
  rw [require, if_neg hc] at h
  cases h

theorem exists_error_iff {ε α : Type} {x : Except ε α} : (∃ e, x = .error e) ↔ ¬ ∃ a, x = .ok a := by
  cases x <;> simp

theorem exists_map_ok {ε α β : Type} {x : Except ε α} {f : α → β} : (∃ b, x.map f = .ok b) ↔ ∃ a, x = .ok a := by
  constructor
  · rintro ⟨b, h⟩
    cases x with
    | error e => cases h
    | ok a => exact ⟨a, rfl⟩
  · rintro ⟨a, rfl⟩
    exact ⟨f a, rfl⟩

@[simp] theorem ok_bind {ε α β : Type} (a : α) (f : α → Except ε β) : (Except.ok a >>= f) = f a := rfl

section Loops

variable {ε α σ : Type} {f : σ → α → Except ε σ} (P : List α → σ → Prop)

/-- A loop that returns: what holds at its start and survives a turn holds at its end. `P` speaks of
the items that were done. -/
theorem foldlM_invariant (hf : ∀ done s a s', P done s → f s a = .ok s' → P (done ++ [a]) s')
    {l done : List α} {s s' : σ} (hs : P done s) (h : l.foldlM f s = .ok s') : P (done ++ l) s' := by
  induction l generalizing done s with
  | nil =>
    cases h
    rwa [List.append_nil]
  | cons a l ih =>
    rw [List.foldlM_cons] at h
    obtain ⟨t, ht, h⟩ := bind_eq_ok h
    have := ih (hf done s a t hs ht) h
    rwa [List.append_assoc] at this

/-- A loop returns the same where every turn that returns here returns the same there. -/
theorem foldlM_same {g : σ → α → Except ε σ} (hg : ∀ s a s', f s a = .ok s' → g s a = .ok s')
    {l : List α} {s s' : σ} (h : l.foldlM f s = .ok s') : l.foldlM g s = .ok s' := by
  induction l generalizing s with
  | nil => exact h
  | cons a l ih =>
    rw [List.foldlM_cons] at h ⊢
    obtain ⟨t, ht, h⟩ := bind_eq_ok h
    rw [hg s a t ht]
    exact ih h

end Loops

theorem mapM_eq_ok_iff {ε α β : Type} {f : α → Except ε β} {l : List α} {r : List β} :
    l.mapM f = .ok r ↔ List.Forall₂ (fun a b ↦ f a = .ok b) l r := by
  induction l generalizing r with
  | nil =>
    rw [List.forall₂_nil_left_iff]
    exact ⟨fun h ↦ (Except.ok.inj h).symm, fun h ↦ h ▸ rfl⟩
  | cons a l ih =>
    rw [List.mapM_cons, List.forall₂_cons_left_iff]
    constructor
    · intro h
      obtain ⟨b, hb, h⟩ := bind_eq_ok h
      obtain ⟨bs, hbs, h⟩ := bind_eq_ok h
      cases h
      exact ⟨b, bs, hb, ih.mp hbs, rfl⟩
    · rintro ⟨b, bs, hb, hbs, rfl⟩
      rw [hb, ok_bind, ih.mpr hbs]
      rfl

/-- A comprehension returns where every item of it returns. -/
theorem exists_mapM_ok_iff {ε α β : Type} {f : α → Except ε β} {l : List α} :
    (∃ r, l.mapM f = .ok r) ↔ ∀ a ∈ l, ∃ b, f a = .ok b := by
  induction l with
  | nil => exact ⟨fun _ a ha ↦ (List.not_mem_nil ha).elim, fun _ ↦ ⟨[], rfl⟩⟩
  | cons a l ih =>
    rw [List.forall_mem_cons, ← ih]
    simp only [mapM_eq_ok_iff, List.forall₂_cons_left_iff]
    constructor
    · rintro ⟨_, b, bs, hb, hbs, rfl⟩
      exact ⟨⟨b, hb⟩, bs, hbs⟩
    · rintro ⟨⟨b, hb⟩, bs, hbs⟩
      exact ⟨b :: bs, b, bs, hb, hbs, rfl⟩

/-- `repr` of a text without quotes or control characters. -/
def pyRepr (s : String) : String := "'" ++ s ++ "'"

/-- `s.removesuffix(suffix)` where `s.endswith(suffix)`. -/
def removeSuffix? (s suffix : String) : Option String :=
  if suffix.toList <:+ s.toList then
    some (String.ofList (s.toList.take (s.toList.length - suffix.toList.length)))
  else none

def pyReprList (l : List String) : String := "[" ++ ", ".intercalate (l.map pyRepr) ++ "]"

/-- An insertion-ordered dictionary. Assigning to a key that is present keeps its place, as
in a Python `dict`. -/
structure Dict (κ υ : Type) where
  entries : List (κ × υ)
  nodup : (entries.map Prod.fst).Nodup

namespace Dict

variable {κ υ ω : Type} [DecidableEq κ]

instance : Inhabited (Dict κ υ) := ⟨⟨[], List.nodup_nil⟩⟩

def empty : Dict κ υ := ⟨[], List.nodup_nil⟩

def lookup : List (κ × υ) → κ → Option υ
  | [], _ => none
  | (a, b) :: l, k => if a = k then some b else lookup l k

def assign : List (κ × υ) → κ → υ → List (κ × υ)
  | [], k, v => [(k, v)]
  | (a, b) :: l, k, v => if a = k then (a, v) :: l else (a, b) :: assign l k v

def get? (d : Dict κ υ) (k : κ) : Option υ := lookup d.entries k

def keys (d : Dict κ υ) : List κ := d.entries.map Prod.fst

def values (d : Dict κ υ) : List υ := d.entries.map Prod.snd

def size (d : Dict κ υ) : ℕ := d.entries.length

theorem mem_assign_keys {l : List (κ × υ)} {k a : κ} {v : υ} :
    a ∈ (assign l k v).map Prod.fst ↔ a = k ∨ a ∈ l.map Prod.fst := by
  induction l with
  | nil => simp [assign]
  | cons p l ih =>
    obtain ⟨b, w⟩ := p
    by_cases hb : b = k
    · subst hb
      simp [assign]
    · simp only [assign, hb, if_false, List.map_cons, List.mem_cons, ih]
      tauto

theorem assign_nodup {l : List (κ × υ)} (h : (l.map Prod.fst).Nodup) (k : κ) (v : υ) :
    ((assign l k v).map Prod.fst).Nodup := by
  induction l with
  | nil => simp [assign]
  | cons p l ih =>
    obtain ⟨b, w⟩ := p
    rw [List.map_cons, List.nodup_cons] at h
    by_cases hb : b = k
    · subst hb
      simpa [assign] using h
    · simp only [assign, hb, if_false, List.map_cons, List.nodup_cons]
      exact ⟨fun hm ↦ (mem_assign_keys.mp hm).elim hb h.1, ih h.2⟩

def insert (d : Dict κ υ) (k : κ) (v : υ) : Dict κ υ :=
  ⟨assign d.entries k v, assign_nodup d.nodup k v⟩

def erase (d : Dict κ υ) (k : κ) : Dict κ υ :=
  ⟨d.entries.filter (fun p ↦ p.1 ≠ k), (List.filter_sublist.map Prod.fst).nodup d.nodup⟩

/-- `{k: v for k, v in d.items() if keep(k)}`. -/
def filterKeys (keep : κ → Bool) (d : Dict κ υ) : Dict κ υ :=
  ⟨d.entries.filter (keep ·.1), (List.filter_sublist.map Prod.fst).nodup d.nodup⟩

/-- The dictionary a comprehension builds: a later pair overwrites an earlier one. -/
def ofList (l : List (κ × υ)) : Dict κ υ := l.foldl (fun d p ↦ d.insert p.1 p.2) empty

theorem lookup_assign (l : List (κ × υ)) (k a : κ) (v : υ) :
    lookup (assign l k v) a = if k = a then some v else lookup l a := by
  induction l with
  | nil => rfl
  | cons p l ih =>
    obtain ⟨b, w⟩ := p
    by_cases hb : b = k
    · subst hb
      by_cases ha : b = a <;> simp [assign, lookup, ha]
    · by_cases ha : b = a
      · subst ha
        simp [assign, lookup, hb, Ne.symm hb]
      · simp [assign, lookup, hb, ha, ih]

theorem lookup_filter (l : List (κ × υ)) (k a : κ) :
    lookup (l.filter (fun p ↦ p.1 ≠ k)) a = if k = a then none else lookup l a := by
  induction l with
  | nil => simp [lookup]
  | cons p l ih =>
    obtain ⟨b, w⟩ := p
    by_cases hb : b = k
    · subst hb
      by_cases ha : b = a
      · simpa [lookup, ha] using ih
      · simpa [lookup, ha] using ih
    · by_cases ha : b = a
      · subst ha
        simp [lookup, hb, Ne.symm hb]
      · simpa [lookup, hb, ha] using ih

theorem lookup_eq_some_iff {l : List (κ × υ)} (h : (l.map Prod.fst).Nodup) {k : κ} {v : υ} :
    lookup l k = some v ↔ (k, v) ∈ l := by
  induction l with
  | nil => simp [lookup]
  | cons p l ih =>
    obtain ⟨b, w⟩ := p
    rw [List.map_cons, List.nodup_cons] at h
    by_cases hb : b = k
    · subst hb
      have hn : (b, v) ∉ l := fun hm ↦ h.1 (List.mem_map.mpr ⟨_, hm, rfl⟩)
      simp [lookup, hn, eq_comm]
    · simp [lookup, hb, Ne.symm hb, ih h.2]

theorem lookup_eq_none_iff {l : List (κ × υ)} {k : κ} :
    lookup l k = none ↔ k ∉ l.map Prod.fst := by
  induction l with
  | nil => simp [lookup]
  | cons p l ih =>
    obtain ⟨b, w⟩ := p
    by_cases hb : b = k
    · simp [lookup, hb]
    · simp only [lookup, hb, if_false, ih, List.map_cons, List.mem_cons, not_or]
      exact ⟨fun hm ↦ ⟨Ne.symm hb, hm⟩, And.right⟩

@[simp] theorem get?_empty (k : κ) : (empty : Dict κ υ).get? k = none := rfl

@[simp] theorem get?_insert (d : Dict κ υ) (k a : κ) (v : υ) :
    (d.insert k v).get? a = if k = a then some v else d.get? a :=
  lookup_assign d.entries k a v

@[simp] theorem get?_erase (d : Dict κ υ) (k a : κ) :
    (d.erase k).get? a = if k = a then none else d.get? a :=
  lookup_filter d.entries k a

theorem get?_eq_some_iff (d : Dict κ υ) {k : κ} {v : υ} :
    d.get? k = some v ↔ (k, v) ∈ d.entries :=
  lookup_eq_some_iff d.nodup

theorem get?_filterKeys (keep : κ → Bool) (d : Dict κ υ) (k : κ) :
    (d.filterKeys keep).get? k = if keep k then d.get? k else none := by
  apply Option.ext
  intro v
  rw [get?_eq_some_iff, filterKeys, List.mem_filter, ← get?_eq_some_iff]
  by_cases hk : keep k <;> simp [hk]

theorem get?_eq_none_iff (d : Dict κ υ) {k : κ} : d.get? k = none ↔ k ∉ d.keys :=
  lookup_eq_none_iff

theorem entries_eq_nil_iff (d : Dict κ υ) : d.entries = [] ↔ ∀ k, d.get? k = none := by
  constructor
  · intro h k
    rw [get?, h]
    rfl
  · intro h
    refine List.eq_nil_iff_forall_not_mem.mpr fun p hp ↦ ?_
    exact (get?_eq_none_iff d).mp (h p.1) (List.mem_map_of_mem hp)

theorem mem_keys_iff (d : Dict κ υ) {k : κ} : k ∈ d.keys ↔ ∃ v, d.get? k = some v := by
  rw [← not_iff_not, ← get?_eq_none_iff, not_exists, Option.eq_none_iff_forall_ne_some]

theorem mem_keys_insert (d : Dict κ υ) {k a : κ} {v : υ} :
    a ∈ (d.insert k v).keys ↔ a = k ∨ a ∈ d.keys :=
  mem_assign_keys

theorem mem_keys_erase (d : Dict κ υ) {k a : κ} : a ∈ (d.erase k).keys ↔ a ≠ k ∧ a ∈ d.keys := by
  simp only [mem_keys_iff, get?_erase]
  by_cases ha : k = a
  · simp [ha]
  · simp [ha, Ne.symm ha]

theorem mem_values_iff (d : Dict κ υ) {v : υ} : v ∈ d.values ↔ ∃ k, d.get? k = some v := by
  simp [values, get?_eq_some_iff]

theorem assign_length {l : List (κ × υ)} {k : κ} (h : lookup l k = none) (v : υ) :
    (assign l k v).length = l.length + 1 := by
  induction l with
  | nil => rfl
  | cons p l ih =>
    obtain ⟨b, w⟩ := p
    by_cases hb : b = k
    · simp [lookup, hb] at h
    · simp only [lookup, hb, if_false] at h
      simp [assign, hb, ih h]

theorem size_insert (d : Dict κ υ) {k : κ} (h : d.get? k = none) (v : υ) :
    (d.insert k v).size = d.size + 1 :=
  assign_length h v

theorem size_eq_card_keys (d : Dict κ υ) : d.size = d.keys.toFinset.card := by
  rw [keys, List.toFinset_card_of_nodup d.nodup, List.length_map, size]

theorem size_erase (d : Dict κ υ) {k : κ} {v : υ} (h : d.get? k = some v) :
    (d.erase k).size + 1 = d.size := by
  have hk : k ∈ d.keys.toFinset := List.mem_toFinset.mpr (d.mem_keys_iff.mpr ⟨v, h⟩)
  have he : (d.erase k).keys.toFinset = d.keys.toFinset.erase k := by
    ext a
    simp only [List.mem_toFinset, Finset.mem_erase, mem_keys_iff, get?_erase]
    by_cases ha : k = a
    · simp [ha]
    · simp [ha, Ne.symm ha]
  rw [size_eq_card_keys, size_eq_card_keys, he, Finset.card_erase_add_one hk]

theorem entries_perm_cons {d r : Dict κ υ} {k : κ} {v : υ} (hk : r.get? k = none)
    (h : ∀ a, d.get? a = if k = a then some v else r.get? a) : d.entries.Perm ((k, v) :: r.entries) := by
  have hnot : (k, v) ∉ r.entries := fun hm ↦ by
    rw [(r.get?_eq_some_iff).mpr hm] at hk
    cases hk
  refine (List.perm_ext_iff_of_nodup d.nodup.of_map (List.nodup_cons.mpr ⟨hnot, r.nodup.of_map⟩)).mpr fun p ↦ ?_
  obtain ⟨a, b⟩ := p
  rw [List.mem_cons, ← d.get?_eq_some_iff, ← r.get?_eq_some_iff, h]
  split_ifs with ha
  · subst ha
    simp [hk, eq_comm]
  · simp [Ne.symm ha]

theorem entries_perm_of_get? {d d' : Dict κ υ} (h : ∀ a, d.get? a = d'.get? a) : d.entries.Perm d'.entries := by
  refine (List.perm_ext_iff_of_nodup d.nodup.of_map d'.nodup.of_map).mpr fun p ↦ ?_
  rw [← d.get?_eq_some_iff, ← d'.get?_eq_some_iff, h]

theorem entries_perm_erase (d : Dict κ υ) {k : κ} {v : υ} (h : d.get? k = some v) :
    d.entries.Perm ((k, v) :: (d.erase k).entries) := by
  refine entries_perm_cons (by rw [get?_erase, if_pos rfl]) fun a ↦ ?_
  rw [get?_erase]
  split_ifs with ha
  · rw [← ha, h]
  · rfl

theorem entries_insert_perm (d : Dict κ υ) (k : κ) (v : υ) :
    (d.insert k v).entries.Perm ((k, v) :: (d.erase k).entries) := by
  refine entries_perm_cons (by rw [get?_erase, if_pos rfl]) fun a ↦ ?_
  rw [get?_insert, get?_erase]
  split_ifs <;> rfl

theorem entries_erase_of_none (d : Dict κ υ) {k : κ} (h : d.get? k = none) : (d.erase k).entries = d.entries := by
  refine List.filter_eq_self.mpr fun p hp ↦ decide_eq_true fun he ↦ ?_
  exact (d.get?_eq_none_iff.mp h) (he ▸ List.mem_map_of_mem hp)

theorem get?_foldl_insert (l : List (κ × υ)) (d : Dict κ υ) (hl : (l.map Prod.fst).Nodup) (k : κ) :
    (l.foldl (fun d p ↦ d.insert p.1 p.2) d).get? k = (lookup l k).or (d.get? k) := by
  induction l generalizing d with
  | nil => simp [lookup]
  | cons p l ih =>
    obtain ⟨a, v⟩ := p
    rw [List.map_cons, List.nodup_cons] at hl
    rw [List.foldl_cons, ih _ hl.2]
    by_cases ha : a = k
    · subst ha
      simp [lookup, lookup_eq_none_iff.mpr hl.1]
    · simp [lookup, ha]

theorem mem_of_get?_foldl_insert (l : List (κ × υ)) (d : Dict κ υ) {k : κ} {v : υ}
    (h : (l.foldl (fun d p ↦ d.insert p.1 p.2) d).get? k = some v) :
    (k, v) ∈ l ∨ d.get? k = some v := by
  induction l generalizing d with
  | nil => exact .inr h
  | cons p l ih =>
    rcases ih _ h with hm | hd
    · exact .inl (List.mem_cons_of_mem p hm)
    · rw [get?_insert] at hd
      split_ifs at hd with hk
      · cases hd
        exact .inl (hk ▸ List.mem_cons_self)
      · exact .inr hd

theorem mem_of_get?_ofList {l : List (κ × υ)} {k : κ} {v : υ} (h : (ofList l).get? k = some v) :
    (k, v) ∈ l := by
  rcases mem_of_get?_foldl_insert l empty h with hm | hd
  · exact hm
  · cases hd

theorem get?_ofList {l : List (κ × υ)} (hl : (l.map Prod.fst).Nodup) (k : κ) :
    (ofList l).get? k = lookup l k := by
  simp [ofList, get?_foldl_insert l empty hl]

theorem assign_of_not_mem {l : List (κ × υ)} {k : κ} (h : k ∉ l.map Prod.fst) (v : υ) :
    assign l k v = l ++ [(k, v)] := by
  induction l with
  | nil => rfl
  | cons p l ih =>
    obtain ⟨b, w⟩ := p
    simp only [List.map_cons, List.mem_cons, not_or] at h
    simp [assign, Ne.symm h.1, ih h.2]

theorem entries_foldl_insert (l : List (κ × υ)) (d : Dict κ υ)
    (h : ((d.entries ++ l).map Prod.fst).Nodup) :
    (l.foldl (fun d p ↦ d.insert p.1 p.2) d).entries = d.entries ++ l := by
  induction l generalizing d with
  | nil => simp
  | cons p l ih =>
    have hp : p.1 ∉ d.entries.map Prod.fst := by
      rw [List.map_append, List.nodup_append] at h
      exact fun hm ↦ h.2.2 _ hm _ (by simp) rfl
    have he : (d.insert p.1 p.2).entries = d.entries ++ [p] := assign_of_not_mem hp p.2
    rw [List.foldl_cons, ih _ (by rw [he]; simpa using h), he]
    simp

/-- Distinct keys: the comprehension keeps the pairs as they come. -/
theorem entries_ofList {l : List (κ × υ)} (h : (l.map Prod.fst).Nodup) : (ofList l).entries = l := by
  rw [ofList, entries_foldl_insert l empty (by simpa [empty] using h)]
  rfl

end Dict

end SplitFleet.Lib
