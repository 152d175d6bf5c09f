import Mathlib.Order.Fin.Basic
import SplitFleet.Lib.JsonDumps
import SplitFleet.Lib.Sorting

set_option autoImplicit false

namespace SplitFleet.Lib.JsonText

/-! ### Objects with their keys in order -/

section Sorting

/-- The entries by the code points of their keys. -/
@[irreducible] def sortKeys (fields : List (Text × Value)) : List (Text × Value) := sortedBy Prod.fst fields

mutual

/-- The value as `sort_keys=True` writes it. -/
def Value.sorted : Value → Value
  | .arr items => .arr (sortedItems items)
  | .obj fields => .obj (sortKeys (sortedFields fields))
  | v => v

def sortedItems : List Value → List Value
  | [] => []
  | v :: items => v.sorted :: sortedItems items

def sortedFields : List (Text × Value) → List (Text × Value)
  | [] => []
  | (k, v) :: fields => (k, v.sorted) :: sortedFields fields

end

theorem sortedItems_eq (items : List Value) : sortedItems items = items.map Value.sorted := by
  induction items with
  | nil => rfl
  | cons v items ih => simp [sortedItems, ih]

theorem sortedFields_eq (fields : List (Text × Value)) :
    sortedFields fields = fields.map fun p ↦ (p.1, p.2.sorted) := by
  induction fields with
  | nil => rfl
  | cons p fields ih => simp [sortedFields, ih]

@[simp] theorem keys_sortedFields (fields : List (Text × Value)) :
    (sortedFields fields).map Prod.fst = fields.map Prod.fst := by
  simp [sortedFields_eq, Function.comp_def]

theorem sortKeys_perm (fields : List (Text × Value)) : (sortKeys fields).Perm fields := by
  rw [sortKeys]
  exact sortedBy_perm Prod.fst fields

theorem nodup_sortKeys {fields : List (Text × Value)} :
    ((sortKeys fields).map Prod.fst).Nodup ↔ (fields.map Prod.fst).Nodup :=
  ((sortKeys_perm fields).map Prod.fst).nodup_iff

theorem sortKeys_sortKeys (fields : List (Text × Value)) : sortKeys (sortKeys fields) = sortKeys fields := by
  rw [sortKeys, sortKeys]
  exact sortedBy_sortedBy Prod.fst fields

/-- Where no key comes twice, the order of the entries does not matter. -/
theorem sortKeys_congr {l l' : List (Text × Value)} (h : l.Perm l') (hn : (l.map Prod.fst).Nodup) :
    sortKeys l = sortKeys l' := by
  rw [sortKeys, sortKeys]
  exact sortedBy_congr Prod.fst h fun _ ha _ hb hkey ↦ List.inj_on_of_nodup_map hn ha hb hkey

/-- Induction with the hypothesis for every item and for every entry. -/
@[elab_as_elim] theorem Value.induction {P : Value → Prop} (null : P .null) (bool : ∀ b, P (.bool b))
    (int : ∀ z, P (.int z)) (float : ∀ x, P (.float x)) (str : ∀ s, P (.str s))
    (arr : ∀ items, (∀ v ∈ items, P v) → P (.arr items))
    (obj : ∀ fields, (∀ p ∈ fields, P p.2) → P (.obj fields)) (v : Value) : P v :=
  @Value.rec P (fun items ↦ ∀ v ∈ items, P v) (fun fields ↦ ∀ p ∈ fields, P p.2) (fun p ↦ P p.2)
    null bool int float str arr obj
    (fun _ h ↦ absurd h List.not_mem_nil)
    (fun _ _ ha hl v h ↦ (List.mem_cons.mp h).elim (fun e ↦ e ▸ ha) (hl v))
    (fun _ h ↦ absurd h List.not_mem_nil)
    (fun _ _ ha hl p h ↦ (List.mem_cons.mp h).elim (fun e ↦ e ▸ ha) (hl p))
    (fun _ _ h ↦ h) v

theorem map_sorted_sortKeys {fields : List (Text × Value)} (h : ∀ p ∈ fields, p.2.sorted = p.2) :
    sortedFields (sortKeys fields) = sortKeys fields := by
  rw [sortedFields_eq]
  refine (List.map_congr_left ?_).trans (List.map_id _)
  intro p hp
  exact Prod.ext rfl (h p ((sortKeys_perm fields).mem_iff.mp hp))

theorem sorted_sorted (v : Value) : v.sorted.sorted = v.sorted := by
  induction v using Value.induction with
  | null | bool | int | float | str => rfl
  | arr items ih =>
    simp only [Value.sorted, sortedItems_eq, List.map_map]
    exact congrArg Value.arr (List.map_congr_left ih)
  | obj fields ih =>
    rw [Value.sorted, Value.sorted, map_sorted_sortKeys, sortKeys_sortKeys]
    intro p hp
    rw [sortedFields_eq] at hp
    obtain ⟨q, hq, rfl⟩ := List.mem_map.mp hp
    exact ih q hq

theorem lookup_sorted {fields : List (Text × Value)} (hn : (fields.map Prod.fst).Nodup) (k : Text) :
    Dict.lookup (sortKeys (sortedFields fields)) k = (Dict.lookup fields k).map Value.sorted := by
  have hsorted : ((sortKeys (sortedFields fields)).map Prod.fst).Nodup := by
    rwa [nodup_sortKeys, keys_sortedFields]
  ext v
  rw [Dict.lookup_eq_some_iff hsorted, (sortKeys_perm _).mem_iff, sortedFields_eq]
  simp [Dict.lookup_eq_some_iff hn]

/-- Equal as values of Python: the order of the keys does not count. -/
def Value.Same (v w : Value) : Prop := v.sorted = w.sorted

end Sorting

/-! ### Clean values -/

section Clean

theorem cleanItems_iff (items : List Value) : CleanItems items ↔ ∀ v ∈ items, v.Clean := by
  induction items with
  | nil => simp [CleanItems]
  | cons v items ih => simp [CleanItems, ih]

theorem cleanFields_iff (fields : List (Text × Value)) :
    CleanFields fields ↔ ∀ p ∈ fields, Whole p.1 ∧ p.2.Clean := by
  induction fields with
  | nil => simp [CleanFields]
  | cons p fields ih => simp [CleanFields, ih, and_assoc]

theorem clean_arr {items : List Value} : (Value.arr items).Clean ↔ ∀ v ∈ items, v.Clean := by
  rw [Value.Clean, cleanItems_iff]

theorem clean_obj {fields : List (Text × Value)} :
    (Value.obj fields).Clean ↔ (fields.map Prod.fst).Nodup ∧ ∀ p ∈ fields, Whole p.1 ∧ p.2.Clean := by
  rw [Value.Clean, cleanFields_iff]

mutual

def Value.decideClean : (v : Value) → Decidable v.Clean
  | .null => .isTrue trivial
  | .bool _ => .isTrue trivial
  | .int _ => .isTrue trivial
  | .float _ => .isTrue trivial
  | .str s => inferInstanceAs (Decidable (s.IsChain _))
  | .arr items => decideCleanItems items
  | .obj fields => @instDecidableAnd _ _ inferInstance (decideCleanFields fields)

def decideCleanItems : (items : List Value) → Decidable (CleanItems items)
  | [] => .isTrue trivial
  | v :: items => @instDecidableAnd _ _ v.decideClean (decideCleanItems items)

def decideCleanFields : (fields : List (Text × Value)) → Decidable (CleanFields fields)
  | [] => .isTrue trivial
  | (k, v) :: fields => @instDecidableAnd _ _ (inferInstanceAs (Decidable (k.IsChain _)))
      (@instDecidableAnd _ _ v.decideClean (decideCleanFields fields))

end

instance (v : Value) : Decidable v.Clean := v.decideClean

theorem clean_sorted {v : Value} : v.sorted.Clean ↔ v.Clean := by
  induction v using Value.induction with
  | null | bool | int | float | str => rfl
  | arr items ih =>
    rw [Value.sorted, sortedItems_eq, clean_arr, clean_arr, List.forall_mem_map]
    exact forall₂_congr ih
  | obj fields ih =>
    rw [Value.sorted, clean_obj, clean_obj, nodup_sortKeys, keys_sortedFields]
    apply and_congr_right
    intro _
    have hmem (p : Text × Value) : p ∈ sortKeys (sortedFields fields) ↔ p ∈ sortedFields fields :=
      (sortKeys_perm _).mem_iff
    simp only [hmem]
    rw [sortedFields_eq, List.forall_mem_map]
    exact forall₂_congr fun p hp ↦ and_congr_right fun _ ↦ ih p hp

/-- A clean value that was written with its keys in order comes back with its keys in order. -/
theorem loads_write_sorted {o : Options} {v : Value} {depth room : ℕ} {t : List Char} (hv : v.Clean)
    (h : write o v.sorted depth = .ok t) (hroom : depth ≤ room) : loads room t = .ok v.sorted := by
  rw [loads_write h hroom, (loaded_eq_self_iff _).mpr (clean_sorted.mpr hv)]

/-- Clean values with one text are the same value. -/
theorem same_of_write {o : Options} {v w : Value} {depth depth' : ℕ} {t : List Char} (hv : v.Clean)
    (hw : w.Clean) (h : write o v.sorted depth = .ok t) (h' : write o w.sorted depth' = .ok t) : v.Same w := by
  have hread := loads_write_sorted hv h (le_max_left depth depth')
  rw [loads_write_sorted hw h' (le_max_right depth depth')] at hread
  exact (Except.ok.inj hread).symm

end Clean

/-! ### Values that have a text -/

section Writable

/-- `json.dumps` returns, where the stack has room for `depth` nested containers. -/
def Writable (o : Options) (v : Value) (depth : ℕ) : Prop := ∃ t, write o v depth = .ok t

theorem writeItems_ok {o : Options} {items : List Value} {depth : ℕ} :
    (∃ ts, writeItems o items depth = .ok ts) ↔ ∀ v ∈ items, Writable o v depth := by
  induction items with
  | nil => simp [writeItems]
  | cons v items ih =>
    rw [List.forall_mem_cons, ← ih]
    constructor
    · rintro ⟨ts, h⟩
      obtain ⟨t, ht, h⟩ := bind_eq_ok h
      obtain ⟨us, hus, -⟩ := bind_eq_ok h
      exact ⟨⟨t, ht⟩, us, hus⟩
    · rintro ⟨⟨t, ht⟩, us, hus⟩
      exact ⟨t :: us, by rw [writeItems, ht, ok_bind, hus]; rfl⟩

theorem writeFields_ok {o : Options} {fields : List (Text × Value)} {depth : ℕ} :
    (∃ ts, writeFields o fields depth = .ok ts) ↔
      ∀ p ∈ fields, (∃ key, writeString o p.1 = .ok key) ∧ Writable o p.2 depth := by
  induction fields with
  | nil => simp [writeFields]
  | cons p fields ih =>
    rw [List.forall_mem_cons, ← ih]
    constructor
    · rintro ⟨ts, h⟩
      obtain ⟨key, hkey, h⟩ := bind_eq_ok h
      obtain ⟨t, ht, h⟩ := bind_eq_ok h
      obtain ⟨us, hus, -⟩ := bind_eq_ok h
      exact ⟨⟨⟨key, hkey⟩, t, ht⟩, us, hus⟩
    · rintro ⟨⟨⟨key, hkey⟩, t, ht⟩, us, hus⟩
      exact ⟨_ :: us, by rw [writeFields, hkey, ok_bind, ht, ok_bind, hus]; rfl⟩

theorem writable_arr {o : Options} {items : List Value} {depth : ℕ} :
    Writable o (.arr items) (depth + 1) ↔ ∀ v ∈ items, Writable o v depth := by
  rw [← writeItems_ok, Writable, write]
  exact exists_map_ok

theorem writable_obj {o : Options} {fields : List (Text × Value)} {depth : ℕ} :
    Writable o (.obj fields) (depth + 1) ↔
      ∀ p ∈ fields, (∃ key, writeString o p.1 = .ok key) ∧ Writable o p.2 depth := by
  rw [← writeFields_ok, Writable, write]
  exact exists_map_ok

mutual

/-- More room for containers does not change the text. -/
theorem write_mono {o : Options} {v : Value} {depth room : ℕ} {t : List Char} (h : write o v depth = .ok t)
    (hroom : depth ≤ room) : write o v room = .ok t := by
  cases v with
  | null | bool | int | float | str => exact h
  | arr items =>
    cases depth with
    | zero => cases h
    | succ depth =>
      obtain ⟨room, rfl⟩ := Nat.exists_eq_add_of_le' (Nat.le_trans (Nat.succ_le_succ (Nat.zero_le depth)) hroom)
      obtain ⟨ts, hts, rfl⟩ := map_eq_ok h
      rw [write, writeItems_mono hts (Nat.le_of_succ_le_succ hroom)]
      rfl
  | obj fields =>
    cases depth with
    | zero => cases h
    | succ depth =>
      obtain ⟨room, rfl⟩ := Nat.exists_eq_add_of_le' (Nat.le_trans (Nat.succ_le_succ (Nat.zero_le depth)) hroom)
      obtain ⟨ts, hts, rfl⟩ := map_eq_ok h
      rw [write, writeFields_mono hts (Nat.le_of_succ_le_succ hroom)]
      rfl

theorem writeItems_mono {o : Options} {items : List Value} {depth room : ℕ} {ts : List (List Char)}
    (h : writeItems o items depth = .ok ts) (hroom : depth ≤ room) : writeItems o items room = .ok ts := by
  cases items with
  | nil => exact h
  | cons v items =>
    obtain ⟨t, ht, h⟩ := bind_eq_ok h
    obtain ⟨us, hus, h⟩ := bind_eq_ok h
    cases h
    rw [writeItems, write_mono ht hroom, ok_bind, writeItems_mono hus hroom]
    rfl

theorem writeFields_mono {o : Options} {fields : List (Text × Value)} {depth room : ℕ} {ts : List (List Char)}
    (h : writeFields o fields depth = .ok ts) (hroom : depth ≤ room) : writeFields o fields room = .ok ts := by
  cases fields with
  | nil => exact h
  | cons p fields =>
    obtain ⟨k, v⟩ := p
    obtain ⟨key, hkey, h⟩ := bind_eq_ok h
    obtain ⟨t, ht, h⟩ := bind_eq_ok h
    obtain ⟨us, hus, h⟩ := bind_eq_ok h
    cases h
    rw [writeFields, hkey, ok_bind, write_mono ht hroom, ok_bind, writeFields_mono hus hroom]
    rfl

end

theorem writeString_ascii {o : Options} (ho : o.ensureAscii = true) (s : Text) : ∃ t, writeString o s = .ok t :=
  ⟨quoted s, if_pos ho⟩

theorem writable_sorted_obj {o : Options} {fields : List (Text × Value)} {depth : ℕ} :
    Writable o (Value.obj fields).sorted (depth + 1) ↔
      ∀ p ∈ fields, (∃ key, writeString o p.1 = .ok key) ∧ Writable o p.2.sorted depth := by
  rw [Value.sorted, writable_obj]
  have hmem (p : Text × Value) : p ∈ sortKeys (sortedFields fields) ↔ p ∈ sortedFields fields :=
    (sortKeys_perm _).mem_iff
  simp only [hmem]
  rw [sortedFields_eq, List.forall_mem_map]

mutual

/-- No integer has too many digits, and no containers are nested deeper than `depth`. -/
def Value.Fits : Value → ℕ → Prop
  | .null, _ => True
  | .bool _, _ => True
  | .int z, _ => (Nat.toDigits 10 z.natAbs).length ≤ maxStrDigits
  | .float _, _ => True
  | .str _, _ => True
  | .arr _, 0 => False
  | .arr items, depth + 1 => FitItems items depth
  | .obj _, 0 => False
  | .obj fields, depth + 1 => FitFields fields depth

def FitItems : List Value → ℕ → Prop
  | [], _ => True
  | v :: items, depth => v.Fits depth ∧ FitItems items depth

def FitFields : List (Text × Value) → ℕ → Prop
  | [], _ => True
  | (_, v) :: fields, depth => v.Fits depth ∧ FitFields fields depth

end

mutual

def Value.decideFits : (v : Value) → (depth : ℕ) → Decidable (v.Fits depth)
  | .null, _ => .isTrue trivial
  | .bool _, _ => .isTrue trivial
  | .int _, _ => inferInstanceAs (Decidable (_ ≤ _))
  | .float _, _ => .isTrue trivial
  | .str _, _ => .isTrue trivial
  | .arr _, 0 => .isFalse id
  | .arr items, depth + 1 => decideFitItems items depth
  | .obj _, 0 => .isFalse id
  | .obj fields, depth + 1 => decideFitFields fields depth

def decideFitItems : (items : List Value) → (depth : ℕ) → Decidable (FitItems items depth)
  | [], _ => .isTrue trivial
  | v :: items, depth => @instDecidableAnd _ _ (v.decideFits depth) (decideFitItems items depth)

def decideFitFields : (fields : List (Text × Value)) → (depth : ℕ) → Decidable (FitFields fields depth)
  | [], _ => .isTrue trivial
  | (_, v) :: fields, depth => @instDecidableAnd _ _ (v.decideFits depth) (decideFitFields fields depth)

end

instance (v : Value) (depth : ℕ) : Decidable (v.Fits depth) := v.decideFits depth

theorem fitItems_iff {items : List Value} {depth : ℕ} : FitItems items depth ↔ ∀ v ∈ items, v.Fits depth := by
  induction items with
  | nil => simp [FitItems]
  | cons v items ih => simp [FitItems, ih]

theorem fitFields_iff {fields : List (Text × Value)} {depth : ℕ} :
    FitFields fields depth ↔ ∀ p ∈ fields, p.2.Fits depth := by
  induction fields with
  | nil => simp [FitFields]
  | cons p fields ih => simp [FitFields, ih]

theorem writeFloat_ok {o : Options} (hnan : o.allowNan = true) (x : Float.Model) : ∃ t, writeFloat o x = .ok t := by
  rw [writeFloat, hnan, Bool.not_true]
  by_cases hfinite : x.isFinite
  · exact ⟨_, if_pos hfinite⟩
  · by_cases hx : x = nan
    · exact ⟨_, by rw [if_neg hfinite, if_neg Bool.false_ne_true, if_pos hx]⟩
    · by_cases hx' : x = infinity
      · exact ⟨_, by rw [if_neg hfinite, if_neg Bool.false_ne_true, if_neg hx, if_pos hx']⟩
      · exact ⟨_, by rw [if_neg hfinite, if_neg Bool.false_ne_true, if_neg hx, if_neg hx']⟩

/-- Where every character and every number has a spelling, a value that fits has a text. -/
theorem writable_of_fits {o : Options} (hascii : o.ensureAscii = true) (hnan : o.allowNan = true) {v : Value}
    {depth : ℕ} (h : v.Fits depth) : Writable o v.sorted depth := by
  induction v using Value.induction generalizing depth with
  | null => exact ⟨_, rfl⟩
  | bool b => exact ⟨_, rfl⟩
  | int z => exact ⟨_, if_neg (Nat.not_lt.mpr h)⟩
  | float x => exact writeFloat_ok hnan x
  | str s => exact writeString_ascii hascii s
  | arr items ih =>
    cases depth with
    | zero => cases h
    | succ depth =>
      rw [Value.sorted, writable_arr, sortedItems_eq, List.forall_mem_map]
      exact fun v hv ↦ ih v hv (fitItems_iff.mp h v hv)
  | obj fields ih =>
    cases depth with
    | zero => cases h
    | succ depth =>
      rw [writable_sorted_obj]
      exact fun p hp ↦ ⟨writeString_ascii hascii p.1, ih p hp (fitFields_iff.mp h p hp)⟩

end Writable

end SplitFleet.Lib.JsonText
