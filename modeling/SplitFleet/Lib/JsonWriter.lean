import Mathlib.Data.List.Lex
import SplitFleet.Lib.JsonReader

set_option autoImplicit false

namespace SplitFleet.Lib.JsonText

/-! ### Strings -/

def hex4 (n : ℕ) : List Char := [n / 4096, n / 256 % 16, n / 16 % 16, n % 16].map Nat.digitChar

def unicodeEscape (n : ℕ) : List Char := backslash :: 'u' :: hex4 n

def shortEscape? (c : CodePoint) : Option (Char × ℕ) := shortEscapes.find? (·.2 = c.val)

def highOf (c : CodePoint) : ℕ := 0xd800 + (c.val - 0x10000) / 1024

def lowOf (c : CodePoint) : ℕ := 0xdc00 + (c.val - 0x10000) % 1024

/-- One character, as `ensure_ascii=True` writes it. -/
def escape (c : CodePoint) : List Char :=
  match shortEscape? c with
  | some p => [backslash, p.1]
  | none =>
    if 32 ≤ c.val ∧ c.val ≤ 126 then [Char.ofNat c.val]
    else if c.val < 0x10000 then unicodeEscape c.val
    else unicodeEscape (highOf c) ++ unicodeEscape (lowOf c)

def quoted (s : Text) : List Char := quote :: s.flatMap escape ++ [quote]

/-- The units that the scanner sees of a written character. -/
def units (c : CodePoint) : List (ℕ × Bool) :=
  if (shortEscape? c).isSome ∨ 32 ≤ c.val ∧ c.val ≤ 126 then [(c.val, false)]
  else if c.val < 0x10000 then [(c.val, true)]
  else [(highOf c, true), (lowOf c, true)]

theorem hexDigit?_digitChar : ∀ d < 16, hexDigit? d.digitChar = some d := by decide

theorem scanUnits_hex4 {n : ℕ} (hn : n < 0x10000) (t : List Char) :
    scanUnits (.hex 3 0) (hex4 n ++ t) = (scanUnits .plain t).map fun p ↦ ((n, true) :: p.1, p.2) := by
  have h1 := hexDigit?_digitChar (n / 4096) (by omega)
  have h2 := hexDigit?_digitChar (n / 256 % 16) (by omega)
  have h3 := hexDigit?_digitChar (n / 16 % 16) (by omega)
  have h4 := hexDigit?_digitChar (n % 16) (by omega)
  have hvalue : 16 * (16 * (16 * (16 * 0 + n / 4096) + n / 256 % 16) + n / 16 % 16) + n % 16 = n := by omega
  simp only [hex4, List.map_cons, List.map_nil, List.cons_append, List.nil_append, scanUnits, h1, h2, h3, h4, hvalue]

theorem scanUnits_unicodeEscape {n : ℕ} (hn : n < 0x10000) (t : List Char) :
    scanUnits .plain (unicodeEscape n ++ t) = (scanUnits .plain t).map fun p ↦ ((n, true) :: p.1, p.2) := by
  rw [unicodeEscape, List.cons_append, List.cons_append, scanUnits, if_neg (by decide), if_pos rfl, scanUnits,
    if_pos rfl, scanUnits_hex4 hn]

theorem scanUnits_shortEscape {p : Char × ℕ} (hp : p ∈ shortEscapes) (t : List Char) :
    scanUnits .plain (backslash :: p.1 :: t) = (scanUnits .plain t).map fun q ↦ ((p.2, false) :: q.1, q.2) := by
  have hfind : ∀ p ∈ shortEscapes, p.1 ≠ 'u' ∧ (('/', 47) :: shortEscapes).find? (·.1 = p.1) = some p := by decide
  rw [scanUnits, if_neg (by decide), if_pos rfl, scanUnits, if_neg (hfind p hp).1, (hfind p hp).2]

theorem toNat_ofNat {n : ℕ} (h : n < 0xd800) : (Char.ofNat n).toNat = n := by
  rw [Char.ofNat, dif_pos (.inl h)]
  rfl

/-- A written character is read as its units. -/
theorem scanUnits_escape (c : CodePoint) (t : List Char) :
    scanUnits .plain (escape c ++ t) = (scanUnits .plain t).map fun p ↦ (units c ++ p.1, p.2) := by
  rw [escape, units]
  cases hshort : shortEscape? c with
  | some p =>
    have hvalue : p.2 = c.val := by simpa using List.find?_some hshort
    have hsome : (some p).isSome = true ∨ 32 ≤ c.val ∧ c.val ≤ 126 := .inl rfl
    dsimp only
    rw [if_pos hsome, ← hvalue]
    exact scanUnits_shortEscape (List.mem_of_find?_eq_some hshort) t
  | none =>
    dsimp only
    by_cases hplain : 32 ≤ c.val ∧ c.val ≤ 126
    · have hnat := @toNat_ofNat c.val (by omega)
      have hne : ∀ d : Char, (∃ p ∈ shortEscapes, p.2 = d.toNat) → Char.ofNat c.val ≠ d := by
        rintro d ⟨p, hp, hd⟩ rfl
        rw [hnat] at hd
        exact absurd hshort (Option.ne_none_iff_isSome.mpr (List.find?_isSome.mpr ⟨p, hp, decide_eq_true hd⟩))
      rw [if_pos hplain, if_pos (.inr hplain), List.singleton_append, scanUnits, if_neg (hne quote (by decide)),
        if_neg (hne backslash (by decide)), hnat, if_neg (by omega)]
      rfl
    · have hnone : ¬((none : Option (Char × ℕ)).isSome = true ∨ 32 ≤ c.val ∧ c.val ≤ 126) := by simpa using hplain
      rw [if_neg hplain, if_neg hnone]
      by_cases hsmall : c.val < 0x10000
      · rw [if_pos hsmall, if_pos hsmall, scanUnits_unicodeEscape hsmall]
        rfl
      · have hc := c.isLt
        rw [if_neg hsmall, if_neg hsmall, List.append_assoc, scanUnits_unicodeEscape (by rw [highOf]; omega),
          scanUnits_unicodeEscape (by rw [lowOf]; omega)]
        cases scanUnits .plain t with
        | error e => rfl
        | ok p => rfl

theorem scanUnits_flatMap (s : Text) (t : List Char) :
    scanUnits .plain (s.flatMap escape ++ quote :: t) = .ok (s.flatMap units, t) := by
  induction s with
  | nil => rw [List.flatMap_nil, List.nil_append, scanUnits, if_pos rfl, List.flatMap_nil]
  | cons c s ih =>
    rw [List.flatMap_cons, List.append_assoc, scanUnits_escape, ih, List.flatMap_cons]
    rfl

/-- The text that comes back: two surrogates that are a pair have become one character. -/
def joined : Text → Text
  | [] => []
  | [c] => [c]
  | c :: d :: s => if isHigh c.val ∧ isLow d.val then join c.val d.val :: joined s else c :: joined (d :: s)

/-- No high surrogate stands before a low one. -/
def Whole (s : Text) : Prop := s.IsChain fun c d ↦ ¬(isHigh c.val ∧ isLow d.val)

theorem length_joined_le (s : Text) : (joined s).length ≤ s.length := by
  fun_induction joined s with
  | case1 => exact le_rfl
  | case2 c => exact le_rfl
  | case3 c d s h ih =>
    rw [List.length_cons, List.length_cons, List.length_cons]
    omega
  | case4 c d s h ih => exact Nat.succ_le_succ ih

theorem joined_eq_self_iff (s : Text) : joined s = s ↔ Whole s := by
  fun_induction joined s with
  | case1 => exact ⟨fun _ ↦ .nil, fun _ ↦ rfl⟩
  | case2 c => exact ⟨fun _ ↦ .singleton c, fun _ ↦ rfl⟩
  | case3 c d s h ih =>
    constructor
    · intro heq
      have hlength := congrArg List.length heq
      have := length_joined_le s
      simp only [List.length_cons] at hlength
      omega
    · intro hwhole
      exact absurd h (List.isChain_cons_cons.mp hwhole).1
  | case4 c d s h ih =>
    rw [List.cons_inj_right, ih, Whole, Whole, List.isChain_cons_cons]
    exact (and_iff_right h).symm

theorem codePoint_val (c : CodePoint) : codePoint c.val = c := by
  rw [codePoint, Fin.ofNat_val_eq_self]

theorem isHigh_highOf (c : CodePoint) (h : 0x10000 ≤ c.val) : isHigh (highOf c) = true := by
  have hc := c.isLt
  rw [isHigh, highOf, Bool.and_eq_true, decide_eq_true_eq, decide_eq_true_eq]
  omega

theorem isLow_lowOf (c : CodePoint) : isLow (lowOf c) = true := by
  rw [isLow, lowOf, Bool.and_eq_true, decide_eq_true_eq, decide_eq_true_eq]
  omega

theorem join_highOf_lowOf (c : CodePoint) (h : 0x10000 ≤ c.val) : join (highOf c) (lowOf c) = c := by
  have hvalue : 0x10000 + (highOf c - 0xd800) * 1024 + (lowOf c - 0xdc00) = c.val := by
    rw [highOf, lowOf]
    omega
  rw [join, hvalue, codePoint_val]

theorem units_of_surrogate {c : CodePoint} (h : 0xd800 ≤ c.val ∧ c.val ≤ 0xdfff) : units c = [(c.val, true)] := by
  have hshort : shortEscape? c = none := by
    have hvalues : ∀ p ∈ shortEscapes, p.2 < 0xd800 := by decide
    apply List.find?_eq_none.mpr
    intro p hp heq
    have := of_decide_eq_true heq
    have := hvalues p hp
    omega
  rw [units, hshort, if_neg (by simp only [Option.isSome_none, Bool.false_eq_true, false_or]; omega), if_pos (by omega)]

/-- A character that does not make a pair with the unit behind it. -/
theorem joinPairs_units_append (c : CodePoint) {l : List (ℕ × Bool)}
    (h : isHigh c.val → ∀ u ∈ l.head?, ¬(u.2 ∧ isLow u.1)) : joinPairs (units c ++ l) = c :: joinPairs l := by
  have hone (hex : Bool) : joinPairs ((c.val, hex) :: l) = c :: joinPairs l := by
    cases l with
    | nil => exact congrArg (· :: []) (codePoint_val c)
    | cons u l =>
      rw [joinPairs, if_neg, codePoint_val]
      rintro ⟨-, hu, hhigh, hlow⟩
      exact h hhigh u rfl ⟨hu, hlow⟩
  rw [units]
  split_ifs with hplain hsmall
  · exact hone false
  · exact hone true
  · rw [not_lt] at hsmall
    rw [List.cons_append, List.cons_append, List.nil_append, joinPairs,
      if_pos ⟨rfl, rfl, isHigh_highOf c hsmall, isLow_lowOf c⟩, join_highOf_lowOf c hsmall]

theorem head?_units (d : CodePoint) (l : List (ℕ × Bool)) :
    ∀ u ∈ (units d ++ l).head?, isLow u.1 → isLow d.val := by
  rw [units]
  split_ifs with hplain hsmall
  · rintro u hu hlow
    cases hu
    exact hlow
  · rintro u hu hlow
    cases hu
    exact hlow
  · rintro u hu hlow
    cases hu
    have hd := d.isLt
    rw [isLow, highOf, Bool.and_eq_true, decide_eq_true_eq, decide_eq_true_eq] at hlow
    omega

theorem joinPairs_units (s : Text) : joinPairs (s.flatMap units) = joined s := by
  fun_induction joined s with
  | case1 => rfl
  | case2 c =>
    rw [List.flatMap_cons, List.flatMap_nil]
    exact joinPairs_units_append c fun _ u hu ↦ by cases hu
  | case3 c d s h ih =>
    obtain ⟨hhigh, hlow⟩ := h
    have hhigh' := hhigh
    have hlow' := hlow
    simp only [isHigh, isLow, Bool.and_eq_true, decide_eq_true_eq] at hhigh' hlow'
    rw [List.flatMap_cons, List.flatMap_cons, units_of_surrogate (by omega), units_of_surrogate (by omega),
      List.singleton_append, List.singleton_append, joinPairs, if_pos ⟨rfl, rfl, hhigh, hlow⟩, ih]
  | case4 c d s h ih =>
    rw [List.flatMap_cons, joinPairs_units_append, ih]
    rintro hhigh u hu ⟨-, hlow⟩
    rw [List.flatMap_cons] at hu
    exact h ⟨hhigh, head?_units d _ u hu hlow⟩

/-- A written string comes back with its pairs of surrogates joined. -/
theorem scanString_quoted (s : Text) (t : List Char) :
    scanString (s.flatMap escape ++ quote :: t) = .ok (joined s, t) := by
  rw [scanString, scanUnits_flatMap, ← joinPairs_units]
  rfl

/-! ### Texts of characters -/

theorem toNat_valid (c : Char) : c.toNat < 0xd800 ∨ 0xdfff < c.toNat ∧ c.toNat < 0x110000 := c.valid

theorem codePoint_toNat (c : Char) : (codePoint c.toNat).val = c.toNat :=
  Nat.mod_eq_of_lt (by have := toNat_valid c; omega)

theorem ofString_injective : Function.Injective Text.ofString := by
  intro s t h
  refine String.toList_injective (List.map_injective_iff.mpr ?_ h)
  intro c d hcd
  have hval := congrArg Fin.val hcd
  rw [codePoint_toNat, codePoint_toNat] at hval
  exact Char.toNat_inj.mp hval

/-- A text of characters has no surrogates. -/
theorem whole_ofString (s : String) : Whole (Text.ofString s) := by
  refine (List.pairwise_of_forall_mem_list ?_).isChain
  intro a ha b hb hpair
  obtain ⟨c, -, rfl⟩ := List.mem_map.mp ha
  have hvalid := toNat_valid c
  have hhigh := hpair.1
  rw [isHigh, codePoint_toNat, Bool.and_eq_true, decide_eq_true_eq, decide_eq_true_eq] at hhigh
  omega

end SplitFleet.Lib.JsonText
