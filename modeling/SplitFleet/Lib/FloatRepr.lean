import SplitFleet.Lib.Double
import SplitFleet.Lib.JsonReader

set_option autoImplicit false

namespace SplitFleet.Lib.JsonText

open Float.Model UnpackedFloat

/-! ### Numerals -/

/-- A numeral with an exponent of at least two digits. -/
def scientific (digits : List Char) (exponent : ℤ) : List Char :=
  digits.take 1 ++ (if digits.length ≤ 1 then [] else '.' :: digits.drop 1) ++ 'e' ::
    (if exponent < 0 then '-' else '+') :: (if exponent.natAbs < 10 then ['0'] else []) ++
    Nat.toDigits 10 exponent.natAbs

/-- The numeral in which the point stands behind the first `point` of the digits. -/
def placed (digits : List Char) (point : ℤ) : List Char :=
  if point ≤ -4 ∨ 16 < point then scientific digits (point - 1)
  else if point ≤ 0 then '0' :: '.' :: List.replicate (-point).toNat '0' ++ digits
  else if point < digits.length then digits.take point.toNat ++ '.' :: digits.drop point.toNat
  else digits ++ List.replicate (point - digits.length).toNat '0' ++ ['.', '0']

/-- Where the point stands in a fraction: it is less than `10 ^ point`, and not less than a tenth of that. -/
def pointOf (num den : ℕ) : ℤ :=
  if den ≤ num then Nat.log 10 (num / den) + 1 else 1 - Nat.clog 10 ((den + num - 1) / num)

/-- The two numbers of `n` digits next to the fraction, the nearer one first. -/
def neighbours (num den n : ℕ) (point : ℤ) : List ℕ :=
  let a := num * 10 ^ (n - point).toNat
  let b := den * 10 ^ (point - n).toNat
  if 2 * (a % b) < b ∨ 2 * (a % b) = b ∧ a / b % 2 = 0 then [a / b, a / b + 1] else [a / b + 1, a / b]

/-- The numeral of `f * 10 ^ (point - n)`. -/
def numeral (point : ℤ) (n f : ℕ) : List Char :=
  let digits := Nat.toDigits 10 f
  placed (digits.reverse.dropWhile (· = '0')).reverse (point - n + digits.length)

/-- The numerals for a fraction, the shorter ones first. -/
def numerals (num den : ℕ) : List (List Char) :=
  let point := pointOf num den
  (List.range' 1 17).flatMap fun n ↦ (neighbours num den n point).map (numeral point n)

/-- The numeral with all digits of a double. -/
def exactNumeral (m : ℕ) (e : ℤ) : List Char :=
  let places := max 1 (-e).toNat
  let n := if 0 ≤ e then m * 2 ^ e.toNat * 10 else m * 5 ^ (-e).toNat
  Nat.toDigits 10 (n / 10 ^ places) ++ '.' :: (Nat.toDigits 10 (n % 10 ^ places)).leftpad places '0'

def signed (s : Sign) (t : List Char) : List Char :=
  match s with
  | .positive => t
  | .negative => '-' :: t

/-- The float that a numeral stands for. -/
def readFloat? (t : List Char) : Option Float.Model :=
  match scanNumber t with
  | .ok (.float x, []) => some x
  | _ => none

/-- `float.__repr__`: the shortest numeral that stands for the float, and the nearest one of that length. -/
def floatRepr (x : Float.Model) : List Char :=
  match x.unpack with
  | .notANumber => "nan".toList
  | .infinity s => signed s "inf".toList
  | .zero s => signed s "0.0".toList
  | .finite s m e _ =>
    -- One of at most 17 digits is always found.
    (((numerals (m * 2 ^ e.toNat) (2 ^ (-e).toNat)).map (signed s)).find? (readFloat? · = some x)).getD
      (signed s (exactNumeral m e))

/-! ### Where a number ends -/

/-- A text that does not go on with a number that stands before it. -/
def Stops (t : List Char) : Prop :=
  ∀ c ∈ t.head?, ¬c.isDigit = true ∧ c ≠ '.' ∧ c ≠ 'e' ∧ c ≠ 'E' ∧ c ≠ '-' ∧ c ≠ '+'

section Append

variable {s t u : List Char}

theorem Stops.noDigit (ht : Stops t) : ∀ c ∈ t.head?, ¬c.isDigit = true := fun c hc ↦ (ht c hc).1

theorem takeWhile_append_of_noDigit (ht : ∀ c ∈ t.head?, ¬c.isDigit = true) (s : List Char) :
    (s ++ t).takeWhile Char.isDigit = s.takeWhile Char.isDigit := by
  induction s with
  | nil =>
    cases t with
    | nil => rfl
    | cons c t => exact List.takeWhile_cons_of_neg (ht c rfl)
  | cons c s ih =>
    by_cases hc : c.isDigit = true
    · rw [List.cons_append, List.takeWhile_cons_of_pos hc, List.takeWhile_cons_of_pos hc, ih]
    · rw [List.cons_append, List.takeWhile_cons_of_neg hc, List.takeWhile_cons_of_neg hc]

theorem dropWhile_append_of_noDigit (ht : ∀ c ∈ t.head?, ¬c.isDigit = true) (s : List Char) :
    (s ++ t).dropWhile Char.isDigit = s.dropWhile Char.isDigit ++ t := by
  induction s with
  | nil =>
    cases t with
    | nil => rfl
    | cons c t => exact List.dropWhile_cons_of_neg (ht c rfl)
  | cons c s ih =>
    by_cases hc : c.isDigit = true
    · rw [List.cons_append, List.dropWhile_cons_of_pos hc, List.dropWhile_cons_of_pos hc, ih]
    · rw [List.cons_append, List.dropWhile_cons_of_neg hc, List.dropWhile_cons_of_neg hc]
      rfl

theorem wholePart?_append (ht : ∀ c ∈ t.head?, ¬c.isDigit = true) {whole : List Char}
    (h : wholePart? s = some (whole, u)) :
    wholePart? (s ++ t) = some (whole, u ++ t) := by
  cases s with
  | nil => cases h
  | cons c s =>
    have htake := takeWhile_append_of_noDigit ht (c :: s)
    have hdrop := dropWhile_append_of_noDigit ht (c :: s)
    rw [wholePart?] at h
    rw [List.cons_append] at htake hdrop ⊢
    rw [wholePart?]
    split_ifs at h ⊢ with hzero hdigit
    · cases h
      rfl
    · cases h
      rw [htake, hdrop]

theorem fraction?_append (ht : Stops t) (s : List Char) :
    fraction? (s ++ t) = (fraction? s).map fun p ↦ (p.1, p.2 ++ t) := by
  cases s with
  | nil =>
    cases t with
    | nil => rfl
    | cons c t => exact if_neg fun hc ↦ (ht c rfl).2.1 hc.1
  | cons c s =>
    rw [List.cons_append, fraction?, fraction?, takeWhile_append_of_noDigit ht.noDigit,
      dropWhile_append_of_noDigit ht.noDigit]
    split_ifs
    · rfl
    · rfl

theorem signOf_of_ne {d : Char} {l : List Char} (hminus : d ≠ '-') (hplus : d ≠ '+') :
    signOf (d :: l) = (1, d :: l) := by
  unfold signOf
  split
  · next h => exact absurd (List.cons.inj h).1 hminus
  · next h => exact absurd (List.cons.inj h).1 hplus
  · rfl

theorem signOf_append (ht : Stops t) (s : List Char) : signOf (s ++ t) = ((signOf s).1, (signOf s).2 ++ t) := by
  cases s with
  | nil =>
    cases t with
    | nil => rfl
    | cons c t =>
      obtain ⟨-, -, -, -, hminus, hplus⟩ := ht c rfl
      exact signOf_of_ne hminus hplus
  | cons d s =>
    by_cases hminus : d = '-'
    · subst hminus
      rfl
    · by_cases hplus : d = '+'
      · subst hplus
        rfl
      · rw [List.cons_append, signOf_of_ne hminus hplus, signOf_of_ne hminus hplus]
        rfl

theorem exponent?_append (ht : Stops t) (s : List Char) :
    exponent? (s ++ t) = (exponent? s).map fun p ↦ (p.1, p.2 ++ t) := by
  cases s with
  | nil =>
    cases t with
    | nil => rfl
    | cons c t =>
      obtain ⟨-, -, he, hE, -⟩ := ht c rfl
      exact if_neg fun hc ↦ hc.1.elim he hE
  | cons c s =>
    rw [List.cons_append, exponent?, exponent?, signOf_append ht, takeWhile_append_of_noDigit ht.noDigit,
      dropWhile_append_of_noDigit ht.noDigit]
    split_ifs
    · rfl
    · rfl

/-- A number is read in the same way before a text that stops it. -/
theorem scanNumber_append (ht : Stops t) {v : Value} (h : scanNumber s = .ok (v, u)) :
    scanNumber (s ++ t) = .ok (v, u ++ t) := by
  have hne : s ≠ [] := by
    rintro rfl
    cases h
  have hminus : minus? (s ++ t) = minus? s := by
    rw [minus?, minus?, List.head?_append_of_ne_nil s hne]
  have htail : (if minus? (s ++ t) then (s ++ t).tail else s ++ t) = (if minus? s then s.tail else s) ++ t := by
    rw [hminus, List.tail_append_of_ne_nil hne]
    split_ifs <;> rfl
  rw [scanNumber] at h ⊢
  rw [htail, hminus]
  generalize (if minus? s then s.tail else s) = r at h ⊢
  cases hwhole : wholePart? r with
  | none =>
    rw [hwhole] at h
    cases h
  | some p =>
    obtain ⟨whole, w⟩ := p
    rw [hwhole] at h
    rw [wholePart?_append ht.noDigit hwhole]
    dsimp only at h ⊢
    rw [fraction?_append ht]
    cases hfraction : fraction? w with
    | none =>
      rw [hfraction] at h
      dsimp only [Option.map_none] at h ⊢
      rw [exponent?_append ht]
      cases hexponent : exponent? w with
      | none =>
        rw [hexponent] at h
        dsimp only [Option.map_none] at h ⊢
        by_cases hlong : maxStrDigits < whole.length
        · rw [if_pos hlong] at h
          cases h
        · rw [if_neg hlong] at h ⊢
          cases h
          rfl
      | some q =>
        rw [hexponent] at h
        cases h
        rfl
    | some q =>
      rw [hfraction] at h
      dsimp only [Option.map_some] at h ⊢
      rw [exponent?_append ht]
      cases hexponent : exponent? q.2 with
      | none =>
        rw [hexponent] at h
        cases h
        rfl
      | some r =>
        rw [hexponent] at h
        cases h
        rfl

end Append

/-! ### What a numeral stands for -/

section Digits

theorem isDigit_of_mem_digits {n : ℕ} : ∀ c ∈ Nat.toDigits 10 n, c.isDigit = true := fun _ hc ↦
  Nat.isDigit_of_mem_toDigits (by decide) (by decide) hc

theorem head?_toDigits {n : ℕ} (hn : 0 < n) : (Nat.toDigits 10 n).head? ≠ some '0' := by
  induction n using Nat.strongRecOn with
  | ind n ih =>
    by_cases hlt : n < 10
    · have hdigits : ∀ d < 10, 0 < d → d.digitChar ≠ '0' := by decide
      rw [Nat.toDigits_of_lt_base hlt]
      exact fun h ↦ hdigits n hlt hn (Option.some.inj h)
    · rw [Nat.toDigits_of_base_le (by decide) (by omega), List.head?_append_of_ne_nil _ Nat.toDigits_ne_nil]
      exact ih (n / 10) (by omega) (by omega)

theorem takeWhile_of_digits {l : List Char} (h : ∀ c ∈ l, c.isDigit = true) : l.takeWhile Char.isDigit = l :=
  List.takeWhile_eq_self_iff.mpr h

theorem dropWhile_of_digits {l : List Char} (h : ∀ c ∈ l, c.isDigit = true) : l.dropWhile Char.isDigit = [] :=
  List.dropWhile_eq_nil_iff.mpr h

theorem wholePart?_toDigits (n : ℕ) : wholePart? (Nat.toDigits 10 n) = some (Nat.toDigits 10 n, []) := by
  have hdigits := isDigit_of_mem_digits (n := n)
  have htake := takeWhile_of_digits hdigits
  have hdrop := dropWhile_of_digits hdigits
  rcases Nat.eq_zero_or_pos n with rfl | hn
  · rfl
  · have hhead := head?_toDigits hn
    cases hl : Nat.toDigits 10 n with
    | nil => exact absurd hl Nat.toDigits_ne_nil
    | cons c l =>
      rw [hl] at htake hdrop hhead hdigits
      have hc : ¬c = '0' := fun h ↦ hhead (h ▸ rfl)
      rw [wholePart?, if_neg hc, if_pos (hdigits c List.mem_cons_self), htake, hdrop]

theorem minus?_of_digits {l t : List Char} (hne : l ≠ []) (h : ∀ c ∈ l, c.isDigit = true) :
    minus? (l ++ t) = false := by
  cases l with
  | nil => exact absurd rfl hne
  | cons c l =>
    have hc : c ≠ '-' := by
      rintro rfl
      exact absurd (h '-' List.mem_cons_self) (by decide)
    simpa [minus?] using hc

theorem ofDigitChars_leftpad (n k : ℕ) :
    Nat.ofDigitChars 10 ((Nat.toDigits 10 n).leftpad k '0') 0 = n := by
  rw [List.leftpad, Nat.ofDigitChars_append, Nat.ofDigitChars_replicate_zero, Nat.mul_zero,
    Nat.ofDigitChars_ten_toDigits]

theorem length_leftpad_digits {n k : ℕ} (hk : 0 < k) (hn : n < 10 ^ k) :
    ((Nat.toDigits 10 n).leftpad k '0').length = k := by
  rw [List.length_leftpad, max_eq_left ((Nat.length_toDigits_le_iff (by decide) hk).mpr hn)]

theorem isDigit_of_mem_leftpad {n k : ℕ} : ∀ c ∈ (Nat.toDigits 10 n).leftpad k '0', c.isDigit = true := by
  intro c hc
  rw [List.leftpad, List.mem_append] at hc
  rcases hc with hc | hc
  · rw [List.eq_of_mem_replicate hc]
    decide
  · exact isDigit_of_mem_digits c hc

def withSign (s : Sign) (x : Float.Model) : Float.Model :=
  match s with
  | .positive => x
  | .negative => -x

/-- A whole number with a fraction of `k` digits. -/
theorem scanNumber_fraction (s : Sign) {n k : ℕ} (hk : 0 < k) :
    scanNumber (signed s (Nat.toDigits 10 (n / 10 ^ k) ++ '.' :: (Nat.toDigits 10 (n % 10 ^ k)).leftpad k '0')) =
      .ok (.float (withSign s (Float.Model.ofScientific n (-k))), []) := by
  have hlength := length_leftpad_digits hk (Nat.mod_lt n (Nat.pow_pos (by decide) : 0 < 10 ^ k))
  have hfraction : fraction? ('.' :: (Nat.toDigits 10 (n % 10 ^ k)).leftpad k '0') =
      some ((Nat.toDigits 10 (n % 10 ^ k)).leftpad k '0', []) := by
    have hne : (Nat.toDigits 10 (n % 10 ^ k)).leftpad k '0' ≠ [] := by
      rw [← List.length_pos_iff, hlength]
      exact hk
    rw [fraction?, takeWhile_of_digits isDigit_of_mem_leftpad, dropWhile_of_digits isDigit_of_mem_leftpad,
      if_pos ⟨rfl, hne⟩]
  have hwhole : wholePart? (Nat.toDigits 10 (n / 10 ^ k) ++ '.' :: (Nat.toDigits 10 (n % 10 ^ k)).leftpad k '0') =
      some (Nat.toDigits 10 (n / 10 ^ k), '.' :: (Nat.toDigits 10 (n % 10 ^ k)).leftpad k '0') := by
    refine wholePart?_append (fun c hc ↦ ?_) (wholePart?_toDigits _)
    cases hc
    decide
  have hvalue : Nat.ofDigitChars 10 (Nat.toDigits 10 (n / 10 ^ k) ++
      (Nat.toDigits 10 (n % 10 ^ k)).leftpad k '0') 0 = n := by
    rw [Nat.ofDigitChars_append, Nat.ofDigitChars_eq_ofDigitChars_zero, hlength, ofDigitChars_leftpad,
      Nat.ofDigitChars_ten_toDigits, Nat.div_add_mod]
  have hplain : minus? (Nat.toDigits 10 (n / 10 ^ k) ++ '.' :: (Nat.toDigits 10 (n % 10 ^ k)).leftpad k '0') = false :=
    minus?_of_digits Nat.toDigits_ne_nil isDigit_of_mem_digits
  have hnegative (t : List Char) : minus? ('-' :: t) = true := rfl
  cases s with
  | positive =>
    rw [signed, scanNumber, hplain, if_neg Bool.false_ne_true, hwhole]
    dsimp only
    rw [hfraction]
    dsimp only [exponent?]
    rw [nearest, hvalue, hlength, Int.zero_sub]
    rfl
  | negative =>
    rw [signed, scanNumber, hnegative, if_pos rfl, List.tail_cons, hwhole]
    dsimp only
    rw [hfraction]
    dsimp only [exponent?]
    rw [nearest, hvalue, hlength, Int.zero_sub]
    rfl

end Digits

/-! ### Floats -/

theorem scanNumber_exactNumeral (s : Sign) {m : ℕ} {e : ℤ} (h : Canonical m e) :
    scanNumber (signed s (exactNumeral m e)) = .ok (.float (Float.Model.pack (.finite s m e h.pos)), []) := by
  have hlow := h.low
  have hk : 0 < max 1 (-e).toNat := by omega
  have hvalue : (if 0 ≤ e then m * 2 ^ e.toNat * 10 else m * 5 ^ (-e).toNat) * 2 ^ (-e).toNat =
      m * 10 ^ max 1 (-e).toNat * 2 ^ e.toNat := by
    split_ifs with he
    · have hzero : (-e).toNat = 0 := by omega
      rw [hzero, Nat.pow_zero, Nat.max_eq_left (by decide)]
      ring
    · have hzero : e.toNat = 0 := by omega
      rw [hzero, Nat.max_eq_right (by omega), Nat.pow_zero, Nat.mul_one, Nat.mul_assoc, ← Nat.mul_pow]
  rw [exactNumeral, scanNumber_fraction s hk, Float.Model.ofScientific, ofScientific_exact h hk (by omega) hvalue]
  cases s with
  | positive => rfl
  | negative =>
    have hneg : -Float.Model.pack (.finite .positive m e h.pos) =
        Float.Model.pack (Float.Model.pack (.finite .positive m e h.pos)).unpack.neg := rfl
    rw [withSign, hneg, unpack_pack .positive h]
    rfl

theorem readFloat?_eq_some {t : List Char} {x : Float.Model} (h : readFloat? t = some x) :
    scanNumber t = .ok (.float x, []) := by
  rw [readFloat?] at h
  cases hscan : scanNumber t with
  | error e =>
    rw [hscan] at h
    cases h
  | ok p =>
    obtain ⟨v, u⟩ := p
    rw [hscan] at h
    cases v with
    | float y =>
      cases u with
      | nil =>
        cases h
        rfl
      | cons c u => cases h
    | null | bool | int | str | arr | obj => cases h

/-- The numeral of a float stands for the float. -/
theorem scanNumber_floatRepr {x : Float.Model} (hx : x.isFinite = true) :
    scanNumber (floatRepr x) = .ok (.float x, []) := by
  have hpack := pack_unpack x
  rw [floatRepr]
  cases hu : x.unpack with
  | notANumber | infinity s =>
    rw [Float.Model.isFinite, hu] at hx
    cases hx
  | zero s =>
    rw [hu] at hpack
    have hzero : "0.0".toList =
        Nat.toDigits 10 (0 / 10 ^ 1) ++ '.' :: (Nat.toDigits 10 (0 % 10 ^ 1)).leftpad 1 '0' := by
      decide
    dsimp only
    rw [hzero, scanNumber_fraction s (by decide), ← hpack]
    cases s with
    | positive => rfl
    | negative => rfl
  | finite s m e hm =>
    have hcanonical := canonical_of_unpack hu
    rw [hu] at hpack
    dsimp only
    cases hfind : ((numerals (m * 2 ^ e.toNat) (2 ^ (-e).toNat)).map (signed s)).find? (readFloat? · = some x) with
    | none => rw [Option.getD_none, scanNumber_exactNumeral s hcanonical, hpack]
    | some t =>
      rw [Option.getD_some]
      exact readFloat?_eq_some (by simpa using List.find?_some hfind)

end SplitFleet.Lib.JsonText
