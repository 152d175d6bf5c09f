import Mathlib.Data.Nat.Log
import Mathlib.Tactic.Ring
import SplitFleet.Lib.Python

set_option autoImplicit false

namespace SplitFleet.Lib

open Float.Model UnpackedFloat

/-- The mantissa and the exponent of a double that is neither zero, infinite nor a NaN. -/
structure Canonical (m : ℕ) (e : ℤ) : Prop where
  pos : 0 < m
  lt : m < 2 ^ 53
  low : -1074 ≤ e
  high : e ≤ 971
  normal : e = -1074 ∨ 2 ^ 52 ≤ m

namespace Canonical

variable {m : ℕ} {e : ℤ}

theorem log2_lt (h : Canonical m e) : m.log2 < 53 := (Nat.log2_lt h.pos.ne').mpr h.lt

theorem log2_eq (h : 2 ^ 52 ≤ m) (hlt : m < 2 ^ 53) : m.log2 = 52 :=
  (Nat.log2_eq_iff (by omega)).mpr ⟨h, hlt⟩

/-- The exponent is the one that the format asks for. -/
theorem targetExponent_eq (h : Canonical m e) : Format.binary64.targetExponent (m.log2 + 1 + e) = e := by
  have hlog := h.log2_lt
  have hlow := h.low
  have hbits : (Format.binary64.mantissaBits : ℤ) = 53 := rfl
  simp only [Format.targetExponent, Format.minExponent]
  rcases h.normal with rfl | hnormal
  · omega
  · rw [log2_eq hnormal h.lt]
    omega

end Canonical

/-! ### Bits -/

section Bits

abbrev Bits := BitVec Format.binary64.numBits

theorem packComponents_unpack (b : Bits) :
    packComponents Format.binary64 (Sign.ofBitVec (unpackSign b)) (unpackExponent b) (unpackMantissa b) = b := by
  have hsign (v : BitVec 1) : (Sign.ofBitVec v).toBitVec = v := by
    rcases BitVec.eq_zero_or_eq_one v with rfl | rfl <;> rfl
  rw [packComponents, hsign]
  apply BitVec.eq_of_getLsbD_eq
  intro i hi
  unfold unpackSign
  simp only [BitVec.getLsbD_append, unpackExponent, unpackMantissa, BitVec.getLsbD_cast,
    BitVec.getLsbD_extractLsb]
  by_cases hm : i < 52
  · simp [hm]
  · by_cases he : i < 63
    · have h1 : i - 52 < 11 := by omega
      have h2 : 52 + (i - 52) = i := by omega
      simp [hm, h1, h2]
    · have h3 : i = 63 := by
        have : i < 64 := hi
        omega
      subst h3
      simp
      exact BitVec.getLsbD_eq_getElem hi

theorem toNat_implicitBit (v : BitVec 52) : (1#1 ++ v).toNat = 2 ^ 52 + v.toNat := by
  rw [BitVec.toNat_append, ← Nat.shiftLeft_add_eq_or_of_lt v.isLt]
  rfl

theorem toNat_lt_of_ne {v : BitVec 11} (h : v ≠ -1#11) : v.toNat < 2047 := by
  have hlt := v.isLt
  have hne : v.toNat ≠ 2047 := by
    intro hv
    exact h (BitVec.eq_of_toNat_eq hv)
  omega

theorem finite_congr {s s' : Sign} {m m' : ℕ} {e e' : ℤ} {h : 0 < m} {h' : 0 < m'} (hs : s = s') (hm : m = m')
    (he : e = e') : UnpackedFloat.finite s m e h = .finite s' m' e' h' := by
  subst hs hm he
  rfl

theorem unpack_subnormal {b : Bits} (he : unpackExponent b = 0#11) (hpos : 0 < (unpackMantissa b).toNat) :
    UnpackedFloat.unpack Format.binary64 b =
      .finite (Sign.ofBitVec (unpackSign b)) (unpackMantissa b).toNat (-1074) hpos := by
  have htop : ¬unpackExponent b = -1#11 := by
    rw [he]
    decide
  have hnull : ¬unpackMantissa b = 0#52 := by
    intro h0
    rw [h0] at hpos
    exact absurd hpos (Nat.lt_irrefl 0)
  unfold UnpackedFloat.unpack
  refine (if_neg htop).trans ((if_pos he).trans ((dif_neg hnull).trans (finite_congr rfl rfl ?_)))
  rw [he]
  rfl

theorem unpack_normal {b : Bits} (htop : ¬unpackExponent b = -1#11) (hbottom : ¬unpackExponent b = 0#11)
    {m : ℕ} {e : ℤ} (hm : m = 2 ^ 52 + (unpackMantissa b).toNat) (he : e = (unpackExponent b).toNat - 1075)
    (hpos : 0 < m) : UnpackedFloat.unpack Format.binary64 b = .finite (Sign.ofBitVec (unpackSign b)) m e hpos := by
  subst hm he
  unfold UnpackedFloat.unpack
  exact (if_neg htop).trans ((if_neg hbottom).trans (finite_congr rfl (toNat_implicitBit _) rfl))

theorem unpack_special {b : Bits} (htop : unpackExponent b = -1#11) :
    UnpackedFloat.unpack Format.binary64 b =
      if unpackMantissa b = 0#52 then .infinity (Sign.ofBitVec (unpackSign b)) else .notANumber := by
  unfold UnpackedFloat.unpack
  exact if_pos htop

theorem unpack_null {b : Bits} (he : unpackExponent b = 0#11) (hnull : unpackMantissa b = 0#52) :
    UnpackedFloat.unpack Format.binary64 b = .zero (Sign.ofBitVec (unpackSign b)) := by
  have htop : ¬unpackExponent b = -1#11 := by
    rw [he]
    decide
  unfold UnpackedFloat.unpack
  exact (if_neg htop).trans ((if_pos he).trans (dif_pos hnull))

theorem mantissa_pos {b : Bits} (h : ¬unpackMantissa b = 0#52) : 0 < (unpackMantissa b).toNat :=
  Nat.pos_of_ne_zero fun h0 ↦ h (BitVec.eq_of_toNat_eq h0)

theorem canonical_of_bits {b : Bits} {s : Sign} {m : ℕ} {e : ℤ} {hm : 0 < m}
    (h : UnpackedFloat.unpack Format.binary64 b = .finite s m e hm) : Canonical m e := by
  have hmantissa : (unpackMantissa b).toNat < 2 ^ 52 := (unpackMantissa b).isLt
  by_cases htop : unpackExponent b = -1#11
  · rw [unpack_special htop] at h
    by_cases hzero : unpackMantissa b = 0#52
    · rw [if_pos hzero] at h
      cases h
    · rw [if_neg hzero] at h
      cases h
  · by_cases hbottom : unpackExponent b = 0#11
    · by_cases hnull : unpackMantissa b = 0#52
      · rw [unpack_null hbottom hnull] at h
        cases h
      · rw [unpack_subnormal hbottom (mantissa_pos hnull)] at h
        cases h
        exact ⟨hm, hmantissa.trans (by decide), by decide, by decide, .inl rfl⟩
    · have hexponent := toNat_lt_of_ne htop
      have hpos : 0 < (unpackExponent b).toNat :=
        Nat.pos_of_ne_zero fun h0 ↦ hbottom (BitVec.eq_of_toNat_eq h0)
      rw [unpack_normal htop hbottom rfl rfl (Nat.add_pos_left (Nat.two_pow_pos 52) _)] at h
      cases h
      constructor <;> omega

/-- What `unpack` returns of a double. -/
theorem canonical_of_unpack {x : Float.Model} {s : Sign} {m : ℕ} {e : ℤ} {hm : 0 < m}
    (h : x.unpack = .finite s m e hm) : Canonical m e :=
  canonical_of_bits h

theorem pack_subnormal (s : Sign) {m : ℕ} (hm : 0 < m) (hlt : m < 2 ^ 52) :
    UnpackedFloat.pack Format.binary64 (.finite s m (-1074) hm) =
      packComponents Format.binary64 s 0#11 (BitVec.ofNat 52 m) := by
  have hlog := (Nat.log2_lt hm.ne').mpr hlt
  have hbits : ¬m.log2 + 1 = Format.binary64.mantissaBits := by
    have hwidth : Format.binary64.mantissaBits = 53 := rfl
    omega
  unfold UnpackedFloat.pack
  exact (if_neg (by decide)).trans (if_neg hbits)

theorem pack_normal (s : Sign) {k m n : ℕ} {e : ℤ} {hk : 0 < k} (hm : k = 2 ^ 52 + m) (hlt : m < 2 ^ 52)
    (hn : n < 2047) (he : e = n - 1075) :
    UnpackedFloat.pack Format.binary64 (.finite s k e hk) =
      packComponents Format.binary64 s (BitVec.ofNat 11 n) (BitVec.ofNat 52 m) := by
  subst hm
  have hlog : (2 ^ 52 + m).log2 = 52 := Canonical.log2_eq (Nat.le_add_right _ _) (by omega)
  have hbias : (Format.binary64.exponentBias : ℤ) = 1023 := rfl
  have hbiased : (e + Format.binary64.exponentBias + (52 : ℕ)).toNat = n := by
    rw [hbias]
    omega
  have hsmall : ¬2 ^ 11 ≤ n + 1 := by omega
  have hbits : (2 ^ 52 + m).log2 + 1 = Format.binary64.mantissaBits := by
    rw [hlog]
    rfl
  have hmantissa : BitVec.ofNat 52 (2 ^ 52 + m) = BitVec.ofNat 52 m := by
    apply BitVec.eq_of_toNat_eq
    simp
  unfold UnpackedFloat.pack
  dsimp only
  rw [hbiased, if_neg hsmall, if_pos hbits, hmantissa]

theorem eq_of_toBits {x y : Float.Model} (h : x.toBits = y.toBits) : x = y := by
  cases x
  cases y
  cases h
  rfl

theorem pack_unpack (x : Float.Model) : Float.Model.pack x.unpack = x := by
  have hcomponents := packComponents_unpack x.toBits.toBitVec
  have hmantissa := (@unpackMantissa Format.binary64 x.toBits.toBitVec).isLt
  have hbits : UnpackedFloat.pack Format.binary64 (UnpackedFloat.unpack Format.binary64 x.toBits.toBitVec) =
      x.toBits.toBitVec := by
    by_cases htop : @unpackExponent Format.binary64 x.toBits.toBitVec = -1#11
    · rw [unpack_special htop]
      by_cases hzero : @unpackMantissa Format.binary64 x.toBits.toBitVec = 0#52
      · rw [if_pos hzero]
        rw [htop, hzero] at hcomponents
        exact hcomponents
      · rw [if_neg hzero]
        exact (x.valid.eq_packedNaN htop hzero).symm
    · by_cases hbottom : @unpackExponent Format.binary64 x.toBits.toBitVec = 0#11
      · by_cases hnull : @unpackMantissa Format.binary64 x.toBits.toBitVec = 0#52
        · rw [unpack_null hbottom hnull]
          rw [hbottom, hnull] at hcomponents
          exact hcomponents
        · rw [unpack_subnormal hbottom (mantissa_pos hnull)]
          rw [hbottom] at hcomponents
          refine (pack_subnormal _ _ hmantissa).trans ?_
          rw [BitVec.ofNat_toNat, BitVec.setWidth_eq]
          exact hcomponents
      · rw [unpack_normal htop hbottom rfl rfl (Nat.add_pos_left (Nat.two_pow_pos 52) _)]
        refine (pack_normal _ rfl hmantissa (toNat_lt_of_ne htop) rfl).trans ?_
        rw [BitVec.ofNat_toNat, BitVec.setWidth_eq, BitVec.ofNat_toNat, BitVec.setWidth_eq]
        exact hcomponents
  exact eq_of_toBits (congrArg UInt64.ofBitVec hbits)

theorem ofBitVec_unpackSign (s : Sign) (v : BitVec 11) (w : BitVec 52) :
    Sign.ofBitVec (unpackSign (packComponents Format.binary64 s v w)) = s := by
  have hsign : unpackSign (packComponents Format.binary64 s v w) = s.toBitVec := by
    apply BitVec.eq_of_getLsbD_eq
    intro i hi
    obtain rfl : i = 0 := by omega
    unfold unpackSign
    simp only [packComponents, BitVec.getLsbD_append, BitVec.getLsbD_cast, BitVec.getLsbD_extractLsb]
    simp
  rw [hsign]
  cases s <;> rfl

theorem unpack_pack (s : Sign) {m : ℕ} {e : ℤ} (h : Canonical m e) :
    (Float.Model.pack (.finite s m e h.pos)).unpack = .finite s m e h.pos := by
  have hlow := h.low
  have hhigh := h.high
  have hlt := h.lt
  rw [Float.Model.unpack, Float.Model.pack]
  dsimp only
  by_cases hsmall : m < 2 ^ 52
  · obtain rfl : e = -1074 := h.normal.resolve_right (by omega)
    have hmantissa : (unpackMantissa (packComponents Format.binary64 s 0#11 (BitVec.ofNat 52 m))).toNat = m := by
      rw [unpackMantissa_packComponents, BitVec.toNat_ofNat, Nat.mod_eq_of_lt hsmall]
    rw [pack_subnormal s h.pos hsmall]
    exact (unpack_subnormal unpackExponent_packComponents (hmantissa.symm ▸ h.pos)).trans
      (finite_congr (ofBitVec_unpackSign s _ _) hmantissa rfl)
  · obtain ⟨f, rfl⟩ : ∃ f, m = 2 ^ 52 + f := ⟨m - 2 ^ 52, by omega⟩
    obtain ⟨n, hn⟩ := Int.eq_ofNat_of_zero_le (a := e + 1075) (by omega)
    have hexponent : unpackExponent (packComponents Format.binary64 s (BitVec.ofNat 11 n) (BitVec.ofNat 52 f)) =
        BitVec.ofNat 11 n := unpackExponent_packComponents
    have hsmallf : f < 2 ^ 52 := by omega
    have hn2047 : n < 2047 := by omega
    have hmantissa : (unpackMantissa (packComponents Format.binary64 s (BitVec.ofNat 11 n)
        (BitVec.ofNat 52 f))).toNat = f := by
      rw [unpackMantissa_packComponents]
      exact (BitVec.toNat_ofNat f 52).trans (Nat.mod_eq_of_lt hsmallf)
    have hvalue : (BitVec.ofNat 11 n).toNat = n := by
      rw [BitVec.toNat_ofNat, Nat.mod_eq_of_lt (by omega)]
    have htop : ¬BitVec.ofNat 11 n = -1#11 := by
      intro heq
      have := hvalue.symm.trans (congrArg BitVec.toNat heq)
      exact absurd this hn2047.ne
    have hbottom : ¬BitVec.ofNat 11 n = 0#11 := by
      intro heq
      have : n = 0 := hvalue.symm.trans (congrArg BitVec.toNat heq)
      omega
    rw [pack_normal s rfl hsmallf hn2047 (by omega)]
    rw [← hexponent] at htop hbottom hvalue
    have hresult := unpack_normal htop hbottom (congrArg (2 ^ 52 + ·) hmantissa.symm) (e := e) (by omega) h.pos
    rw [ofBitVec_unpackSign] at hresult
    exact hresult

end Bits

/-! ### Exact results -/

section Rounding

variable {m : ℕ} {e : ℤ}

theorem shiftRight_exact (m k : ℕ) :
    (ExtendedMantissa.mk (m * 2 ^ k) false false) >>> k = ExtendedMantissa.mk m false false := by
  change Nat.repeat ExtendedMantissa.shiftRightOne k _ = _
  induction k generalizing m with
  | zero => simp [Nat.repeat]
  | succ k ih =>
    have hmul : m * 2 ^ (k + 1) = 2 * m * 2 ^ k := by ring
    rw [Nat.repeat, hmul, ih]
    simp [ExtendedMantissa.shiftRightOne]

theorem log2_mul_two_pow (hm : 0 < m) (k : ℕ) : (m * 2 ^ k).log2 = m.log2 + k := by
  induction k with
  | zero => simp
  | succ k ih =>
    have hmul : m * 2 ^ (k + 1) = 2 * (m * 2 ^ k) := by ring
    rw [hmul, Nat.log2_two_mul (Nat.mul_pos hm (Nat.two_pow_pos k)).ne', ih, Nat.add_assoc]

theorem shiftToTargetExponent_exact (h : Canonical m e) (k : ℕ) :
    shiftToTargetExponent Format.binary64 (m * 2 ^ k) (e - k) .exact = (ExtendedMantissa.mk m false false, e) := by
  have htotal : totalExponent (m * 2 ^ k) (e - k) = m.log2 + 1 + e := by
    rw [totalExponent, log2_mul_two_pow h.pos]
    push_cast
    ring
  have hshift : (e - (e - k)).toNat = k := by omega
  rw [shiftToTargetExponent, htotal, h.targetExponent_eq, shiftToExponent, hshift, Int.sub_add_cancel]
  exact congrArg (·, e) (shiftRight_exact m k)

/-- A result that is a double is not rounded. -/
theorem roundWithAccuracy_exact (s : Sign) (h : Canonical m e) (k : ℕ) :
    roundWithAccuracy Format.binary64 s (m * 2 ^ k) (e - k) .exact = .finite s m e h.pos := by
  have hagain := shiftToTargetExponent_exact h 0
  rw [Nat.pow_zero, Nat.mul_one, Int.natCast_zero, Int.sub_zero] at hagain
  have hrounded : (ExtendedMantissa.mk m false false).roundedMantissa = m := rfl
  rw [roundWithAccuracy, shiftToTargetExponent_exact h]
  dsimp only
  rw [hrounded, hagain]
  exact dif_neg h.pos.ne'

/-- The exponent that the quotient is computed with, and how many bits that adds to the dividend. -/
theorem divCore_exact (h : Canonical m e) {a b : ℕ} (ha : 0 < a) (hb : 0 < b)
    (heq : a * 2 ^ (-e).toNat = m * b * 2 ^ e.toNat) :
    ∃ k : ℕ, divCore Format.binary64 a 0 b 0 = (m * 2 ^ k, e - k, .exact) := by
  have hlog : (a.log2 : ℤ) ≤ b.log2 + m.log2 + 1 + e := by
    have hle : (m * b).log2 < m.log2 + b.log2 + 2 := by
      rw [Nat.log2_lt (Nat.mul_pos h.pos hb).ne', Nat.pow_add, Nat.pow_add]
      have h1 := Nat.lt_log2_self (n := m)
      have h2 := Nat.lt_log2_self (n := b)
      calc m * b < 2 ^ (m.log2 + 1) * 2 ^ (b.log2 + 1) := Nat.mul_lt_mul'' h1 h2
        _ = 2 ^ m.log2 * 2 ^ b.log2 * 2 ^ 2 := by ring
    have hlogs := congrArg Nat.log2 heq
    rw [log2_mul_two_pow ha, log2_mul_two_pow (Nat.mul_pos h.pos hb)] at hlogs
    omega
  have hlow := h.low
  have hlt := h.log2_lt
  -- The dividend gets `n` more bits, and the quotient `k` more than the mantissa has.
  obtain ⟨n, k, ht, hk⟩ : ∃ n k : ℕ,
      min (0 - 0) (Format.binary64.targetExponent (totalExponent a 0 - totalExponent b 0)) = -(n : ℤ) ∧
        e + n = k := by
    have hle : Format.binary64.targetExponent (totalExponent a 0 - totalExponent b 0) ≤ e := by
      have htarget := h.targetExponent_eq
      have hbits : (Format.binary64.mantissaBits : ℤ) = 53 := rfl
      simp only [Format.targetExponent, totalExponent, Format.minExponent] at htarget ⊢
      omega
    generalize Format.binary64.targetExponent (totalExponent a 0 - totalExponent b 0) = t at hle
    refine ⟨(-(min 0 t)).toNat, (e + (-(min 0 t)).toNat).toNat, ?_, ?_⟩
    · omega
    · omega
  have hquotient : a * 2 ^ n = m * 2 ^ k * b := by
    rcases le_total 0 e with he | he
    · obtain ⟨d, rfl⟩ := Int.eq_ofNat_of_zero_le he
      have hn : k = d + n := by omega
      simp only [Int.toNat_neg_natCast, Nat.pow_zero, Nat.mul_one, Int.toNat_natCast] at heq
      rw [heq, hn, Nat.pow_add]
      ring
    · obtain ⟨d, hd⟩ := Int.eq_ofNat_of_zero_le (Int.neg_nonneg_of_nonpos he)
      have hn : n = d + k := by omega
      have hzero : e.toNat = 0 := Int.toNat_of_nonpos he
      rw [hd, hzero, Nat.pow_zero, Nat.mul_one, Int.toNat_natCast] at heq
      rw [hn, Nat.pow_add, ← Nat.mul_assoc, heq]
      ring
  have hshift : (0 - 0 - -(n : ℤ)).toNat = n := by omega
  have hexponent : -(n : ℤ) = e - k := by omega
  refine ⟨k, ?_⟩
  rw [divCore, ht, hshift, Nat.shiftLeft_eq, hquotient, Nat.mul_div_cancel _ hb, Nat.mul_mod_left, hexponent]
  rfl

/-- The quotient of two whole numbers that is a double. -/
theorem div_exact (h : Canonical m e) {a b : ℕ} (ha : 0 < a) (hb : 0 < b)
    (heq : a * 2 ^ (-e).toNat = m * b * 2 ^ e.toNat) :
    UnpackedFloat.div Format.binary64 (.finite .positive a 0 ha) (.finite .positive b 0 hb) =
      .finite .positive m e h.pos := by
  obtain ⟨k, hk⟩ := divCore_exact h ha hb heq
  -- Both operands are finite, and the quotient is positive.
  have hround := congrArg (fun r ↦ roundWithAccuracy Format.binary64 .positive r.1 r.2.1 r.2.2) hk
  exact hround.trans (roundWithAccuracy_exact .positive h k)

/-- A decimal fraction that is a double. -/
theorem ofScientific_exact (h : Canonical m e) {n k : ℕ} (hk : 0 < k) (hle : k ≤ 1074)
    (heq : n * 2 ^ (-e).toNat = m * 10 ^ k * 2 ^ e.toNat) :
    UnpackedFloat.ofScientific Format.binary64 n (-k) = .finite .positive m e h.pos := by
  have hn : n ≠ 0 := by
    rintro rfl
    rw [Nat.zero_mul] at heq
    exact absurd heq.symm (Nat.mul_pos (Nat.mul_pos h.pos (Nat.pow_pos (by decide))) (Nat.two_pow_pos _)).ne'
  have hlarge : ¬(-k : ℤ) > 2 ^ Format.binary64.exponentBits := by
    have : (2 : ℤ) ^ Format.binary64.exponentBits = 2048 := rfl
    omega
  have hsmall : ¬(-k : ℤ) < -(2 ^ Format.binary64.exponentBits + n.log2) := by
    have : (2 : ℤ) ^ Format.binary64.exponentBits = 2048 := rfl
    omega
  have hneg : ¬(0 : ℤ) ≤ -k := by omega
  have hpow : (- -(k : ℤ)).toNat = k := by omega
  have hten : 0 < 10 ^ k := Nat.pow_pos (by decide)
  rw [UnpackedFloat.ofScientific, dif_neg hn, if_neg hlarge, if_neg hsmall, if_neg hneg]
  refine Eq.trans (congrArg (UnpackedFloat.div _ _) ?_) (div_exact h (Nat.pos_of_ne_zero hn) hten heq)
  exact finite_congr rfl (congrArg (10 ^ ·) hpow) rfl

end Rounding

end SplitFleet.Lib
