import IndentedSass.Decimal.Binary
import Mathlib

/-!
# Doubles as rationals

A finite double is a rational (`toRat?`), the one that `Dyadic.ofFloat?` takes it apart into. This
module shows which operations on doubles are those on rationals. Comparison is (`lt_iff_toRat`), and
so are negation and the product with one and minus one, since the parts stay as they are. A sum is
rounded, but not if it is a double itself (`toRat?_add`).

The parts of a double come in one form, that of `Dyadic.Fits`. Everything rests on three facts about
it: taking a double apart gives such a form (`Dyadic.fits_of_ofFloat?`), such a form is packed
without loss (`Dyadic.ofFloat?_pack`), and rounding ends at it from every other way to write the
same number (`Dyadic.Fits.round_eq`).
-/

namespace IndentedSass.Decimal
open Float.Model UnpackedFloat

namespace Dyadic

/-- The sign of a number. -/
def sign (d : Dyadic) : Sign := if d.negative then .negative else .positive

/-- The number as the arithmetic of doubles takes it. -/
def unpacked (d : Dyadic) : UnpackedFloat :=
  if h : d.mant = 0 then .zero d.sign else .finite d.sign d.mant d.exp (Nat.pos_of_ne_zero h)

/-- The number as a rational. -/
def toRat (d : Dyadic) : ℚ := d.sign.apply d.mant * 2 ^ d.exp

/-- The form in which a double is taken apart: the mantissa has all its bits, unless the exponent is
the least. -/
structure Fits (d : Dyadic) : Prop where
  mant_lt : d.mant < 2 ^ 53
  le_exp : -1074 ≤ d.exp
  exp_le : d.exp ≤ 971
  normal : 2 ^ 52 ≤ d.mant ∨ d.exp = -1074

/-- The number with another sign. -/
def signed (d : Dyadic) (s : Sign) : Dyadic := { d with negative := s == .negative }

theorem sign_signed (d : Dyadic) (s : Sign) : (d.signed s).sign = s := by
  cases s <;> rfl

theorem Fits.signed {d : Dyadic} (h : d.Fits) (s : Sign) : (d.signed s).Fits :=
  ⟨h.mant_lt, h.le_exp, h.exp_le, h.normal⟩

theorem unpacked_signed (d : Dyadic) (s : Sign) : (d.signed s).unpacked =
    if h : d.mant = 0 then .zero s else .finite s d.mant d.exp (Nat.pos_of_ne_zero h) := by
  rw [unpacked, sign_signed]
  rfl

theorem toRat_signed (d : Dyadic) (s : Sign) :
    (d.signed s).toRat = (s.apply d.mant : ℤ) * 2 ^ d.exp := by
  rw [toRat, sign_signed]
  rfl

theorem unpacked_of_zero {d : Dyadic} (h : d.mant = 0) : d.unpacked = .zero d.sign := dif_pos h

theorem unpacked_of_ne_zero {d : Dyadic} (h : d.mant ≠ 0) :
    d.unpacked = .finite d.sign d.mant d.exp (Nat.pos_of_ne_zero h) := dif_neg h

theorem fits_zero : (⟨false, 0, -1074⟩ : Dyadic).Fits := by
  constructor <;> decide

theorem toRat_eq_zero_iff (d : Dyadic) : d.toRat = 0 ↔ d.mant = 0 := by
  have hscale : (2 : ℚ) ^ d.exp ≠ 0 := zpow_ne_zero _ two_ne_zero
  rw [toRat, mul_eq_zero, or_iff_left hscale]
  cases d.sign <;> simp [Sign.apply]

end Dyadic

/-! ## Signs -/

theorem apply_neg (s : Sign) (n : Int) : (-s).apply n = -s.apply n := by
  cases s
  · exact (Int.neg_neg n).symm
  · rfl

theorem apply_mul (s t : Sign) (n : Int) : (s * t).apply n = s.apply 1 * t.apply n := by
  cases s <;> cases t <;> simp only [Sign.apply, HMul.hMul, Mul.mul] <;> grind

/-- A mantissa may be scaled and the exponent lowered. -/
theorem apply_scaled (s : Sign) (m : Nat) {e f : Int} (h : f ≤ e) :
    ((s.apply (m <<< (e - f).toNat : Nat) : ℤ) : ℚ) * 2 ^ f = (s.apply m : ℤ) * 2 ^ e := by
  obtain ⟨k, rfl⟩ := Int.le.dest h
  have hk : (f + k - f).toNat = k := by omega
  rw [hk, Nat.shiftLeft_eq, zpow_add₀ two_ne_zero, zpow_natCast]
  cases s <;> simp only [Sign.apply] <;> push_cast <;> ring

/-! ## Bits -/

theorem toNat_unpackMantissa (b : BitVec 64) :
    (@unpackMantissa .binary64 b).toNat = b.toNat % 2 ^ 52 := by
  simp [unpackMantissa]

theorem toNat_unpackExponent (b : BitVec 64) :
    (@unpackExponent .binary64 b).toNat = b.toNat / 2 ^ 52 % 2 ^ 11 := by
  simp [unpackExponent, Nat.shiftRight_eq_div_pow]

theorem toNat_unpackSign (b : BitVec 64) :
    (@unpackSign .binary64 b).toNat = b.toNat / 2 ^ 63 := by
  have hbits := b.isLt
  simp [unpackSign, Nat.shiftRight_eq_div_pow]
  omega

theorem ofBitVec_unpackSign (b : BitVec 64) :
    Sign.ofBitVec (@unpackSign .binary64 b) =
      if 2 ^ 63 ≤ b.toNat then .negative else .positive := by
  have hbits := b.isLt
  have hsign := toNat_unpackSign b
  by_cases hneg : 2 ^ 63 ≤ b.toNat
  · have hone : @unpackSign .binary64 b ≠ 0#1 := by
      intro hzero
      rw [hzero, BitVec.toNat_ofNat] at hsign
      omega
    rw [Sign.ofBitVec, if_neg hone, if_pos hneg]
  · have hzero : @unpackSign .binary64 b = 0#1 := by
      apply BitVec.eq_of_toNat_eq
      rw [hsign, BitVec.toNat_ofNat]
      omega
    rw [Sign.ofBitVec, if_pos hzero, if_neg hneg]

theorem toNat_one_append (m : BitVec 52) : (1#1 ++ m).toNat = 2 ^ 52 + m.toNat := by
  rw [BitVec.toNat_append, ← Nat.shiftLeft_add_eq_or_of_lt m.isLt]
  rfl

theorem toNat_packComponents (s : Sign) (e : BitVec 11) (m : BitVec 52) :
    (packComponents .binary64 s e m).toNat =
      s.toBitVec.toNat * 2 ^ 63 + e.toNat * 2 ^ 52 + m.toNat := by
  rw [packComponents, BitVec.toNat_append, ← Nat.shiftLeft_add_eq_or_of_lt m.isLt,
    BitVec.toNat_append, ← Nat.shiftLeft_add_eq_or_of_lt e.isLt, Nat.shiftLeft_eq, Nat.shiftLeft_eq]
  omega

namespace Dyadic

theorem fits_of_ofFloat? {x : Float} {d : Dyadic} (h : ofFloat? x = some d) : d.Fits := by
  simp only [ofFloat?, Nat.pow_eq] at h
  split at h
  · cases h
  · split at h
    · cases h
      constructor <;> dsimp only <;> omega
    · cases h
      constructor <;> dsimp only <;> omega

/-- The parts of a double are those that its arithmetic uses. -/
theorem unpack_eq {x : Float} {d : Dyadic} (h : ofFloat? x = some d) :
    x.toModel.unpack = d.unpacked := by
  have hmant := toNat_unpackMantissa x.toModel.toBits.toBitVec
  have hexp := toNat_unpackExponent x.toModel.toBits.toBitVec
  have hsign := ofBitVec_unpackSign x.toModel.toBits.toBitVec
  have hbits : x.toModel.toBits.toBitVec.toNat = x.toBits.toNat := rfl
  rw [hbits] at hmant hexp hsign
  simp only [ofFloat?, Nat.pow_eq] at h
  split at h
  · cases h
  · rename_i hfinite
    have hones : @unpackExponent .binary64 x.toModel.toBits.toBitVec ≠ -1#11 := by
      intro hones
      rw [hones] at hexp
      exact hfinite hexp.symm
    rw [Float.Model.unpack, UnpackedFloat.unpack, if_neg hones]
    split at h
    · rename_i hsubnormal
      have hzeros : @unpackExponent .binary64 x.toModel.toBits.toBitVec = 0#11 :=
        BitVec.eq_of_toNat_eq (hexp.trans hsubnormal)
      cases h
      rw [if_pos hzeros]
      by_cases hm : x.toBits.toNat % 2 ^ 52 = 0
      · have hfraction : @unpackMantissa .binary64 x.toModel.toBits.toBitVec = 0#52 :=
          BitVec.eq_of_toNat_eq (hmant.trans hm)
        rw [dif_pos hfraction, unpacked_of_zero hm, sign]
        simp [hsign]
      · have hfraction : @unpackMantissa .binary64 x.toModel.toBits.toBitVec ≠ 0#52 := by
          intro hzero
          rw [hzero] at hmant
          exact hm hmant.symm
        rw [dif_neg hfraction, unpacked_of_ne_zero hm, sign]
        simp [hsign, hmant, hexp, hsubnormal, Format.exponentBias]
    · rename_i hnormal
      have hzeros : @unpackExponent .binary64 x.toModel.toBits.toBitVec ≠ 0#11 := by
        intro hzero
        rw [hzero] at hexp
        exact hnormal hexp.symm
      cases h
      have hmantissa := (toNat_one_append (@unpackMantissa .binary64 _)).trans
        (congrArg (2 ^ 52 + ·) hmant)
      rw [if_neg hzeros, unpacked_of_ne_zero (by dsimp only; omega), sign]
      simp only [hsign, hmantissa, hexp, Format.exponentBias, decide_eq_true_eq]
      congr 1

/-- A form that fits is found in the bits that it has. -/
theorem Fits.ofFloat?_eq {d : Dyadic} (h : d.Fits) {x : Float} (hbits : x.toBits.toNat =
      d.sign.toBitVec.toNat * 2 ^ 63 +
        (if d.mant < 2 ^ 52 then d.mant else (d.exp + 1075).toNat * 2 ^ 52 + (d.mant - 2 ^ 52))) :
    ofFloat? x = some d := by
  obtain ⟨negative, mant, exp⟩ := d
  obtain ⟨hmant, hlow, hhigh, hnormal⟩ := h
  dsimp only at hmant hlow hhigh hnormal hbits
  have hbit : (sign ⟨negative, mant, exp⟩).toBitVec.toNat = 0 ∧ negative = false ∨
      (sign ⟨negative, mant, exp⟩).toBitVec.toNat = 1 ∧ negative = true := by
    cases negative
    · exact .inl ⟨rfl, rfl⟩
    · exact .inr ⟨rfl, rfl⟩
  generalize (sign ⟨negative, mant, exp⟩).toBitVec.toNat = bit at hbits hbit
  have hnegative : ∀ low, low < 2 ^ 63 → x.toBits.toNat = bit * 2 ^ 63 + low →
      decide (2 ^ 63 ≤ x.toBits.toNat) = negative := by
    intro low hlow hx
    rcases hbit with ⟨rfl, rfl⟩ | ⟨rfl, rfl⟩
    · exact decide_eq_false (by omega)
    · exact decide_eq_true (by omega)
  simp only [ofFloat?, Nat.pow_eq]
  by_cases hsmall : mant < 2 ^ 52
  · rw [if_pos hsmall] at hbits
    obtain rfl : exp = -1074 := by omega
    rw [if_neg (by omega), if_pos (by omega), hnegative mant (by omega) hbits,
      show x.toBits.toNat % 2 ^ 52 = mant by omega]
  · rw [if_neg hsmall] at hbits
    rw [if_neg (by omega), if_neg (by omega), hnegative _ (by omega) hbits,
      show 2 ^ 52 + x.toBits.toNat % 2 ^ 52 = mant by omega,
      show ((x.toBits.toNat / 2 ^ 52 % 2 ^ 11 : Nat) : Int) - 1075 = exp by omega]

/-- A form that fits is packed without loss. -/
theorem ofFloat?_pack {d : Dyadic} (h : d.Fits) :
    ofFloat? (.ofModel (Float.Model.pack d.unpacked)) = some d := by
  apply h.ofFloat?_eq
  show (UnpackedFloat.pack .binary64 d.unpacked).toNat = _
  obtain ⟨hmant, hlow, hhigh, hnormal⟩ := h
  have hbits : Format.mantissaBits .binary64 = 53 := rfl
  have hbias : Format.exponentBias .binary64 = 1023 := rfl
  by_cases hm : d.mant = 0
  · rw [unpacked_of_zero hm, hm, UnpackedFloat.pack, packedZero, toNat_packComponents]
    simp
  · rw [unpacked_of_ne_zero hm, UnpackedFloat.pack]
    have hbiased : (d.exp + (Format.exponentBias .binary64 : Nat) + (52 : Nat)).toNat =
        (d.exp + 1075).toNat := by
      rw [hbias]
      omega
    dsimp only
    rw [hbiased, if_neg (by omega), hbits]
    by_cases hsmall : d.mant < 2 ^ 52
    · have hlog := (Nat.log2_lt hm).2 hsmall
      rw [if_neg (by omega), toNat_packComponents, if_pos hsmall]
      simp only [BitVec.toNat_ofNat, Nat.zero_mod, Nat.mod_eq_of_lt hsmall]
      omega
    · have hlog : d.mant.log2 = 52 := by
        have hupper := (Nat.log2_lt hm).2 hmant
        have hlower := (Nat.le_log2 hm).2 (Nat.le_of_not_lt hsmall)
        omega
      rw [if_pos (by omega), toNat_packComponents, if_neg hsmall]
      simp only [BitVec.toNat_ofNat]
      omega

end Dyadic

/-! ## Rounding -/

theorem log2_mul_two_pow {m : Nat} (hm : m ≠ 0) (k : Nat) : (m * 2 ^ k).log2 = m.log2 + k := by
  induction k with
  | zero => simp
  | succ k ih =>
    have hne : m * 2 ^ k ≠ 0 := by positivity
    rw [Nat.pow_succ, ← Nat.mul_assoc, Nat.mul_comm, Nat.log2_two_mul hne, ih, Nat.add_assoc]

/-- Shifting zeros out loses nothing. -/
theorem shiftRight_exact (m k : Nat) :
    (⟨m * 2 ^ k, false, false⟩ : ExtendedMantissa) >>> k = ⟨m, false, false⟩ := by
  have hrepeat : ∀ j, Nat.repeat ExtendedMantissa.shiftRightOne k ⟨m * 2 ^ (j + k), false, false⟩ =
      ⟨m * 2 ^ j, false, false⟩ := by
    induction k with
    | zero => simp [Nat.repeat]
    | succ k ih =>
      intro j
      rw [Nat.repeat, show j + (k + 1) = (j + 1) + k by omega, ih, ExtendedMantissa.shiftRightOne]
      simp [Nat.pow_succ, ← Nat.mul_assoc]
  show Nat.repeat ExtendedMantissa.shiftRightOne k _ = _
  simpa using hrepeat 0

/-- Of two ways to write a number, the one with the smaller exponent has the larger mantissa. -/
theorem mant_eq_of_le {m n : Nat} {e f : Int} (h : (m : ℚ) * 2 ^ e = n * 2 ^ f) (hle : f ≤ e) :
    n = m * 2 ^ (e - f).toNat := by
  obtain ⟨k, rfl⟩ := Int.le.dest hle
  have hk : (f + k - f).toNat = k := by omega
  rw [zpow_add₀ two_ne_zero, zpow_natCast, mul_comm (2 ^ f : ℚ), ← mul_assoc] at h
  have hcancel : (m : ℚ) * 2 ^ k = n := mul_right_cancel₀ (zpow_ne_zero f two_ne_zero) h
  rw [hk]
  exact_mod_cast hcancel.symm

namespace Dyadic.Fits
variable {d : Dyadic}

/-- The exponent is the one that rounding aims at, however the mantissa is scaled. -/
theorem targetExponent_eq (h : d.Fits) (hm : d.mant ≠ 0) {m : Nat} {e : Int}
    (hsame : (m.log2 : Int) + e = d.mant.log2 + d.exp) :
    Format.binary64.targetExponent (totalExponent m e) = d.exp := by
  obtain ⟨hmant, hlow, hhigh, hnormal⟩ := h
  have hupper := (Nat.log2_lt hm).2 hmant
  have hbits : Format.mantissaBits .binary64 = 53 := rfl
  have hleast : Format.minExponent .binary64 = -1074 := rfl
  rw [Format.targetExponent, totalExponent, hbits, hleast]
  rcases hnormal with hnormal | hnormal
  · have hlower := (Nat.le_log2 hm).2 hnormal
    omega
  · omega

theorem roundWithAccuracy_eq (h : d.Fits) (hm : d.mant ≠ 0) (s : Sign) (k : Nat) :
    roundWithAccuracy .binary64 s (d.mant * 2 ^ k) (d.exp - k) .exact =
      .finite s d.mant d.exp (Nat.pos_of_ne_zero hm) := by
  have hfirst : shiftToTargetExponent .binary64 (d.mant * 2 ^ k) (d.exp - k) .exact =
      (⟨d.mant, false, false⟩, d.exp) := by
    have hsame : ((d.mant * 2 ^ k).log2 : Int) + (d.exp - k) = d.mant.log2 + d.exp := by
      rw [log2_mul_two_pow hm]
      omega
    have hshift : (d.exp - (d.exp - k)).toNat = k := by omega
    rw [shiftToTargetExponent, h.targetExponent_eq hm hsame, shiftToExponent]
    simp only [hshift, ExtendedMantissa.ofMantissaAndAccuracy, shiftRight_exact]
    congr 1
    omega
  -- nothing was rounded up, so the second shift has nothing to do
  have hsecond : shiftToTargetExponent .binary64 d.mant d.exp .exact =
      (⟨d.mant, false, false⟩, d.exp) := by
    rw [shiftToTargetExponent, h.targetExponent_eq hm rfl, shiftToExponent]
    simp only [Int.sub_self]
    exact Prod.ext rfl (Int.add_zero _)
  have hrounded : (⟨d.mant, false, false⟩ : ExtendedMantissa).roundedMantissa = d.mant := rfl
  simp only [roundWithAccuracy, hfirst, hrounded, hsecond]
  rw [dif_neg hm]

/-- **A double is not rounded**, whatever way it is written. -/
theorem round_eq (h : d.Fits) (hm : d.mant ≠ 0) (s : Sign) {m : Nat} {e : Int}
    (hsame : (m : ℚ) * 2 ^ e = d.mant * 2 ^ d.exp) :
    UnpackedFloat.round .binary64 s m e = .finite s d.mant d.exp (Nat.pos_of_ne_zero hm) := by
  rcases Int.le_total d.exp e with hle | hle
  · -- the mantissa is too short
    have hmant := mant_eq_of_le hsame hle
    have hne : m ≠ 0 := by
      rintro rfl
      exact hm (by simpa using hmant)
    have hlog := log2_mul_two_pow hne (e - d.exp).toNat
    rw [← hmant] at hlog
    have htarget : Format.binary64.targetExponent (totalExponent m e) = d.exp :=
      h.targetExponent_eq hm (by omega)
    have hround := h.roundWithAccuracy_eq hm s 0
    simp only [UnpackedFloat.round, htarget, decreaseExponent, Nat.shiftLeft_eq, ← hmant]
    rw [show e - ((e - d.exp).toNat : Int) = d.exp by omega]
    simpa using hround
  · -- the mantissa is too long
    have hmant := mant_eq_of_le hsame.symm hle
    have hlog := log2_mul_two_pow hm (d.exp - e).toNat
    rw [← hmant] at hlog
    have htarget : Format.binary64.targetExponent (totalExponent m e) = d.exp :=
      h.targetExponent_eq hm (by omega)
    have hround := h.roundWithAccuracy_eq hm s (d.exp - e).toNat
    rw [← hmant, show d.exp - ((d.exp - e).toNat : Int) = e by omega] at hround
    have hshift : (e - d.exp).toNat = 0 := by omega
    simp only [UnpackedFloat.round, htarget, decreaseExponent, hshift]
    simpa using hround

theorem round_unpacked (h : d.Fits) (s : Sign) {m : Nat} {e : Int} (hm : m ≠ 0)
    (hsame : d.toRat = (s.apply m : ℤ) * 2 ^ e) :
    UnpackedFloat.round .binary64 s m e = d.unpacked := by
  have hpos : (0 : ℚ) < m * 2 ^ e := mul_pos (by positivity) (zpow_pos two_pos e)
  have hnonneg : (0 : ℚ) ≤ d.mant * 2 ^ d.exp :=
    mul_nonneg (Nat.cast_nonneg _) (zpow_pos two_pos d.exp).le
  -- the signs are the same, since the number is not zero
  have hboth : s = d.sign ∧ (m : ℚ) * 2 ^ e = d.mant * 2 ^ d.exp := by
    rw [toRat] at hsame
    cases hs : d.sign <;> cases s <;> simp [hs, Sign.apply] at hsame ⊢ <;> linarith
  obtain ⟨rfl, hmant⟩ := hboth
  have hne : d.mant ≠ 0 := by
    intro hzero
    rw [hmant, hzero, Nat.cast_zero, zero_mul] at hpos
    exact lt_irrefl _ hpos
  rw [h.round_eq hne d.sign hmant, unpacked_of_ne_zero hne]

theorem normalize_eq (h : d.Fits) {m e : ℤ} (hsame : d.toRat = m * 2 ^ e) :
    ∃ d' : Dyadic, d'.Fits ∧ d'.toRat = d.toRat ∧
      UnpackedFloat.normalize .binary64 m e .positive = d'.unpacked := by
  rcases lt_trichotomy m 0 with hm | rfl | hm
  · have hvalue : d.toRat = (Sign.negative.apply (-m).toNat : ℤ) * 2 ^ e := by
      rw [hsame, Sign.apply, Int.toNat_of_nonneg (by omega), neg_neg]
    refine ⟨d, h, rfl, ?_⟩
    rw [UnpackedFloat.normalize, Int.compare_eq_lt.2 hm]
    exact h.round_unpacked .negative (by omega) hvalue
  · refine ⟨_, fits_zero, ?_, rfl⟩
    rw [hsame, Int.cast_zero, zero_mul]
    exact (toRat_eq_zero_iff _).2 rfl
  · have hvalue : d.toRat = (Sign.positive.apply m.toNat : ℤ) * 2 ^ e := by
      rw [hsame, Sign.apply, Int.toNat_of_nonneg (by omega)]
    refine ⟨d, h, rfl, ?_⟩
    rw [UnpackedFloat.normalize, Int.compare_eq_gt.2 hm]
    exact h.round_unpacked .positive (by omega) hvalue

/-! ## Order of parts -/

variable {a b : Dyadic}

theorem lt_of_exp_lt (ha : a.Fits) (hb : b.Fits) (h : a.exp < b.exp) :
    (a.mant : ℚ) * 2 ^ a.exp < b.mant * 2 ^ b.exp := by
  have hnormal : 2 ^ 52 ≤ b.mant := by
    have hlow := ha.le_exp
    rcases hb.normal with hnormal | hleast
    · exact hnormal
    · omega
  have hscale : (0 : ℚ) < 2 ^ a.exp := zpow_pos two_pos _
  calc (a.mant : ℚ) * 2 ^ a.exp < 2 ^ 53 * 2 ^ a.exp := by
        have hmant : (a.mant : ℚ) < 2 ^ 53 := by exact_mod_cast ha.mant_lt
        exact mul_lt_mul_of_pos_right hmant hscale
    _ = 2 ^ 52 * 2 ^ (a.exp + 1) := by
        rw [zpow_add_one₀ two_ne_zero]
        ring
    _ ≤ b.mant * 2 ^ b.exp := by
        have hmant : (2 ^ 52 : ℚ) ≤ b.mant := by exact_mod_cast hnormal
        exact mul_le_mul hmant (zpow_le_zpow_right₀ one_le_two h) (zpow_pos two_pos _).le
          (Nat.cast_nonneg _)

/-- The exponent decides, and then the mantissa. -/
theorem lt_iff (ha : a.Fits) (hb : b.Fits) :
    (a.mant : ℚ) * 2 ^ a.exp < b.mant * 2 ^ b.exp ↔
      a.exp < b.exp ∨ a.exp = b.exp ∧ a.mant < b.mant := by
  rcases Int.lt_trichotomy a.exp b.exp with h | h | h
  · exact iff_of_true (ha.lt_of_exp_lt hb h) (.inl h)
  · have hscale : (0 : ℚ) < 2 ^ b.exp := zpow_pos two_pos _
    rw [h, mul_lt_mul_iff_of_pos_right hscale, Nat.cast_lt]
    simp
  · exact iff_of_false (hb.lt_of_exp_lt ha h).asymm (by omega)

theorem compare_eq_lt_iff (ha : a.Fits) (hb : b.Fits) :
    (compare a.exp b.exp).then (compare a.mant b.mant) = .lt ↔
      (a.mant : ℚ) * 2 ^ a.exp < b.mant * 2 ^ b.exp := by
  rw [ha.lt_iff hb, Ordering.then_eq_lt, Int.compare_eq_lt, Int.compare_eq_eq, Nat.compare_eq_lt]

theorem unpacked_lt_iff (ha : a.Fits) (hb : b.Fits) :
    UnpackedFloat.lt a.unpacked b.unpacked = true ↔ a.toRat < b.toRat := by
  have hpos : ∀ {d : Dyadic}, ¬d.mant = 0 → (0 : ℚ) < d.mant * 2 ^ d.exp :=
    fun h => mul_pos (by positivity) (zpow_pos two_pos _)
  rw [toRat, toRat, UnpackedFloat.lt]
  by_cases hm : a.mant = 0
  · by_cases hn : b.mant = 0
    · rw [unpacked_of_zero hm, unpacked_of_zero hn, hm, hn]
      cases a.sign <;> cases b.sign <;> simp [UnpackedFloat.compare, Sign.apply]
    · have hright := hpos hn
      rw [unpacked_of_zero hm, unpacked_of_ne_zero hn, hm]
      cases a.sign <;> cases b.sign <;> simp [UnpackedFloat.compare, Sign.apply] <;> linarith
  · have hleft := hpos hm
    by_cases hn : b.mant = 0
    · rw [unpacked_of_ne_zero hm, unpacked_of_zero hn, hn]
      cases a.sign <;> cases b.sign <;> simp [UnpackedFloat.compare, Sign.apply] <;> linarith
    · have hright := hpos hn
      rw [unpacked_of_ne_zero hm, unpacked_of_ne_zero hn]
      cases a.sign <;> cases b.sign <;> simp [UnpackedFloat.compare, Sign.apply]
      · -- both are negative, so the order is turned around
        rw [← hb.compare_eq_lt_iff ha, ← Ordering.swap_eq_lt, Ordering.swap_then, Int.compare_swap,
          Nat.compare_swap]
      · linarith
      · linarith
      · exact ha.compare_eq_lt_iff hb

end Dyadic.Fits

/-! ## Doubles and their rationals -/

/-- The rational that a finite double is. -/
def toRat? (x : Float) : Option ℚ := (Dyadic.ofFloat? x).map Dyadic.toRat

section
variable {x y : Float} {p q : ℚ}

theorem exists_fits (h : toRat? x = some q) :
    ∃ d : Dyadic, d.Fits ∧ x.toModel.unpack = d.unpacked ∧ d.toRat = q := by
  obtain ⟨d, hd, hq⟩ := Option.map_eq_some_iff.1 h
  exact ⟨d, Dyadic.fits_of_ofFloat? hd, Dyadic.unpack_eq hd, hq⟩

theorem toRat?_of_parts {d : Dyadic} (h : Dyadic.ofFloat? x = some d) (hd : d.toRat = q) :
    toRat? x = some q := by
  rw [toRat?, h, Option.map_some, hd]

theorem toRat?_pack {d : Dyadic} (h : d.Fits) :
    toRat? (.ofModel (Float.Model.pack d.unpacked)) = some d.toRat :=
  toRat?_of_parts (Dyadic.ofFloat?_pack h) rfl

theorem toRat?_zero : toRat? 0 = some 0 := by
  have hparts : Dyadic.ofFloat? 0 = some ⟨false, 0, -1074⟩ := by decide +kernel
  exact toRat?_of_parts hparts ((Dyadic.toRat_eq_zero_iff _).2 rfl)

theorem toRat?_one : toRat? 1 = some 1 := by
  have hparts : Dyadic.ofFloat? 1 = some ⟨false, 2 ^ 52, -52⟩ := by decide +kernel
  exact toRat?_of_parts hparts (by norm_num [Dyadic.toRat, Dyadic.sign, Sign.apply])

/-- **Doubles are ordered as rationals are.** -/
theorem lt_iff_toRat (hx : toRat? x = some p) (hy : toRat? y = some q) : x < y ↔ p < q := by
  obtain ⟨a, ha, hunpack, rfl⟩ := exists_fits hx
  obtain ⟨b, hb, hunpack', rfl⟩ := exists_fits hy
  have hlt : x < y ↔ UnpackedFloat.lt x.toModel.unpack y.toModel.unpack = true :=
    decide_eq_true_iff
  rw [hlt, hunpack, hunpack', ha.unpacked_lt_iff hb]

theorem ne_zero_of_beq (hx : toRat? x = some q) (h : (x == 0) = false) : q ≠ 0 := by
  obtain ⟨d, -, hunpack, rfl⟩ := exists_fits hx
  intro hzero
  have hbeq : (x == 0) = UnpackedFloat.beq x.toModel.unpack (.zero .positive) := rfl
  rw [hbeq, hunpack, Dyadic.unpacked_of_zero ((Dyadic.toRat_eq_zero_iff d).1 hzero)] at h
  cases h

theorem toRat?_neg (h : toRat? x = some q) : toRat? (-x) = some (-q) := by
  obtain ⟨d, hfits, hunpack, rfl⟩ := exists_fits h
  have hneg : d.unpacked.neg = (d.signed (-d.sign)).unpacked := by
    rw [Dyadic.unpacked_signed, Dyadic.unpacked]
    split <;> rfl
  have hvalue : (d.signed (-d.sign)).toRat = -d.toRat := by
    rw [Dyadic.toRat_signed, Dyadic.toRat, apply_neg]
    push_cast
    ring
  show toRat? (.ofModel (Float.Model.pack x.toModel.unpack.neg)) = _
  rw [hunpack, hneg, toRat?_pack (hfits.signed _), hvalue]

/-- A product with one or minus one is exact. -/
theorem toRat?_unit_mul {u : Float} {s : Sign}
    (hu : u.toModel.unpack = .finite s (2 ^ 52) (-52) (by decide)) (h : toRat? x = some q) :
    toRat? (u * x) = some ((s.apply 1 : ℤ) * q) := by
  obtain ⟨d, hfits, hunpack, rfl⟩ := exists_fits h
  have hmul : UnpackedFloat.mul .binary64 (.finite s (2 ^ 52) (-52) (by decide)) d.unpacked =
      (d.signed (s * d.sign)).unpacked := by
    rw [Dyadic.unpacked_signed]
    by_cases hm : d.mant = 0
    · rw [dif_pos hm, Dyadic.unpacked_of_zero hm, UnpackedFloat.mul]
    · have hround := hfits.roundWithAccuracy_eq hm (s * d.sign) 52
      rw [dif_neg hm, Dyadic.unpacked_of_ne_zero hm, UnpackedFloat.mul, Nat.mul_comm, Int.add_comm]
      exact hround
  have hvalue : (d.signed (s * d.sign)).toRat = (s.apply 1 : ℤ) * d.toRat := by
    rw [Dyadic.toRat_signed, Dyadic.toRat, apply_mul]
    push_cast
    ring
  show toRat? (.ofModel (Float.Model.pack (UnpackedFloat.mul .binary64 _ _))) = _
  rw [hu, hunpack, hmul, toRat?_pack (hfits.signed _), hvalue]

/-- The sum of two forms, if it is a double, is the sum of their rationals. -/
theorem Dyadic.Fits.exists_add {a b c : Dyadic} (ha : a.Fits) (hb : b.Fits) (hc : c.Fits)
    (hsum : c.toRat = a.toRat + b.toRat) :
    ∃ d : Dyadic, d.Fits ∧ d.toRat = a.toRat + b.toRat ∧
      UnpackedFloat.add .binary64 a.unpacked b.unpacked = d.unpacked := by
  by_cases hm : a.mant = 0
  · have hleft := (Dyadic.toRat_eq_zero_iff a).2 hm
    by_cases hn : b.mant = 0
    · have hright := (Dyadic.toRat_eq_zero_iff b).2 hn
      refine ⟨.signed ⟨false, 0, -1074⟩ (if a.sign == b.sign then a.sign else .positive),
        Dyadic.fits_zero.signed _, ?_, ?_⟩
      · rw [hleft, hright, add_zero]
        exact (Dyadic.toRat_eq_zero_iff _).2 rfl
      · rw [Dyadic.unpacked_of_zero hm, Dyadic.unpacked_of_zero hn, UnpackedFloat.add,
          Dyadic.unpacked_signed]
        split <;> rfl
    · refine ⟨b, hb, by rw [hleft, zero_add], ?_⟩
      rw [Dyadic.unpacked_of_zero hm, Dyadic.unpacked_of_ne_zero hn]
      rfl
  · by_cases hn : b.mant = 0
    · have hright := (Dyadic.toRat_eq_zero_iff b).2 hn
      refine ⟨a, ha, by rw [hright, add_zero], ?_⟩
      rw [Dyadic.unpacked_of_ne_zero hm, Dyadic.unpacked_of_zero hn]
      rfl
    · have hsame : c.toRat = ((a.sign.apply (a.mant <<< (a.exp - min a.exp b.exp).toNat : Nat) +
          b.sign.apply (b.mant <<< (b.exp - min a.exp b.exp).toNat : Nat) : ℤ) : ℚ) *
          2 ^ min a.exp b.exp := by
        rw [Int.cast_add, add_mul, apply_scaled _ _ (min_le_left _ _),
          apply_scaled _ _ (min_le_right _ _), hsum]
        rfl
      obtain ⟨d, hd, hvalue, hnorm⟩ := hc.normalize_eq hsame
      refine ⟨d, hd, hvalue.trans hsum, ?_⟩
      rw [Dyadic.unpacked_of_ne_zero hm, Dyadic.unpacked_of_ne_zero hn, UnpackedFloat.add]
      exact hnorm

/-- **A sum that is a double is exact.** -/
theorem toRat?_add {z : Float} (hx : toRat? x = some p) (hy : toRat? y = some q)
    (hz : toRat? z = some (p + q)) : toRat? (x + y) = some (p + q) := by
  obtain ⟨a, ha, hunpack, rfl⟩ := exists_fits hx
  obtain ⟨b, hb, hunpack', rfl⟩ := exists_fits hy
  obtain ⟨c, hc, -, hsum⟩ := exists_fits hz
  obtain ⟨d, hd, hvalue, hadd⟩ := ha.exists_add hb hc hsum
  show toRat? (.ofModel (Float.Model.pack (UnpackedFloat.add .binary64 _ _))) = _
  rw [hunpack, hunpack', hadd, toRat?_pack hd, hvalue]

end

end IndentedSass.Decimal
