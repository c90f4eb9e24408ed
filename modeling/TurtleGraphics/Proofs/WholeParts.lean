import TurtleGraphics.Number.Binary

/-!
# TurtleGraphics.Proofs.WholeParts

Doubles cut off to whole numbers of 64 bits. The magnitude of a finite double, which is taken apart by
arithmetic on its bits, is the one that its fields stand for (`magnitude_of_unpack`). A positive double is
converted to the whole part of its magnitude, or to the largest number of 64 bits if that is less
(`toUInt64_of_pos`).
-/

namespace TurtleGraphics
namespace Number

open Float.Model (Format)
open Float.Model.UnpackedFloat

/-- The magnitude cut off to whole. Of the two powers one is 1. -/
def Magnitude.whole (m : Magnitude) : Nat :=
  m.mantissa * Nat.pow 2 m.exponent.toNat / Nat.pow 2 (-m.exponent).toNat

/-! ## Fields of a double -/

theorem toNat_unpackMantissa (b : BitVec 64) :
    (@unpackMantissa Format.binary64 b).toNat = b.toNat % fractionSpan := by
  simp [unpackMantissa, fractionSpan]

theorem toNat_unpackExponent (b : BitVec 64) :
    (@unpackExponent Format.binary64 b).toNat = b.toNat / fractionSpan % exponentSpan := by
  simp [unpackExponent, fractionSpan, exponentSpan, Nat.shiftRight_eq_div_pow]

/-- The leading place of a significand is not written, except by a double near zero. -/
theorem toNat_significand (fraction : BitVec 52) :
    (1#1 ++ fraction).toNat = fractionSpan + fraction.toNat := by
  rw [BitVec.toNat_append, ← Nat.shiftLeft_add_eq_or_of_lt fraction.isLt]
  rfl

theorem magnitude_of_unpack {x : Float} {s : Sign} {m : Nat} {e : Int} {h : 0 < m}
    (hx : x.toModel.unpack = .finite s m e h) : magnitude x = ⟨m, e⟩ := by
  have hbits : x.toModel.toBits.toBitVec.toNat = x.toBits.toNat := rfl
  have hbias : (Format.binary64.exponentBias : Int) = 1023 := rfl
  have hexponent := toNat_unpackExponent x.toModel.toBits.toBitVec
  have hfraction := toNat_unpackMantissa x.toModel.toBits.toBitVec
  rw [hbits] at hexponent hfraction
  delta Float.Model.unpack unpack at hx
  dsimp only at hx
  by_cases hspecial : @unpackExponent Format.binary64 x.toModel.toBits.toBitVec = -1#11
  · rw [if_pos hspecial] at hx
    by_cases hm : @unpackMantissa Format.binary64 x.toModel.toBits.toBitVec = 0#52
    · rw [if_pos hm] at hx
      cases hx
    · rw [if_neg hm] at hx
      cases hx
  · rw [if_neg hspecial] at hx
    by_cases hzero : @unpackExponent Format.binary64 x.toModel.toBits.toBitVec = 0#11
    · rw [if_pos hzero] at hx
      by_cases hm : @unpackMantissa Format.binary64 x.toModel.toBits.toBitVec = 0#52
      · rw [dif_pos hm] at hx
        cases hx
      · rw [dif_neg hm] at hx
        injection hx with _ hmantissa hpower
        subst hmantissa hpower
        have hbiased : x.toBits.toNat / fractionSpan % exponentSpan = 0 := by
          rw [← hexponent, hzero]
          rfl
        rw [magnitude, if_pos hbiased, ← hfraction, hzero, hbias]
        rfl
    · rw [if_neg hzero] at hx
      injection hx with _ hmantissa hpower
      subst hmantissa hpower
      have hbiased : ¬x.toBits.toNat / fractionSpan % exponentSpan = 0 := by
        rw [← hexponent]
        exact fun h => hzero (BitVec.eq_of_toNat_eq h)
      rw [magnitude, if_neg hbiased, ← hfraction, ← hexponent, toNat_significand, hbias]
      rfl

/-! ## Conversion -/

theorem mantissa_shiftRight (em : ExtendedMantissa) (n : Nat) :
    (em >>> n).mantissa = em.mantissa / Nat.pow 2 n := by
  induction n with
  | zero => simp [HShiftRight.hShiftRight, Nat.repeat]
  | succ n ih =>
    have hstep : (em >>> (n + 1)).mantissa = (em >>> n).mantissa / 2 := rfl
    rw [hstep, ih, Nat.div_div_eq_div_mul]
    rfl

theorem roundToInt_positive (m : Nat) (e : Int) :
    roundToInt .positive m e = (Magnitude.whole ⟨m, e⟩ : Int) := by
  have hexact : ∀ n, (ExtendedMantissa.ofMantissaAndAccuracy n .exact).mantissa = n := fun _ => rfl
  have hright : (0 - (e - (e.toNat : Int))).toNat = (-e).toNat := by omega
  simp only [roundToInt, decreaseExponent, shiftToExponent, Sign.apply, mantissa_shiftRight, hexact,
    hright, Int.sub_zero, Nat.shiftLeft_eq]
  rfl

theorem unpack_of_pos {x : Float} (hfinite : x.isFinite = true) (hpos : 0 < x) :
    ∃ m e h, x.toModel.unpack = .finite .positive m e h := by
  have hzero : (0 : Float).toModel.unpack = .zero .positive := rfl
  have hlt : (0 : Float).toModel.unpack.lt x.toModel.unpack = true := of_decide_eq_true hpos
  have hfinite : x.toModel.unpack.isFinite = true := hfinite
  rw [hzero] at hlt
  cases hx : x.toModel.unpack with
  | notANumber =>
    rw [hx] at hfinite
    cases hfinite
  | infinity s =>
    rw [hx] at hfinite
    cases hfinite
  | zero s =>
    rw [hx] at hlt
    cases hlt
  | finite s m e h =>
    rw [hx] at hlt
    cases s with
    | negative => cases hlt
    | positive => exact ⟨m, e, h, rfl⟩

/-- A positive double is converted to its whole part, or to the largest number of 64 bits. -/
theorem toUInt64_of_pos {x : Float} (hfinite : x.isFinite = true) (hpos : 0 < x) :
    x.toUInt64.toNat = min (magnitude x).whole 0xFFFFFFFFFFFFFFFF := by
  obtain ⟨m, e, h, hx⟩ := unpack_of_pos hfinite hpos
  have hconvert : x.toUInt64 = UInt64.ofNatClamp (roundToInt .positive m e).toNat := by
    unfold Float.toUInt64 Float.Model.toUInt64
    rw [hx]
    rfl
  rw [hconvert, roundToInt_positive, Int.toNat_natCast, magnitude_of_unpack hx, UInt64.ofNatClamp]
  split
  · rename_i hsmall
    rw [UInt64.toNat_ofNatLT, Nat.min_eq_left (Nat.le_of_lt_succ hsmall)]
  · rename_i hlarge
    have hlarge : 0xFFFFFFFFFFFFFFFF ≤ Magnitude.whole ⟨m, e⟩ :=
      Nat.le_of_succ_le (Nat.le_of_not_lt hlarge)
    rw [UInt64.toNat_ofNatLT, Nat.min_eq_right hlarge]
    rfl

end Number
end TurtleGraphics
