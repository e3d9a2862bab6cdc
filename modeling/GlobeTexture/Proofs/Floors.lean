import GlobeTexture.Word.Floor
import Mathlib.Data.Rat.Floor

/-! # Floors of exact values

A float is a sign, a mantissa and a power of two, or no number at all. The floor that is read off its bits is the floor of
the exact value, moved into the signed words. -/

namespace GlobeTexture

open Float.Model Float.Model.UnpackedFloat

/-- The floor of what a float stands for, as a signed word. -/
def Word.floorOf : UnpackedFloat → Int
  | .notANumber => 0
  | .infinity .positive => signedLimit - 1
  | .infinity .negative => -signedLimit
  | .zero _ => 0
  | .finite s m e _ => saturate ⌊(s.apply m : ℚ) * 2 ^ e⌋

theorem Word.floorOf_of_isNaN {x : UnpackedFloat} (h : x.isNaN = true) : floorOf x = 0 := by
  cases x with
  | notANumber => rfl
  | _ => cases h

namespace Binary64

variable (b : BitVec Format.binary64.numBits)

theorem toNat_unpackExponent : (unpackExponent b).toNat = (b.toNat >>> 52) % (1 <<< 11) := by
  simp only [unpackExponent, BitVec.toNat_cast, BitVec.extractLsb_toNat]
  rfl

theorem toNat_unpackMantissa : (unpackMantissa b).toNat = b.toNat % (1 <<< 52) := by
  simp only [unpackMantissa, BitVec.toNat_cast, BitVec.extractLsb_toNat]
  rfl

theorem unpackSign_eq_zero_iff : unpackSign b = 0#1 ↔ b.toNat >>> 63 = 0 := by
  have hb : b.toNat < 2 ^ 64 := b.isLt
  have hsign : (unpackSign b).toNat = (b.toNat >>> 63) % 2 :=
    (BitVec.toNat_cast _ _).trans (BitVec.extractLsb_toNat ..)
  rw [← BitVec.toNat_inj, hsign, Nat.shiftRight_eq_div_pow]
  simp only [BitVec.toNat_ofNat]
  omega

theorem unpackExponent_eq_max_iff : unpackExponent b = -1#11 ↔ (b.toNat >>> 52) % (1 <<< 11) = 2047 := by
  rw [← BitVec.toNat_inj, toNat_unpackExponent]
  rfl

theorem unpackExponent_eq_zero_iff : unpackExponent b = 0#11 ↔ (b.toNat >>> 52) % (1 <<< 11) = 0 := by
  rw [← BitVec.toNat_inj, toNat_unpackExponent]
  rfl

theorem unpackMantissa_eq_zero_iff : unpackMantissa b = 0#52 ↔ b.toNat % (1 <<< 52) = 0 := by
  rw [← BitVec.toNat_inj, toNat_unpackMantissa]
  rfl

theorem toNat_implicit_unpackMantissa : (1#1 ++ unpackMantissa b).toNat = (1 <<< 52) + b.toNat % (1 <<< 52) := by
  rw [BitVec.toNat_append, ← Nat.shiftLeft_add_eq_or_of_lt (unpackMantissa b).isLt, toNat_unpackMantissa]
  rfl

theorem apply_sign (n : Nat) :
    (Sign.ofBitVec (unpackSign b)).apply n = if b.toNat >>> 63 = 0 then (n : Int) else -n := by
  simp only [Sign.ofBitVec, unpackSign_eq_zero_iff]
  split <;> rfl

end Binary64

namespace Word

theorem scaledFloor_eq (m : Int) (e : Nat) : scaledFloor m e = ⌊(m : ℚ) * 2 ^ ((e : Int) - 1075)⌋ := by
  unfold scaledFloor
  split
  · rename_i h
    obtain ⟨k, rfl⟩ := Nat.exists_eq_add_of_le h
    have hexponent : ((1075 + k : Nat) : Int) - 1075 = (k : Int) := by omega
    rw [hexponent, zpow_natCast, Nat.add_sub_cancel_left, Int.shiftLeft_eq]
    exact_mod_cast (Int.floor_intCast (R := ℚ) (m * 2 ^ k)).symm
  · rename_i h
    obtain ⟨k, hk⟩ := Nat.exists_eq_add_of_le (Nat.le_of_not_le h)
    have hexponent : (e : Int) - 1075 = -(k : Int) := by omega
    have hshift : 1075 - e = k := by omega
    rw [hexponent, hshift, zpow_neg, zpow_natCast, ← div_eq_mul_inv, Int.shiftRight_eq_div_pow]
    exact_mod_cast (Rat.floor_intCast_div_natCast m (2 ^ k)).symm

theorem floorOf_unpack (b : BitVec Format.binary64.numBits) :
    floorOf (UnpackedFloat.unpack .binary64 b) =
      if unpackExponent b = -1#11 then
        if unpackMantissa b = 0#52 then saturate ((Sign.ofBitVec (unpackSign b)).apply signedLimit) else 0
      else if unpackExponent b = 0#11 then
        saturate (scaledFloor ((Sign.ofBitVec (unpackSign b)).apply (unpackMantissa b).toNat) 1)
      else
        saturate (scaledFloor ((Sign.ofBitVec (unpackSign b)).apply (1#1 ++ unpackMantissa b).toNat)
          (unpackExponent b).toNat) := by
  simp only [scaledFloor_eq]
  change floorOf (if unpackExponent b = -1#11 then (if unpackMantissa b = 0#52 then _ else _)
    else if unpackExponent b = 0#11 then (if h : unpackMantissa b = 0#52 then _ else _) else _) = _
  generalize Sign.ofBitVec (unpackSign b) = s
  by_cases hmax : unpackExponent b = -1#11
  · rw [if_pos hmax, if_pos hmax]
    by_cases hmantissa : unpackMantissa b = 0#52
    · rw [if_pos hmantissa, if_pos hmantissa]
      cases s <;> rfl
    · rw [if_neg hmantissa, if_neg hmantissa]
      rfl
  · rw [if_neg hmax, if_neg hmax]
    by_cases hzero : unpackExponent b = 0#11
    · rw [if_pos hzero, if_pos hzero]
      by_cases hmantissa : unpackMantissa b = 0#52
      · have happly : s.apply (0#52).toNat = 0 := by cases s <;> rfl
        rw [dif_pos hmantissa, hmantissa, happly, Int.cast_zero, zero_mul, Int.floor_zero]
        rfl
      · rw [dif_neg hmantissa, hzero]
        rfl
    · rw [if_neg hzero, if_neg hzero]
      rfl

/-- The floor that is read off the bits is that of the exact value. -/
theorem floor_eq_floorOf (v : Float) : floor v = floorOf v.toModel.unpack := by
  rw [Float.Model.unpack, floorOf_unpack]
  have hbits : v.toBits.toNat = v.toModel.toBits.toBitVec.toNat := rfl
  simp only [floor, hbits, ← Binary64.apply_sign]
  refine if_congr (Binary64.unpackExponent_eq_max_iff _).symm ?_ ?_
  · exact if_congr (Binary64.unpackMantissa_eq_zero_iff _).symm rfl rfl
  · refine if_congr (Binary64.unpackExponent_eq_zero_iff _).symm ?_ ?_
    · rw [Binary64.toNat_unpackMantissa]
    · rw [Binary64.toNat_implicit_unpackMantissa, Binary64.toNat_unpackExponent]

end Word

end GlobeTexture
