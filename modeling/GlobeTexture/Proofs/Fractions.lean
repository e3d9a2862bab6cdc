import GlobeTexture.Proofs.Floors

/-! # Quotients of counts

A count up to `2 ^ 53` is a float as it is, and the quotient of two such floats is rounded once. Of two mantissas of 53
bits, the quotient is never so close below a power of two that it is rounded up to it. Hence the quotient of two counts
is one only if they are the same. -/

namespace GlobeTexture

open Float.Model Float.Model.UnpackedFloat

namespace Binary64

/-- A mantissa of all 53 bits. -/
def Normal (m : Nat) : Prop :=
  2 ^ 52 ≤ m ∧ m < 2 ^ 53

theorem Normal.pos {m : Nat} (h : Normal m) : 0 < m :=
  Nat.lt_of_lt_of_le (Nat.two_pow_pos 52) h.1

theorem Normal.log2 {m : Nat} (h : Normal m) : m.log2 = 52 :=
  (Nat.log2_eq_iff (Nat.ne_of_gt h.pos)).mpr h

theorem normal_one : Normal (2 ^ 52) :=
  ⟨Nat.le_refl _, by decide⟩

theorem targetExponent_eq (e : Int) : Format.binary64.targetExponent e = max (e - 53) (-1074) :=
  rfl

/-! ### Rounding -/

theorem mantissa_shiftRight (m k : Nat) (a : Accuracy) :
    (ExtendedMantissa.ofMantissaAndAccuracy m a >>> k).mantissa = m / 2 ^ k := by
  induction k with
  | zero =>
    rw [Nat.pow_zero, Nat.div_one]
    cases a with
    | exact => rfl
    | inexact o => cases o <;> rfl
  | succ k ih =>
    change (ExtendedMantissa.ofMantissaAndAccuracy m a >>> k).mantissa / 2 = _
    rw [ih, Nat.div_div_eq_div_mul, Nat.pow_succ]

theorem shiftRight_exact (m k : Nat) :
    ExtendedMantissa.ofMantissaAndAccuracy (m * 2 ^ k) .exact >>> k = ⟨m, false, false⟩ := by
  induction k generalizing m with
  | zero => simp [HShiftRight.hShiftRight, Nat.repeat, ExtendedMantissa.ofMantissaAndAccuracy]
  | succ k ih =>
    have hstep : m * 2 ^ (k + 1) = m * 2 * 2 ^ k := by rw [Nat.pow_succ', Nat.mul_assoc]
    change ExtendedMantissa.shiftRightOne (ExtendedMantissa.ofMantissaAndAccuracy _ .exact >>> k) = _
    rw [hstep, ih]
    simp [ExtendedMantissa.shiftRightOne]

theorem roundedMantissa_bounds (em : ExtendedMantissa) :
    em.mantissa ≤ em.roundedMantissa ∧ em.roundedMantissa ≤ em.mantissa + 1 := by
  obtain ⟨m, r, s⟩ := em
  cases r <;> cases s <;>
    simp [ExtendedMantissa.roundedMantissa, ExtendedMantissa.accuracy, Accuracy.roundToNearestEven]
  omega

/-- Rounding cuts off `k` bits, unless it makes the mantissa too long. -/
theorem roundWithAccuracy_eq {s : Sign} {m k r : Nat} {e : Int} {a : Accuracy} (hk : m.log2 = 52 + k)
    (he : -1074 ≤ e + k) (hr : (ExtendedMantissa.ofMantissaAndAccuracy m a >>> k).roundedMantissa = r)
    (hnormal : Normal r) : roundWithAccuracy .binary64 s m e a = .finite s r (e + k) hnormal.pos := by
  have hfirst : (Format.binary64.targetExponent (totalExponent m e) - e).toNat = k := by
    rw [targetExponent_eq, totalExponent, hk]
    omega
  have hsecond : (Format.binary64.targetExponent (totalExponent r (e + k)) - (e + k)).toNat = 0 := by
    rw [targetExponent_eq, totalExponent, hnormal.log2]
    omega
  have hkeep := shiftRight_exact r 0
  rw [Nat.pow_zero, Nat.mul_one] at hkeep
  have hcut : shiftToTargetExponent .binary64 m e a = (ExtendedMantissa.ofMantissaAndAccuracy m a >>> k, e + k) := by
    simp only [shiftToTargetExponent, shiftToExponent, hfirst]
  have hstay : shiftToTargetExponent .binary64 r (e + k) .exact = (⟨r, false, false⟩, e + k) := by
    simp only [shiftToTargetExponent, shiftToExponent, hsecond, hkeep, Int.natCast_zero, Int.add_zero]
  rw [roundWithAccuracy, hcut]
  dsimp only
  rw [hr, hstay]
  exact dif_neg (Nat.ne_of_gt hnormal.pos)

theorem roundWithAccuracy_exact {m : Nat} (hm : Normal m) (s : Sign) (k : Nat) {e : Int} (he : -1074 ≤ e + k) :
    roundWithAccuracy .binary64 s (m * 2 ^ k) e .exact = .finite s m (e + k) hm.pos := by
  refine roundWithAccuracy_eq ?_ he ?_ hm
  · refine (Nat.log2_eq_iff (Nat.ne_of_gt (Nat.mul_pos hm.pos (Nat.two_pow_pos k)))).mpr ⟨?_, ?_⟩
    · rw [Nat.pow_add]
      exact Nat.mul_le_mul_right _ hm.1
    · rw [Nat.add_right_comm, Nat.pow_add]
      exact Nat.mul_lt_mul_of_pos_right hm.2 (Nat.two_pow_pos k)
  · rw [shiftRight_exact]
    rfl

theorem roundedMantissa_of_dvd {a d k p : Nat} (hd : 0 < d) (h : a = p * 2 ^ k * d) :
    (ExtendedMantissa.ofMantissaAndAccuracy (a / d) (accuracyOfFraction (a % d) d) >>> k).roundedMantissa = p := by
  rw [h, Nat.mul_mod_left, Nat.mul_div_cancel _ hd, accuracyOfFraction, if_pos rfl, shiftRight_exact]
  rfl

/-- A quotient of `53 + k` bits that is at most the number of 53 ones is rounded to 53 bits without a carry. -/
theorem round_quotient (s : Sign) {a d : Nat} (k : Nat) {e : Int} (hd : 0 < d) (hlo : 2 ^ 52 * 2 ^ k * d ≤ a)
    (hhi : a ≤ (2 ^ 53 - 1) * 2 ^ k * d) (he : -1074 ≤ e + k) :
    ∃ r, ∃ hr : Normal r, (a = 2 ^ 52 * 2 ^ k * d → r = 2 ^ 52) ∧
      roundWithAccuracy .binary64 s (a / d) e (accuracyOfFraction (a % d) d) = .finite s r (e + k) hr.pos := by
  have hk := Nat.two_pow_pos k
  have hle : 2 ^ 52 * 2 ^ k ≤ a / d := (Nat.le_div_iff_mul_le hd).mpr hlo
  have hbounds := roundedMantissa_bounds
    (ExtendedMantissa.ofMantissaAndAccuracy (a / d) (accuracyOfFraction (a % d) d) >>> k)
  rw [mantissa_shiftRight] at hbounds
  have hnormal : Normal
      (ExtendedMantissa.ofMantissaAndAccuracy (a / d) (accuracyOfFraction (a % d) d) >>> k).roundedMantissa := by
    rcases Nat.lt_or_eq_of_le hhi with hlt | heq
    · have hq : a / d < (2 ^ 53 - 1) * 2 ^ k := (Nat.div_lt_iff_lt_mul hd).mpr hlt
      have hlow : 2 ^ 52 ≤ a / d / 2 ^ k := (Nat.le_div_iff_mul_le hk).mpr hle
      have hhigh : a / d / 2 ^ k < 2 ^ 53 - 1 := (Nat.div_lt_iff_lt_mul hk).mpr hq
      exact ⟨by omega, by omega⟩
    · rw [roundedMantissa_of_dvd hd heq]
      exact ⟨by decide, by decide⟩
  refine ⟨_, hnormal, fun h => roundedMantissa_of_dvd hd h, roundWithAccuracy_eq ?_ he rfl hnormal⟩
  have hle' : a / d ≤ (2 ^ 53 - 1) * 2 ^ k := Nat.div_le_of_le_mul (by rwa [Nat.mul_comm])
  refine (Nat.log2_eq_iff (by omega)).mpr ⟨by rwa [Nat.pow_add], ?_⟩
  rw [Nat.add_right_comm, Nat.pow_add]
  exact Nat.lt_of_le_of_lt hle' (Nat.mul_lt_mul_of_pos_right (by decide) hk)

/-! ### Packing -/

theorem toNat_implicit_append {m : Nat} (hm : Normal m) : (1#1 ++ BitVec.ofNat 52 m).toNat = m := by
  obtain ⟨r, rfl⟩ := Nat.exists_eq_add_of_le hm.1
  have hr : r < 2 ^ 52 := by
    have := hm.2
    omega
  have hlow : (BitVec.ofNat 52 (2 ^ 52 + r)).toNat = r := by
    rw [BitVec.toNat_ofNat, Nat.add_mod_left, Nat.mod_eq_of_lt hr]
  rw [BitVec.toNat_append, hlow, ← Nat.shiftLeft_add_eq_or_of_lt hr]
  rfl

theorem finite_congr {s s' : Sign} {m m' : Nat} {e e' : Int} {hm : 0 < m} {hm' : 0 < m'} (hs : s = s') (hmm : m = m')
    (he : e = e') : finite s m e hm = finite s' m' e' hm' := by
  subst hs hmm he
  rfl

theorem sign_packComponents (e : BitVec 11) (m : BitVec 52) :
    Sign.ofBitVec (unpackSign (packComponents .binary64 .positive e m)) = .positive := by
  have hlow : (0#1 ++ e ++ m).toNat < 2 ^ 63 := by
    rw [BitVec.toNat_append, BitVec.toNat_append, BitVec.toNat_zero, Nat.zero_shiftLeft, Nat.zero_or,
      ← Nat.shiftLeft_add_eq_or_of_lt m.isLt, Nat.shiftLeft_eq]
    have := e.isLt
    have := m.isLt
    omega
  refine if_pos ((unpackSign_eq_zero_iff _).mpr ?_)
  rw [Nat.shiftRight_eq_div_pow]
  exact Nat.div_eq_of_lt hlow

theorem unpack_pack {m : Nat} {e : Int} (hm : Normal m) (hlo : -1074 ≤ e) (hhi : e ≤ 970) :
    (Float.Model.pack (.finite .positive m e hm.pos)).unpack = .finite .positive m e hm.pos := by
  obtain ⟨b, rfl⟩ : ∃ b : Nat, e = b - 1075 := ⟨(e + 1075).toNat, by omega⟩
  have hbias : ((b : Int) - 1075 + Format.binary64.exponentBias + (52 : Nat)).toNat = b := by
    have : Format.binary64.exponentBias = 1023 := rfl
    omega
  have hexponent : (BitVec.ofNat 11 b).toNat = b := by
    rw [BitVec.toNat_ofNat, Nat.mod_eq_of_lt (by omega)]
  have hmax : BitVec.ofNat 11 b ≠ -1#11 := by
    intro h
    have hb : b = 2047 := hexponent.symm.trans (congrArg BitVec.toNat h)
    omega
  have hzero : BitVec.ofNat 11 b ≠ 0#11 := by
    intro h
    have hb : b = 0 := hexponent.symm.trans (congrArg BitVec.toNat h)
    omega
  have hpack : UnpackedFloat.pack .binary64 (.finite .positive m (b - 1075) hm.pos) =
      packComponents .binary64 .positive (BitVec.ofNat 11 b) (BitVec.ofNat 52 m) := by
    have hsmall : ¬2 ^ 11 ≤ ((b : Int) - 1075 + Format.binary64.exponentBias + (52 : Nat)).toNat + 1 := by
      rw [hbias]
      omega
    have hlong : m.log2 + 1 = Format.binary64.mantissaBits := congrArg (· + 1) hm.log2
    refine (if_neg hsmall).trans ((if_pos hlong).trans ?_)
    exact congrArg (fun b => packComponents .binary64 .positive (BitVec.ofNat 11 b) (BitVec.ofNat 52 m)) hbias
  change UnpackedFloat.unpack .binary64 (UnpackedFloat.pack .binary64 _) = _
  rw [hpack]
  refine (if_neg fun h => hmax (unpackExponent_packComponents.symm.trans h)).trans
    ((if_neg fun h => hzero (unpackExponent_packComponents.symm.trans h)).trans ?_)
  refine finite_congr (sign_packComponents _ _) ?_ ?_
  · rw [unpackMantissa_packComponents]
    exact toNat_implicit_append hm
  · rw [unpackExponent_packComponents]
    exact congrArg (fun b : Nat => (b : Int) - 1075) hexponent

/-! ### Counts -/

/-- The float has the value `n`, with mantissa `m` and exponent `k - 52`. -/
structure Represents (x : Float) (n m k : Nat) : Prop where
  normal : Normal m
  value : n * 2 ^ 52 = m * 2 ^ k
  bound : k ≤ 53
  unpack : x.toModel.unpack = .finite .positive m (k - 52) normal.pos

theorem normal_shiftLeft {n : Nat} (h0 : 0 < n) (hn : n < 2 ^ 53) : Normal (n <<< (52 - n.log2)) := by
  have hne : n ≠ 0 := Nat.ne_of_gt h0
  have hlog : n.log2 < 53 := (Nat.log2_lt hne).mpr hn
  obtain ⟨hlo, hhi⟩ := (Nat.log2_eq_iff hne).mp rfl
  have hlow : 2 ^ n.log2 * 2 ^ (52 - n.log2) = 2 ^ 52 := by rw [← Nat.pow_add, Nat.add_sub_cancel' (by omega)]
  have hhigh : 2 ^ (n.log2 + 1) * 2 ^ (52 - n.log2) = 2 * 2 ^ 52 := by rw [Nat.pow_succ', Nat.mul_assoc, hlow]
  rw [Nat.shiftLeft_eq]
  refine ⟨hlow ▸ Nat.mul_le_mul_right _ hlo, ?_⟩
  calc n * 2 ^ (52 - n.log2) < 2 ^ (n.log2 + 1) * 2 ^ (52 - n.log2) :=
        Nat.mul_lt_mul_of_pos_right hhi (Nat.two_pow_pos _)
    _ = 2 ^ 53 := hhigh

theorem unpack_toFloat {n : Nat} (h0 : 0 < n) (hn : n < 2 ^ 53) :
    n.toUInt64.toFloat.toModel.unpack =
      .finite .positive (n <<< (52 - n.log2)) (n.log2 - 52) (normal_shiftLeft h0 hn).pos := by
  have hm := normal_shiftLeft h0 hn
  have hlog : n.log2 < 53 := (Nat.log2_lt (by omega)).mpr hn
  have hword : n.toUInt64.toNat = n := by
    rw [Nat.toUInt64, UInt64.toNat_ofNat', Nat.mod_eq_of_lt (by omega)]
  have hpositive : compare (n : Int) 0 = .gt := Int.compare_eq_gt.mpr (by omega)
  have htarget : Format.binary64.targetExponent (totalExponent n 0) = n.log2 - 52 := by
    rw [targetExponent_eq, totalExponent]
    omega
  have hshift : ((0 : Int) - (n.log2 - 52)).toNat = 52 - n.log2 := by omega
  have hexponent : (0 : Int) - ((52 - n.log2 : Nat) : Int) = n.log2 - 52 := by omega
  have hround : UnpackedFloat.ofUInt64 .binary64 n.toUInt64 =
      roundWithAccuracy .binary64 .positive (n <<< (52 - n.log2)) (n.log2 - 52) .exact := by
    rw [UnpackedFloat.ofUInt64, hword, UnpackedFloat.ofNat, UnpackedFloat.ofInt, UnpackedFloat.normalize, hpositive]
    simp only [Int.toNat_natCast, UnpackedFloat.round, decreaseExponent, htarget, hshift, hexponent]
  have hexact := roundWithAccuracy_exact hm .positive 0 (e := n.log2 - 52) (by omega)
  rw [Nat.pow_zero, Nat.mul_one, Int.natCast_zero, Int.add_zero] at hexact
  change (Float.Model.pack (UnpackedFloat.ofUInt64 .binary64 n.toUInt64)).unpack = _
  rw [hround, hexact]
  exact unpack_pack hm (by omega) (by omega)

theorem mul_unit {m : Nat} {e : Int} (hm : Normal m) (he : -1074 ≤ e) :
    UnpackedFloat.mul .binary64 (.finite .positive m e hm.pos) (.finite .positive (2 ^ 52) (-52) normal_one.pos) =
      .finite .positive m e hm.pos := by
  have hround := roundWithAccuracy_exact hm .positive 52 (e := e - 52) (by omega)
  have hexponent : e - 52 + ((52 : Nat) : Int) = e := by omega
  rw [hexponent] at hround
  exact hround

theorem toModel_one : (1.0 : Float).toModel = Float.Model.pack (.finite .positive (2 ^ 52) (-52) normal_one.pos) := by
  decide +kernel

theorem exists_represents_ofNat {n : Nat} (h0 : 0 < n) (hn : n ≤ 2 ^ 53) :
    ∃ m k, Represents (Float.ofNat n) n m k := by
  rcases Nat.lt_or_eq_of_le hn with hlt | rfl
  · have hm := normal_shiftLeft h0 hlt
    have hlog : n.log2 < 53 := (Nat.log2_lt (by omega)).mpr hlt
    refine ⟨n <<< (52 - n.log2), n.log2, hm, ?_, by omega, ?_⟩
    · rw [Nat.shiftLeft_eq, Nat.mul_assoc, ← Nat.pow_add, Nat.sub_add_cancel (by omega)]
    · have hofNat : Float.ofNat n = n.toUInt64.toFloat * 1.0 := by
        change Float.ofScientific n false 0 = _
        rw [Float.ofScientific, dif_pos ⟨hlt, by decide⟩]
        congr 1
      rw [hofNat]
      change (Float.Model.pack
        (UnpackedFloat.mul .binary64 n.toUInt64.toFloat.toModel.unpack (1.0 : Float).toModel.unpack)).unpack = _
      rw [unpack_toFloat h0 hlt, toModel_one, unpack_pack normal_one (by decide) (by decide), mul_unit hm (by omega)]
      exact unpack_pack hm (by omega) (by omega)
  · have hofNat : (Float.ofNat (2 ^ 53)).toModel = Float.Model.pack (.finite .positive (2 ^ 52) 1 normal_one.pos) := by
      decide +kernel
    refine ⟨2 ^ 52, 53, normal_one, by decide, by decide, ?_⟩
    rw [hofNat]
    exact unpack_pack normal_one (by decide) (by decide)

theorem Represents.floor {x : Float} {n m k : Nat} (hx : Represents x n m k) (hn : n < Word.signedLimit) :
    Word.floor x = n := by
  have hvalue : ((Sign.positive.apply m : Int) : ℚ) * 2 ^ ((k : Int) - 52) = ((n : Int) : ℚ) := by
    have hcast : (n : ℚ) * 2 ^ 52 = m * 2 ^ k := by exact_mod_cast hx.value
    have hpow : (2 : ℚ) ^ ((k : Int) - 52) = 2 ^ k / 2 ^ 52 := by
      rw [zpow_sub₀ two_ne_zero, zpow_natCast]
      rfl
    rw [hpow, ← mul_div_assoc, div_eq_iff (by norm_num)]
    exact hcast.symm
  rw [Word.floor_eq_floorOf, hx.unpack]
  change Word.saturate ⌊_⌋ = _
  rw [hvalue, Int.floor_intCast, Word.saturate]
  omega

/-- The floor of a count is the count. -/
theorem floor_ofNat {n : Nat} (hn : n ≤ 2 ^ 53) : Word.floor (Float.ofNat n) = n := by
  rcases Nat.eq_zero_or_pos n with rfl | h0
  · decide +kernel
  · obtain ⟨m, k, hrepresents⟩ := exists_represents_ofNat h0 hn
    exact hrepresents.floor (Nat.lt_of_le_of_lt hn (by decide))

/-! ### Quotients -/

theorem div_eq {a b : Nat} (ha : Normal a) (hb : Normal b) (e f : Int) (he : -1021 ≤ e - f) :
    ∃ r, ∃ hr : Normal r, (a = b → r = 2 ^ 52) ∧
      UnpackedFloat.div .binary64 (.finite .positive a e ha.pos) (.finite .positive b f hb.pos) =
        .finite .positive r (e - f - if a < b then 53 else 52) hr.pos := by
  have htarget : min (e - f) (Format.binary64.targetExponent (totalExponent a e - totalExponent b f)) = e - f - 53 := by
    rw [targetExponent_eq, totalExponent, totalExponent, ha.log2, hb.log2]
    omega
  have hshift : (e - f - (e - f - 53)).toNat = 53 := by omega
  have hdiv : UnpackedFloat.div .binary64 (.finite .positive a e ha.pos) (.finite .positive b f hb.pos) =
      roundWithAccuracy .binary64 .positive (a * 2 ^ 53 / b) (e - f - 53) (accuracyOfFraction (a * 2 ^ 53 % b) b) := by
    have hcore : divCore .binary64 a e b f =
        (a * 2 ^ 53 / b, e - f - 53, accuracyOfFraction (a * 2 ^ 53 % b) b) := by
      simp only [divCore, htarget, hshift, Nat.shiftLeft_eq]
    change (match divCore .binary64 a e b f with
      | (m, e, accuracy) => roundWithAccuracy .binary64 (Sign.positive / Sign.positive) m e accuracy) = _
    rw [hcore]
    rfl
  obtain ⟨halo, hahi⟩ := ha
  obtain ⟨hblo, hbhi⟩ := hb
  rw [hdiv]
  by_cases hab : a < b
  · -- The quotient has 53 bits. It falls short of `2 ^ 53` by one or more, since `b - a` is more than `b / 2 ^ 53`.
    obtain ⟨r, hr, -, hround⟩ := round_quotient .positive 0 (a := a * 2 ^ 53) (d := b) (e := e - f - 53)
      (by omega) (by omega) (by omega) (by omega)
    refine ⟨r, hr, fun h => by omega, hround.trans (finite_congr rfl rfl ?_)⟩
    rw [if_pos hab]
    omega
  · -- The quotient has 54 bits. It is at most that of the longest and the shortest mantissa.
    obtain ⟨r, hr, hone, hround⟩ := round_quotient .positive 1 (a := a * 2 ^ 53) (d := b) (e := e - f - 53)
      (by omega) (by omega) (by omega) (by omega)
    refine ⟨r, hr, fun h => hone (by omega), hround.trans (finite_congr rfl rfl ?_)⟩
    rw [if_neg hab]
    omega

namespace Represents

variable {x y : Float} {i j a b k l : Nat} (hx : Represents x i a k) (hy : Represents y j b l)
include hx

theorem div_self : x / x = 1.0 := by
  obtain ⟨r, hr, hone, hdiv⟩ := div_eq hx.normal hx.normal (k - 52) (k - 52) (by omega)
  obtain rfl := hone rfl
  have hexponent : (k - 52 : Int) - (k - 52) - (if a < a then 53 else 52) = -52 := by
    rw [if_neg (Nat.lt_irrefl a)]
    omega
  rw [hexponent] at hdiv
  refine congrArg Float.ofModel ?_
  change Float.Model.pack (UnpackedFloat.div .binary64 x.toModel.unpack x.toModel.unpack) = (1.0 : Float).toModel
  rw [hx.unpack, hdiv, toModel_one]

include hy

theorem le_of_div_eq_one (h : x / y = 1.0) : j ≤ i := by
  have hk := hx.bound
  have hl := hy.bound
  obtain ⟨r, hr, -, hdiv⟩ := div_eq hx.normal hy.normal (k - 52) (l - 52) (by omega)
  have hpack : Float.Model.pack (UnpackedFloat.div .binary64 x.toModel.unpack y.toModel.unpack) =
      Float.Model.pack (.finite .positive (2 ^ 52) (-52) normal_one.pos) :=
    (congrArg Float.toModel h).trans toModel_one
  rw [hx.unpack, hy.unpack, hdiv] at hpack
  have hunpack := congrArg Float.Model.unpack hpack
  rw [unpack_pack hr (by split <;> omega) (by split <;> omega), unpack_pack normal_one (by decide) (by decide)]
    at hunpack
  injection hunpack with _ _ hexponent
  have hvalue : b * 2 ^ l ≤ a * 2 ^ k := by
    split at hexponent
    · obtain rfl : k = l + 1 := by omega
      have hba : b ≤ a * 2 := by
        have := hx.normal.1
        have := hy.normal.2
        omega
      rw [Nat.pow_succ', ← Nat.mul_assoc]
      exact Nat.mul_le_mul_right _ hba
    · obtain rfl : k = l := by omega
      exact Nat.mul_le_mul_right _ (by omega)
  rw [← hx.value, ← hy.value] at hvalue
  exact Nat.le_of_mul_le_mul_right hvalue (Nat.two_pow_pos 52)

end Represents

end Binary64

/-- Of the fractions of `n` parts that are reported, only that of all parts is one. -/
theorem ofNat_div_ofNat_eq_one_iff {j n : Nat} (hj : 0 < j) (hjn : j ≤ n) (hn : n ≤ 2 ^ 53) :
    Float.ofNat j / Float.ofNat n = 1.0 ↔ j = n := by
  obtain ⟨a, k, hx⟩ := Binary64.exists_represents_ofNat hj (Nat.le_trans hjn hn)
  obtain ⟨b, l, hy⟩ := Binary64.exists_represents_ofNat (Nat.lt_of_lt_of_le hj hjn) hn
  constructor
  · intro h
    exact Nat.le_antisymm hjn (hx.le_of_div_eq_one hy h)
  · rintro rfl
    exact hx.div_self

/-- Beyond `2 ^ 53` different counts can be the same float. -/
example : Float.ofNat (2 ^ 53) / Float.ofNat (2 ^ 53 + 1) = 1.0 := by decide +kernel

end GlobeTexture
