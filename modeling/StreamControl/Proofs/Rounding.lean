import Mathlib
import StreamControl.Stream.KeyRange

/-!
# Rounding

The even parts of the key space start at products of two doubles, each of them rounded. They start
in order nonetheless, as rounding never turns two numbers around (`rank_nearest_le`): of the bits
that a double has no room for, two stay, which tell whether the number is below, on or above the
middle between two doubles (`Stands`), and that is enough to round both the same way. For fewer than
`2 ^ 53` parts the number of a part is itself a double, so that a product of it is rounded once only
(`starts_le`, `uniform_ordered`).
-/

namespace StreamControl

namespace Rounding

open Float Float.Model Float.Model.UnpackedFloat

/-! ## A mantissa and the bits behind it -/

/-- The numbers that a mantissa stands for together with its two bits. -/
def Stands (em : ExtendedMantissa) (x : ℚ) : Prop :=
  match em with
  | ⟨m, false, false⟩ => x = m
  | ⟨m, false, true⟩ => m < x ∧ x < m + 1 / 2
  | ⟨m, true, false⟩ => x = m + 1 / 2
  | ⟨m, true, true⟩ => m + 1 / 2 < x ∧ x < m + 1

variable {em em' : ExtendedMantissa} {x x' : ℚ}

theorem Stands.bounds (h : Stands em x) : em.mantissa ≤ x ∧ x < em.mantissa + 1 := by
  obtain ⟨m, r, s⟩ := em
  cases r <;> cases s <;> simp only [Stands] at h ⊢ <;> constructor <;> linarith

theorem stands_exact (m : ℕ) : Stands (.ofMantissaAndAccuracy m .exact) m := Eq.refl (m : ℚ)

theorem Stands.shiftRightOne (h : Stands em x) : Stands em.shiftRightOne (x / 2) := by
  obtain ⟨m, r, s⟩ := em
  have hm : ((m % 2 : ℕ) : ℚ) + 2 * ((m / 2 : ℕ) : ℚ) = m := by exact_mod_cast Nat.mod_add_div m 2
  rcases Nat.mod_two_eq_zero_or_one m with hr | hr <;> rw [hr] at hm <;> push_cast at hm <;>
    cases r <;> cases s <;>
    simp [Stands, ExtendedMantissa.shiftRightOne, hr] at h ⊢ <;>
      first | linarith | (constructor <;> linarith)

theorem Stands.shiftRight (h : Stands em x) (k : ℕ) : Stands (em >>> k) (x / 2 ^ k) := by
  show Stands (k.repeat ExtendedMantissa.shiftRightOne em) _
  induction k with
  | zero => rwa [pow_zero, div_one]
  | succ k ih =>
    rw [pow_succ, ← div_div]
    exact ih.shiftRightOne

theorem rounded_bounds (em : ExtendedMantissa) :
    em.mantissa ≤ em.roundedMantissa ∧ em.roundedMantissa ≤ em.mantissa + 1 := by
  obtain ⟨m, r, s⟩ := em
  cases r <;> cases s <;>
    simp only [ExtendedMantissa.roundedMantissa, ExtendedMantissa.accuracy,
      Accuracy.roundToNearestEven] <;> omega

/-- Rounding keeps the order. -/
theorem Stands.rounded_le (h : Stands em x) (h' : Stands em' x') (hx : x ≤ x') :
    em.roundedMantissa ≤ em'.roundedMantissa := by
  have hle : em.mantissa ≤ em'.mantissa := by
    have : (em.mantissa : ℚ) < em'.mantissa + 1 := lt_of_le_of_lt (h.bounds.1.trans hx) h'.bounds.2
    exact_mod_cast Order.lt_add_one_iff.mp (by exact_mod_cast this)
  rcases Nat.lt_or_eq_of_le hle with hlt | heq
  · exact (rounded_bounds em).2.trans (Nat.le_trans hlt (rounded_bounds em').1)
  · obtain ⟨m, r, s⟩ := em
    obtain ⟨m', r', s'⟩ := em'
    obtain rfl : m = m' := heq
    cases r <;> cases s <;> cases r' <;> cases s' <;>
      simp only [Stands] at h h' <;>
      simp only [ExtendedMantissa.roundedMantissa, ExtendedMantissa.accuracy,
        Accuracy.roundToNearestEven] <;>
      first | omega | (exfalso; linarith)

/-! ## Normal numbers -/

theorem mantissa_shiftRight (m k : ℕ) (acc : Accuracy) :
    ((ExtendedMantissa.ofMantissaAndAccuracy m acc) >>> k).mantissa = m / 2 ^ k := by
  show (k.repeat ExtendedMantissa.shiftRightOne _).mantissa = _
  induction k with
  | zero =>
    rw [pow_zero, Nat.div_one]
    cases acc with
    | exact => rfl
    | inexact o => cases o <;> rfl
  | succ k ih =>
    show (k.repeat ExtendedMantissa.shiftRightOne _).mantissa / 2 = _
    rw [ih, Nat.div_div_eq_div_mul, pow_succ]

/-- The bits that a mantissa has beyond those of a double. -/
def surplus (m : ℕ) : ℕ := m.log2 - 52

/-- The mantissa of a double that is left of one with more bits. -/
def rounded (m : ℕ) (acc : Accuracy) : ℕ :=
  (ExtendedMantissa.ofMantissaAndAccuracy m acc >>> surplus m).roundedMantissa

variable {m m' : ℕ} {e e' : ℤ} {acc acc' : Accuracy}

theorem log2_normal (hlow : 2 ^ 52 ≤ m) (hhigh : m < 2 ^ 53) : m.log2 = 52 := by
  have h1 : m.log2 < 53 := (Nat.log2_lt (by omega)).mpr hhigh
  have h2 : 52 ≤ m.log2 := (Nat.le_log2 (by omega)).mpr hlow
  omega

theorem target_normal (hm : 52 ≤ m.log2) (he : -1074 ≤ e) :
    Format.binary64.targetExponent (totalExponent m e) = e + surplus m := by
  simp only [Format.targetExponent, totalExponent, Format.mantissaBits, Format.minExponent, surplus]
  norm_num
  omega

theorem shift_normal (hm : 52 ≤ m.log2) (he : -1074 ≤ e) :
    shiftToTargetExponent Format.binary64 m e acc =
      (ExtendedMantissa.ofMantissaAndAccuracy m acc >>> surplus m, e + surplus m) := by
  unfold shiftToTargetExponent shiftToExponent
  rw [target_normal hm he]
  have hk : (e + surplus m - e).toNat = surplus m := by omega
  simp only [hk]

theorem div_bounds (hm : 52 ≤ m.log2) :
    2 ^ 52 ≤ m / 2 ^ surplus m ∧ m / 2 ^ surplus m < 2 ^ 53 := by
  have hpos : 0 < 2 ^ surplus m := Nat.two_pow_pos _
  have hne : m ≠ 0 := by rintro rfl; simp at hm
  refine ⟨(Nat.le_div_iff_mul_le hpos).mpr ?_, (Nat.div_lt_iff_lt_mul hpos).mpr ?_⟩
  · rw [← pow_add, surplus, Nat.add_sub_of_le hm]
    exact Nat.log2_self_le hne
  · rw [← pow_add, surplus, show 53 + (m.log2 - 52) = m.log2 + 1 by omega]
    exact Nat.lt_log2_self

theorem rounded_normal (acc : Accuracy) (hm : 52 ≤ m.log2) :
    2 ^ 52 ≤ rounded m acc ∧ rounded m acc ≤ 2 ^ 53 := by
  have hb := rounded_bounds (ExtendedMantissa.ofMantissaAndAccuracy m acc >>> surplus m)
  rw [mantissa_shiftRight] at hb
  have := div_bounds hm
  unfold rounded
  omega

/-- The number with a mantissa and an exponent. -/
def number (sign : Sign) (p : ExtendedMantissa × ℤ) : UnpackedFloat :=
  if h : p.1.mantissa = 0 then .zero sign else .finite sign p.1.mantissa p.2 (Nat.pos_of_ne_zero h)

theorem shift_surplus_zero {R : ℕ} (h : R.log2 = 52) (he : -1074 ≤ e) :
    shiftToTargetExponent Format.binary64 R e .exact = (⟨R, false, false⟩, e) := by
  rw [shift_normal (by omega) he, surplus, h]
  simp only [Nat.sub_self, Nat.cast_zero, add_zero]
  rfl

theorem round_normal {sign : Sign} (hm : 52 ≤ m.log2) (he : -1074 ≤ e) :
    roundWithAccuracy Format.binary64 sign m e acc =
      if rounded m acc < 2 ^ 53 then number sign (⟨rounded m acc, false, false⟩, e + surplus m)
      else number sign (⟨2 ^ 52, false, false⟩, e + surplus m + 1) := by
  obtain ⟨hlow, hhigh⟩ := rounded_normal acc hm
  have hagain : roundWithAccuracy Format.binary64 sign m e acc =
      number sign (shiftToTargetExponent Format.binary64 (rounded m acc)
        (e + surplus m) .exact) := by
    unfold roundWithAccuracy
    rw [shift_normal hm he]
    rfl
  rw [hagain]
  split
  · rename_i hlt
    rw [shift_surplus_zero (log2_normal hlow hlt) (by omega)]
  · rw [show rounded m acc = 2 ^ 53 by
      omega, shift_normal (by rw [Nat.log2_two_pow]; omega) (by omega), surplus,
      Nat.log2_two_pow]
    rfl

/-! ## Bits -/

theorem toNat_packComponents (b : BitVec 11) (f : BitVec 52) :
    (packComponents Format.binary64 .positive b f).toNat = b.toNat * 2 ^ 52 + f.toNat := by
  show (0#1 ++ b ++ f).toNat = _
  rw [BitVec.toNat_append, BitVec.toNat_append, ← Nat.shiftLeft_add_eq_or_of_lt f.isLt,
    Nat.shiftLeft_eq]
  simp

theorem pack_normal {h : 0 < m} (hlow : 2 ^ 52 ≤ m) (hhigh : m < 2 ^ 53) (he : -1074 ≤ e)
    (he' : e ≤ 971) :
    UnpackedFloat.pack Format.binary64 (.finite .positive m e h) =
      packComponents Format.binary64 .positive (BitVec.ofNat 11 (e + 1075).toNat)
      (BitVec.ofNat 52 m) := by
  have hb : (e + (Format.binary64.exponentBias : ℤ) +
    (Format.binary64.mantissaBitsWithoutImplicit : ℤ)).toNat =
      (e + 1075).toNat := by
    simp [Format.exponentBias]
    omega
  simp only [UnpackedFloat.pack, hb, log2_normal hlow hhigh]
  rw [if_neg (show ¬2 ^ 11 ≤ (e + 1075).toNat + 1 by omega),
    if_pos (show 52 + 1 = Format.binary64.mantissaBits by rfl)]

theorem toNat_pack_normal {h : 0 < m} (hlow : 2 ^ 52 ≤ m) (hhigh : m < 2 ^ 53) (he : -1074 ≤ e)
    (he' : e ≤ 971) :
    (UnpackedFloat.pack Format.binary64 (.finite .positive m e h)).toNat =
      (e + 1074).toNat * 2 ^ 52 + m := by
  rw [pack_normal hlow hhigh he he', toNat_packComponents, BitVec.toNat_ofNat, BitVec.toNat_ofNat]
  omega

theorem unpack_pack_normal {h : 0 < m} (hlow : 2 ^ 52 ≤ m) (hhigh : m < 2 ^ 53) (he : -1074 ≤ e)
    (he' : e ≤ 971) :
    UnpackedFloat.unpack Format.binary64
      (UnpackedFloat.pack Format.binary64 (.finite .positive m e h)) =
        .finite .positive m e h := by
  rw [pack_normal hlow hhigh he he']
  have htop : BitVec.ofNat 11 (e + 1075).toNat ≠ -1#11 := fun heq => by
    have := congrArg BitVec.toNat heq
    rw [BitVec.toNat_ofNat] at this
    have h2047 : (-1#11).toNat = 2047 := rfl
    omega
  have hbottom : BitVec.ofNat 11 (e + 1075).toNat ≠ 0#11 := fun heq => by
    have := congrArg BitVec.toNat heq
    rw [BitVec.toNat_ofNat] at this
    have h0 : (0#11).toNat = 0 := rfl
    omega
  simp only [UnpackedFloat.unpack, unpackExponent_packComponents, unpackMantissa_packComponents,
    unpackSign_packComponents, if_neg htop, if_neg hbottom]
  have hm : (1#1 ++ BitVec.ofNat 52 m).toNat = m := by
    rw [BitVec.toNat_append, ← Nat.shiftLeft_add_eq_or_of_lt (BitVec.ofNat 52 m).isLt,
      Nat.shiftLeft_eq, BitVec.toNat_ofNat]
    show 1 * 2 ^ 52 + m % 2 ^ 52 = m
    omega
  have he : ((BitVec.ofNat 11 (e + 1075).toNat).toNat : ℤ) -
      ((Format.binary64.exponentBias : ℤ) +
        (Format.binary64.mantissaBitsWithoutImplicit : ℤ)) = e := by
    rw [BitVec.toNat_ofNat]
    simp [Format.exponentBias]
    omega
  simp only [hm, he]
  rfl

/-! ## Doubles -/

/-- A positive double that has all bits of its mantissa. -/
structure Normal (x : Float) (m : ℕ) (e : ℤ) : Prop where
  lower : 2 ^ 52 ≤ m
  upper : m < 2 ^ 53
  least : -1074 ≤ e
  most : e ≤ 971
  unpacked : x.toModel.unpack = number .positive (⟨m, false, false⟩, e)

variable {x y : Float}

theorem number_pos (h : 0 < m) :
    number .positive (⟨m, false, false⟩, e) = .finite .positive m e h :=
  dif_neg (Nat.ne_of_gt h)

theorem normal_number (hlow : 2 ^ 52 ≤ m) (hhigh : m < 2 ^ 53) (he : -1074 ≤ e) (he' : e ≤ 971) :
    Normal (.ofModel (.pack (number .positive (⟨m, false, false⟩, e)))) m e := by
  refine ⟨hlow, hhigh, he, he', ?_⟩
  rw [number_pos (by omega)]
  exact unpack_pack_normal hlow hhigh he he'

theorem rank_number (hlow : 2 ^ 52 ≤ m) (hhigh : m < 2 ^ 53) (he : -1074 ≤ e) (he' : e ≤ 971) :
    floatRank (.ofModel (.pack (number .positive (⟨m, false, false⟩, e)))) =
      (e + 1074) * 2 ^ 52 + m := by
  have hpos : 0 < m := by omega
  rw [number_pos hpos]
  have hbits : (Float.ofModel (.pack (.finite .positive m e hpos))).toBits.toNat =
      (e + 1074).toNat * 2 ^ 52 + m :=
    toNat_pack_normal (h := hpos) hlow hhigh he he'
  unfold floatRank
  rw [hbits, if_pos (by show _ < 2 ^ 63; omega)]
  push_cast
  omega

/-- The double nearest to a number. -/
def nearest (m : ℕ) (e : ℤ) (acc : Accuracy) : Float :=
  .ofModel (.pack (roundWithAccuracy Format.binary64 .positive m e acc))

theorem rank_nearest (hm : 52 ≤ m.log2) (he : -1074 ≤ e) (he' : e + surplus m ≤ 970) :
    floatRank (nearest m e acc) = (e + surplus m + 1074) * 2 ^ 52 + rounded m acc := by
  obtain ⟨hlow, hhigh⟩ := rounded_normal acc hm
  rw [nearest, round_normal hm he]
  split
  · rename_i hlt
    exact rank_number hlow hlt (by omega) (by omega)
  · rw [rank_number (by omega) (by omega) (by omega) (by omega)]
    have : rounded m acc = 2 ^ 53 := by omega
    rw [this]
    push_cast
    ring

theorem normal_nearest (acc : Accuracy) (hm : 52 ≤ m.log2) (he : -1074 ≤ e)
    (he' : e + surplus m ≤ 970) :
    ∃ m' e', Normal (nearest m e acc) m' e' ∧ e + surplus m ≤ e' ∧ e' ≤ e + surplus m + 1 := by
  obtain ⟨hlow, hhigh⟩ := rounded_normal acc hm
  rw [nearest, round_normal hm he]
  split
  · rename_i hlt
    exact ⟨_, _, normal_number hlow hlt (by omega) (by omega), le_refl _, by omega⟩
  · exact ⟨_, _, normal_number (by omega) (by omega) (by omega) (by omega), by omega, le_refl _⟩

/-- Between numbers in order the nearest doubles are in order. -/
theorem rank_nearest_le (hm : 52 ≤ m.log2) (he : -1074 ≤ e) (hr : e + surplus m ≤ 970)
    (hm' : 52 ≤ m'.log2) (he' : -1074 ≤ e') (hr' : e' + surplus m' ≤ 970)
    (h : (m : ℚ) * 2 ^ e ≤ m' * 2 ^ e') :
    floatRank (nearest m e .exact) ≤ floatRank (nearest m' e' .exact) := by
  rw [rank_nearest hm he hr, rank_nearest hm' he' hr']
  have hlog : m.log2 + e ≤ m'.log2 + e' := by
    by_contra hlt
    have hpow : (2 : ℚ) ^ (m'.log2 + 1 + e') ≤ 2 ^ (m.log2 + e) :=
      zpow_le_zpow_right₀ (by norm_num) (by omega)
    have hne : m ≠ 0 := by rintro rfl; simp at hm
    have hlow : ((2 : ℚ) ^ m.log2 : ℚ) ≤ m := by exact_mod_cast Nat.log2_self_le hne
    have hhigh : (m' : ℚ) < 2 ^ (m'.log2 + 1) := by exact_mod_cast Nat.lt_log2_self (n := m')
    have h2e : (0 : ℚ) < 2 ^ e := zpow_pos (by norm_num) _
    have h2e' : (0 : ℚ) < 2 ^ e' := zpow_pos (by norm_num) _
    have : (m' : ℚ) * 2 ^ e' < m * 2 ^ e := calc
      (m' : ℚ) * 2 ^ e' < 2 ^ (m'.log2 + 1) * 2 ^ e' := mul_lt_mul_of_pos_right hhigh h2e'
      _ = 2 ^ ((m'.log2 : ℤ) + 1 + e') := by rw [zpow_add₀ (by norm_num)]; norm_cast
      _ ≤ 2 ^ ((m.log2 : ℤ) + e) := hpow
      _ = 2 ^ m.log2 * 2 ^ e := by rw [zpow_add₀ (by norm_num)]; norm_cast
      _ ≤ m * 2 ^ e := mul_le_mul_of_nonneg_right hlow h2e.le
    linarith
  have hb := rounded_normal .exact hm
  have hb' := rounded_normal .exact hm'
  rcases lt_or_eq_of_le
    (show e + surplus m ≤ e' + surplus m' by unfold surplus; omega) with hlt | heq
  · omega
  · have hs : Stands (ExtendedMantissa.ofMantissaAndAccuracy m .exact >>> surplus m)
        (m / 2 ^ surplus m) :=
      (stands_exact m).shiftRight _
    have hs' : Stands (ExtendedMantissa.ofMantissaAndAccuracy m' .exact >>> surplus m')
        (m' / 2 ^ surplus m') :=
      (stands_exact m').shiftRight _
    have hle : (m : ℚ) / 2 ^ surplus m ≤ m' / 2 ^ surplus m' := by
      have hscale : ∀ (n : ℕ) (f : ℤ),
          (n : ℚ) * 2 ^ f = n / 2 ^ surplus n * 2 ^ (f + surplus n) := fun n f => by
        rw [zpow_add₀ (by norm_num), zpow_natCast]
        field_simp
      rw [hscale m e, hscale m' e', heq] at h
      exact le_of_mul_le_mul_right h (zpow_pos (by norm_num) _)
    have := hs.rounded_le hs' hle
    unfold rounded
    omega

/-! ## Operations -/

/-- A whole number is left as it is. -/
theorem Stands.rounded_nat {n : ℕ} (h : Stands em n) : em.roundedMantissa = n := by
  have hlow : em.mantissa ≤ n := by exact_mod_cast h.bounds.1
  have hhigh : n < em.mantissa + 1 := by exact_mod_cast h.bounds.2
  obtain ⟨k, r, s⟩ := em
  obtain rfl : n = k := by have : k ≤ n := hlow; have : n < k + 1 := hhigh; omega
  cases r <;> cases s <;> simp only [Stands] at h <;>
    simp only [ExtendedMantissa.roundedMantissa, ExtendedMantissa.accuracy,
      Accuracy.roundToNearestEven] <;> linarith

theorem log2_mul_pow (hm : m ≠ 0) (k : ℕ) : (m * 2 ^ k).log2 = m.log2 + k := by
  rw [Nat.log2_eq_iff (by positivity)]
  have hlow := Nat.log2_self_le hm
  have hhigh := Nat.lt_log2_self (n := m)
  constructor
  · rw [pow_add]
    exact Nat.mul_le_mul_right _ hlow
  · rw [show m.log2 + k + 1 = m.log2 + 1 + k by omega, pow_add]
    exact Nat.mul_lt_mul_of_pos_right hhigh (by positivity)

theorem nearest_exact (hlow : 2 ^ 52 ≤ m) (hhigh : m < 2 ^ 53) (k : ℕ) (he : -1074 ≤ e)
    (he' : e + k ≤ 971) :
    Normal (nearest (m * 2 ^ k) e .exact) m (e + k) := by
  have hlog : (m * 2 ^ k).log2 = 52 + k := by rw [log2_mul_pow (by omega), log2_normal hlow hhigh]
  have hsurplus : surplus (m * 2 ^ k) = k := by rw [surplus, hlog]; omega
  have hrounded : rounded (m * 2 ^ k) .exact = m := by
    have hs := (stands_exact (m * 2 ^ k)).shiftRight k
    rw [rounded, hsurplus]
    refine Stands.rounded_nat ?_
    convert hs using 1
    push_cast
    field_simp
  rw [nearest, round_normal (by omega) he, hrounded, hsurplus, if_pos hhigh]
  exact normal_number hlow hhigh (by omega) he'

theorem mul_normal (hx : Normal x m e) (hy : Normal y m' e') :
    x * y = nearest (m * m') (e + e') .exact := by
  show Float.ofModel
    (.pack (UnpackedFloat.mul Format.binary64 x.toModel.unpack y.toModel.unpack)) = _
  have hm := hx.lower
  have hm' := hy.lower
  rw [hx.unpacked, hy.unpacked, number_pos (by omega), number_pos (by omega)]
  rfl

theorem normal_one : Normal (.ofBits 0x3FF0000000000000) (2 ^ 52) (-52) :=
  ⟨le_refl _, by norm_num, by norm_num, by norm_num, rfl⟩

theorem toFloat_eq {n : ℕ} (hn : 0 < n) (hlt : n < 2 ^ 53) :
    n.toUInt64.toFloat = nearest (n * 2 ^ (52 - n.log2)) (-(52 - n.log2 : ℕ)) .exact := by
  have hlog : n.log2 < 53 := (Nat.log2_lt (by omega)).mpr hlt
  have htarget : Format.binary64.targetExponent (totalExponent n 0) = -(52 - n.log2 : ℕ) := by
    simp only [Format.targetExponent, totalExponent, Format.mantissaBits, Format.minExponent]
    norm_num
    omega
  have hword : n.toUInt64.toNat = n := by
    rw [Nat.toUInt64_eq, UInt64.toNat_ofNat']
    omega
  have hpos : compare (n : ℤ) 0 = .gt := by
    rw [Int.compare_eq_gt]
    omega
  have hround : UnpackedFloat.round Format.binary64 .positive n 0 =
      roundWithAccuracy Format.binary64 .positive (n * 2 ^ (52 - n.log2))
        (-(52 - n.log2 : ℕ)) .exact := by
    unfold UnpackedFloat.round decreaseExponent
    simp only [htarget]
    rw [show (0 - -((52 - n.log2 : ℕ) : ℤ)).toNat = 52 - n.log2 by omega, Nat.shiftLeft_eq,
      zero_sub]
  show Float.ofModel (.pack (normalize Format.binary64 (n.toUInt64.toNat : ℤ) 0 .positive)) = _
  rw [hword]
  unfold UnpackedFloat.normalize
  rw [hpos]
  show Float.ofModel (.pack (UnpackedFloat.round Format.binary64 .positive n 0)) = _
  rw [hround]
  rfl

theorem ofNat_eq {n : ℕ} (hlt : n < 2 ^ 53) :
    Float.ofNat n = n.toUInt64.toFloat * .ofBits 0x3FF0000000000000 := by
  show Float.ofScientific n false 0 = _
  unfold Float.ofScientific
  rw [dif_pos ⟨hlt, by norm_num⟩]
  rfl

/-- A natural number that is not too large is itself a double. -/
theorem normal_ofNat {n : ℕ} (hn : 0 < n) (hlt : n < 2 ^ 53) :
    ∃ m e, Normal (Float.ofNat n) m e ∧ (m : ℚ) * 2 ^ e = n ∧ -52 ≤ e ∧ e ≤ 0 := by
  have hlog : n.log2 ≤ 52 := by
    have := (Nat.log2_lt (by omega)).mpr hlt
    omega
  have hword := toFloat_eq hn hlt
  obtain ⟨j, hj⟩ : ∃ j, j = 52 - n.log2 := ⟨_, rfl⟩
  rw [← hj] at hword
  have hlow : 2 ^ 52 ≤ n * 2 ^ j := by
    have := Nat.log2_self_le (n := n) (by omega)
    calc 2 ^ 52 = 2 ^ n.log2 * 2 ^ j := by rw [← pow_add]; congr 1; omega
      _ ≤ n * 2 ^ j := Nat.mul_le_mul_right _ this
  have hhigh : n * 2 ^ j < 2 ^ 53 := by
    have := Nat.lt_log2_self (n := n)
    calc n * 2 ^ j < 2 ^ (n.log2 + 1) * 2 ^ j := Nat.mul_lt_mul_of_pos_right this (by positivity)
      _ = 2 ^ 53 := by rw [← pow_add]; congr 1; omega
  have hnormal : Normal n.toUInt64.toFloat (n * 2 ^ j) (-j) := by
    have := nearest_exact hlow hhigh 0 (e := -j) (by omega) (by omega)
    rw [hword]
    simpa using this
  refine ⟨n * 2 ^ j, -j, ?_, ?_, by omega, by omega⟩
  · rw [ofNat_eq hlt, mul_normal hnormal normal_one]
    have := nearest_exact hlow hhigh 52 (e := -j - 52) (by omega) (by omega)
    simpa [sub_eq_add_neg] using this
  · rw [zpow_neg, zpow_natCast]
    push_cast
    field_simp

theorem normal_whole : Normal (Float.ofNat 1 - Float.ofNat 0) (2 ^ 52) (-52) :=
  ⟨le_refl _, by norm_num, by norm_num, by norm_num, rfl⟩

/-- One, divided by a number that is not too large or too small. -/
theorem normal_div (hx : Normal x (2 ^ 52) (-52)) (hy : Normal y m e) (hlow : -100 ≤ e)
    (hhigh : e ≤ 0) :
    ∃ m' e', Normal (x / y) m' e' ∧ -106 ≤ e' ∧ e' ≤ 0 := by
  have hm := hy.lower
  have hm' := hy.upper
  have hquotient : divCore Format.binary64 (2 ^ 52) (-52) m e =
      (2 ^ 105 / m, -105 - e, accuracyOfFraction (2 ^ 105 % m) m) := by
    have htarget :
        min (-52 - e)
        (Format.binary64.targetExponent (totalExponent (2 ^ 52) (-52) - totalExponent m e)) =
          -105 - e := by
      simp only [Format.targetExponent, totalExponent, Format.mantissaBits, Format.minExponent,
        log2_normal hm hm', Nat.log2_two_pow]
      norm_num
      omega
    unfold divCore
    simp only [htarget]
    rw [show (-52 - e - (-105 - e)).toNat = 53 by omega]
    rfl
  have hdiv : x / y = nearest (2 ^ 105 / m) (-105 - e) (accuracyOfFraction (2 ^ 105 % m) m) := by
    show Float.ofModel
      (.pack (UnpackedFloat.div Format.binary64 x.toModel.unpack y.toModel.unpack)) = _
    rw [hx.unpacked, hy.unpacked, number_pos (by norm_num), number_pos (by omega)]
    show (let (q, f, acc) := divCore Format.binary64 (2 ^ 52) (-52) m e; nearest q f acc) = _
    rw [hquotient]
  have hlog : 52 ≤ (2 ^ 105 / m).log2 := by
    have : 2 ^ 52 ≤ 2 ^ 105 / m := (Nat.le_div_iff_mul_le (by omega)).mpr (by omega)
    exact (Nat.le_log2 (by omega)).mpr this
  have hlog' : (2 ^ 105 / m).log2 < 54 := by
    have : 2 ^ 105 / m < 2 ^ 54 := (Nat.div_lt_iff_lt_mul (by omega)).mpr (by omega)
    exact (Nat.log2_lt (by rintro h; rw [h] at hlog; simp at hlog)).mpr this
  obtain ⟨m', e', h, hleast, hmost⟩ :=
    normal_nearest (accuracyOfFraction (2 ^ 105 % m) m) hlog (e := -105 - e) (by omega)
      (by unfold surplus; omega)
  unfold surplus at hleast hmost
  exact ⟨m', e', hdiv ▸ h, by omega, by omega⟩

theorem zero_add_normal (h : Normal x m e) : Float.ofNat 0 + x = x := by
  have hm := h.lower
  have hzero : (Float.ofNat 0).toModel.unpack = .zero .positive := rfl
  have hback : Float.ofModel (.pack x.toModel.unpack) = x := by
    obtain ⟨⟨bits, hvalid⟩⟩ := x
    have : (Float.Model.pack (Float.Model.unpack ⟨bits, hvalid⟩)).toBits = bits :=
      congrArg UInt64.ofBitVec (pack_unpack_of_valid hvalid)
    congr 1
    exact (Float.Model.mk.injEq ..).mpr this
  show Float.ofModel
    (.pack (UnpackedFloat.add Format.binary64 (Float.ofNat 0).toModel.unpack x.toModel.unpack)) = x
  rw [hzero]
  conv_rhs => rw [← hback]
  rw [h.unpacked, number_pos (by omega)]
  rfl

/-! ## Starts of even parts -/

theorem start_zero (h : Normal x m e) : Float.ofNat 0 + x * Float.ofNat 0 = Float.ofNat 0 := by
  have hm := h.lower
  have hmul : x * Float.ofNat 0 = Float.ofNat 0 := by
    show Float.ofModel (.pack
      (UnpackedFloat.mul Format.binary64 x.toModel.unpack (Float.ofNat 0).toModel.unpack)) = _
    rw [h.unpacked, number_pos (by omega)]
    rfl
  rw [hmul]
  rfl

/-- The start of a part other than the first one is rounded once. -/
theorem start_eq (h : Normal x m e) (he : -106 ≤ e) (he' : e ≤ 0) {n : ℕ} (hn : 0 < n)
    (hlt : n < 2 ^ 53) :
    ∃ (p : ℕ) (f : ℤ), 52 ≤ p.log2 ∧ -1074 ≤ f ∧ f + surplus p ≤ 970 ∧
      (p : ℚ) * 2 ^ f = m * 2 ^ e * n ∧
      Float.ofNat 0 + x * Float.ofNat n = nearest p f .exact := by
  obtain ⟨k, g, hk, hval, hg, hg'⟩ := normal_ofNat hn hlt
  have hml := h.lower
  have hmu := h.upper
  have hkl := hk.lower
  have hku := hk.upper
  have hlow : 52 ≤ (m * k).log2 := (Nat.le_log2 (by positivity)).mpr (by nlinarith)
  have hhigh : (m * k).log2 < 106 := (Nat.log2_lt (by positivity)).mpr (by nlinarith)
  have hsurplus : e + g + surplus (m * k) ≤ 970 := by unfold surplus; omega
  refine ⟨m * k, e + g, hlow, by omega, hsurplus, ?_, ?_⟩
  · rw [← hval, zpow_add₀ (by norm_num)]
    push_cast
    ring
  · rw [mul_normal h hk]
    obtain ⟨_, _, hnormal, -⟩ := normal_nearest .exact hlow (e := e + g) (by omega) hsurplus
    exact zero_add_normal hnormal

theorem starts_le (h : Normal x m e) (he : -106 ≤ e) (he' : e ≤ 0) {i j : ℕ} (hij : i < j)
    (hj : j < 2 ^ 53) :
    floatRank (Float.ofNat 0 + x * Float.ofNat i) ≤
      floatRank (Float.ofNat 0 + x * Float.ofNat j) := by
  obtain ⟨p, f, hp, hf, hr, hval, heq⟩ := start_eq h he he' (Nat.zero_lt_of_lt hij) hj
  rw [heq]
  rcases Nat.eq_zero_or_pos i with rfl | hi
  · have hzero : floatRank (Float.ofNat 0) = 0 := rfl
    rw [start_zero h, hzero, rank_nearest hp hf hr]
    have : 0 ≤ f + surplus p + 1074 := by omega
    positivity
  · obtain ⟨p', f', hp', hf', hr', hval', heq'⟩ := start_eq h he he' hi (by omega)
    rw [heq']
    refine rank_nearest_le hp' hf' hr' hp hf hr ?_
    rw [hval, hval']
    have : (i : ℚ) ≤ j := by exact_mod_cast hij.le
    exact mul_le_mul_of_nonneg_left this (by positivity)

/-- The even parts of the key space stand in the order of their starts. -/
theorem uniform_ordered {count : ℕ} (h : count < 2 ^ 53) :
    (KeyRange.uniform count : List (KeyRange Float)).Pairwise fun r r' =>
      (Bound.order r.start r'.start).isLE = true := by
  unfold KeyRange.uniform KeyRange.split
  refine List.pairwise_map.mpr
    (List.Pairwise.imp_of_mem (fun {i j} hi hj hij => ?_) List.pairwise_lt_range)
  have hj : j < count := List.mem_range.mp hj
  obtain ⟨m, e, hcount, -, hlow, hhigh⟩ := normal_ofNat (n := count) (by omega) h
  obtain ⟨m', e', hwidth, hlow', hhigh'⟩ := normal_div normal_whole hcount (by omega) hhigh
  exact Int.isLE_compare.mpr (starts_le hwidth hlow' hhigh' hij (by omega))

end Rounding

end StreamControl
