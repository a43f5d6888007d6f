import Mathlib
import Stencil.Decimal.Binary
import Stencil.Proofs.Floats

/-!
# Integers among the floating-point numbers

The bits of a float tell its sign, its exponent and its mantissa, and these tell it apart from all
others. The float nearest to an integer is an integer again. Its sum with a half is exact below
`2 ^ 52`, is rounded to the even neighbour between there and `2 ^ 53`, and is the float itself
after that.
-/
namespace Stencil.Decimal

open Float.Model Float.Model.UnpackedFloat

variable {x y : Float} {s : Sign} {part : Nat × Int}

section Bits

theorem toNat_unpackMantissa (b : BitVec 64) :
    (@unpackMantissa Format.binary64 b).toNat = b.toNat % 2 ^ 52 := by
  have hbits : (@unpackMantissa Format.binary64 b).toNat = (b.extractLsb 51 0).toNat := rfl
  rw [hbits, BitVec.extractLsb_toNat, Nat.shiftRight_zero]

theorem toNat_unpackExponent (b : BitVec 64) :
    (@unpackExponent Format.binary64 b).toNat = b.toNat / 2 ^ 52 % 2 ^ 11 := by
  have hbits : (@unpackExponent Format.binary64 b).toNat = (b.extractLsb 62 52).toNat := rfl
  rw [hbits, BitVec.extractLsb_toNat, Nat.shiftRight_eq_div_pow]

theorem toNat_unpackSign (b : BitVec 64) :
    (@unpackSign Format.binary64 b).toNat = b.toNat / 2 ^ 63 := by
  have hbits : (@unpackSign Format.binary64 b).toNat = (b.extractLsb 63 63).toNat := rfl
  rw [hbits, BitVec.extractLsb_toNat, Nat.shiftRight_eq_div_pow]
  have := b.isLt
  omega

theorem toBitVec_ofBitVec (b : BitVec 1) : (Sign.ofBitVec b).toBitVec = b := by
  revert b
  decide

/-- Sign, exponent and mantissa as they stand in the bits. -/
theorem toNat_toBits (h : IsNormal part) (hx : IsFinite x.toModel.unpack s part) :
    x.toBits.toNat
      = s.toBitVec.toNat * 2 ^ 63 + (part.2 + 1075).toNat * 2 ^ 52 + (part.1 - 2 ^ 52) := by
  obtain ⟨hpos, hx⟩ := hx
  have hsign := toNat_unpackSign x.toBits.toBitVec
  have hexponent := toNat_unpackExponent x.toBits.toBitVec
  have hmantissa := toNat_unpackMantissa x.toBits.toBitVec
  have hlow := h.low
  have hlt : x.toBits.toBitVec.toNat < 2 ^ 64 := x.toBits.toBitVec.isLt
  have hbias : (Format.binary64.exponentBias + Format.binary64.mantissaBitsWithoutImplicit : Int)
      = 1075 := by decide
  change UnpackedFloat.unpack Format.binary64 x.toBits.toBitVec = _ at hx
  change x.toBits.toBitVec.toNat = _
  unfold UnpackedFloat.unpack at hx
  dsimp only at hx
  split at hx
  · split at hx <;> cases hx
  split at hx
  · -- without the leading bit the mantissa would be too small
    split at hx
    · cases hx
    · obtain ⟨rfl, hm, -⟩ := UnpackedFloat.finite.inj hx
      omega
  · obtain ⟨rfl, hm, he⟩ := UnpackedFloat.finite.inj hx
    rw [toBitVec_ofBitVec, hsign]
    have hone : (1#1 ++ @unpackMantissa Format.binary64 x.toBits.toBitVec).toNat
        = 2 ^ 52 + (@unpackMantissa Format.binary64 x.toBits.toBitVec).toNat := by
      rw [BitVec.toNat_append, ← Nat.shiftLeft_add_eq_or_of_lt (BitVec.isLt _)]
      rfl
    rw [hone, hmantissa] at hm
    rw [hexponent, hbias] at he
    omega

/-- A float is told apart by its sign, its mantissa and its exponent. -/
theorem eq_of_isFinite (h : IsNormal part) (hx : IsFinite x.toModel.unpack s part)
    (hy : IsFinite y.toModel.unpack s part) : x = y := by
  have hbits : x.toModel.toBits = y.toModel.toBits :=
    UInt64.toNat_inj.mp ((toNat_toBits h hx).trans (toNat_toBits h hy).symm)
  obtain ⟨⟨_, _⟩⟩ := x
  obtain ⟨⟨_, _⟩⟩ := y
  cases hbits
  rfl

def isMinus : Sign → Bool
  | .negative => true
  | .positive => false

theorem ofFloat?_eq (h : IsNormal part) (hx : IsFinite x.toModel.unpack s part) :
    Binary.ofFloat? x = some ⟨isMinus s, part.1, part.2⟩ := by
  have hbits := toNat_toBits h hx
  obtain ⟨hlow, hhigh, hleast, hgreatest⟩ := h
  have hsign : s.toBitVec.toNat < 2 := s.toBitVec.isLt
  have hnegative : x.toBits.toNat / 0x8000000000000000 = s.toBitVec.toNat := by omega
  have hexponent : x.toBits.toNat / 0x10000000000000 % 0x800 = (part.2 + 1075).toNat := by omega
  have hmantissa : x.toBits.toNat % 0x10000000000000 = part.1 - 2 ^ 52 := by omega
  have hminus : decide (s.toBitVec.toNat = 1) = isMinus s := by cases s <;> rfl
  have hwhole : part.1 - 2 ^ 52 + 0x10000000000000 = part.1 := by omega
  have hshift : ((part.2 + 1075).toNat : Int) - 1075 = part.2 := by omega
  simp only [Binary.ofFloat?, Binary.hidden, hnegative, hexponent, hmantissa, hminus, hwhole,
    hshift]
  rw [if_neg (by omega), if_neg (by omega)]

/-- The absolute value has the same mantissa and the same exponent. -/
theorem abs_isFinite (h : IsNormal part) (hx : IsFinite x.toModel.unpack s part) :
    IsFinite (Decimal.abs x).toModel.unpack .positive part := by
  have hpos : 0 < part.1 := Nat.lt_of_lt_of_le (Nat.two_pow_pos 52) h.low
  have hu : IsFinite (.finite .positive part.1 part.2 hpos) .positive part := ⟨hpos, rfl⟩
  have hunpack := unpack_pack h hu
  let y : Float := .ofModel (.pack (.finite .positive part.1 part.2 hpos))
  have hy : IsFinite y.toModel.unpack .positive part := ⟨hpos, hunpack⟩
  have hbits : (x.toBits &&& 0x7FFFFFFFFFFFFFFF) = y.toBits := by
    have hmask : (0x7FFFFFFFFFFFFFFF : UInt64).toNat = 2 ^ 63 - 1 := rfl
    have hsign : Sign.positive.toBitVec.toNat = 0 := rfl
    have hhigh := h.high
    have hgreatest := h.greatest
    rw [← UInt64.toNat_inj, toNat_toBits h hy, UInt64.toNat_and, hmask,
      Nat.and_two_pow_sub_one_eq_mod, toNat_toBits h hx, hsign]
    omega
  have hofBits : Float.ofBits y.toBits = y := by
    change Float.ofModel (.pack y.toModel.unpack) = y
    rw [show y.toModel.unpack = _ from hunpack]
  rw [Decimal.abs, hbits, hofBits]
  exact hy

end Bits

section Integers

theorem rank_nine : rank 9.0e18 = some (toLex (1, toLex (10, 8789062500000000))) := by
  rfl

theorem unpack_half : (0.5 : Float).toModel.unpack
    = .finite .positive (2 ^ 52) (-53) (Nat.two_pow_pos 52) := by
  rfl

theorem rounded_mul_two_pow (m k j : Nat) : rounded (m * 2 ^ j) (k + j) = rounded m k := by
  have hpos : 0 < 2 ^ j := Nat.two_pow_pos j
  cases k with
  | zero =>
    rw [Nat.zero_add, rounded_of_dvd (Nat.dvd_mul_left _ _), Nat.mul_div_cancel _ hpos,
      rounded_zero]
  | succ k =>
    have hquotient (i : Nat) : m * 2 ^ j / 2 ^ (i + j) = m / 2 ^ i := by
      rw [Nat.pow_add, Nat.mul_div_mul_right _ _ hpos]
    have hrest : m * 2 ^ j % 2 ^ (k + j) = m % 2 ^ k * 2 ^ j := by
      rw [Nat.pow_add, Nat.mul_mod_mul_right]
    have hzero : m % 2 ^ k * 2 ^ j ≠ 0 ↔ m % 2 ^ k ≠ 0 := by
      rw [ne_eq, Nat.mul_eq_zero]
      simp
    rw [Nat.add_right_comm, rounded_succ, rounded_succ, hquotient, hrest]
    rw [Nat.add_right_comm k j 1, hquotient,
      if_congr (and_congr_right fun _ => or_congr_left hzero) rfl rfl]

/-- The multiple of a number that is nearest to another one, of two such the even one. -/
def nearestMultiple (g a : Nat) : Nat :=
  if 2 * (a % g) < g ∨ 2 * (a % g) = g ∧ a / g % 2 = 0 then a / g * g else (a / g + 1) * g

theorem rounded_mul_eq (a k : Nat) : rounded a k * 2 ^ k = nearestMultiple (2 ^ k) a := by
  cases k with
  | zero => simp [rounded_zero, nearestMultiple, Nat.mod_one]
  | succ k =>
    have hsplit : a % 2 ^ (k + 1) = a % 2 ^ k + 2 ^ k * (a / 2 ^ k % 2) := Nat.mod_pow_succ
    have hlt : a % 2 ^ k < 2 ^ k := Nat.mod_lt _ (Nat.two_pow_pos k)
    have hdouble : 2 ^ (k + 1) = 2 * 2 ^ k := by rw [Nat.pow_succ, Nat.mul_comm]
    rw [rounded_succ, nearestMultiple, hsplit]
    rcases Nat.mod_two_eq_zero_or_one (a / 2 ^ k) with hbit | hbit
    · rw [hbit, if_neg (by omega), if_pos (by omega), Nat.add_zero]
    · rw [hbit, Nat.mul_one]
      by_cases heven : a % 2 ^ k = 0 ∧ a / 2 ^ (k + 1) % 2 = 0
      · rw [if_neg (by omega), if_pos (by omega), Nat.add_zero]
      · rw [if_pos (by omega), if_neg (by omega)]

theorem Binary.wholePart_natCast (b : Bool) (m e : Nat) :
    (⟨b, m, (e : Int)⟩ : Binary).wholePart = m * 2 ^ e :=
  if_pos (Int.natCast_nonneg e)

theorem Binary.isWhole_natCast (b : Bool) (m e : Nat) : (⟨b, m, (e : Int)⟩ : Binary).isWhole := by
  simp [Binary.isWhole]

theorem Binary.wholePart_neg (b : Bool) (m k : Nat) :
    (⟨b, m, -(k : Int)⟩ : Binary).wholePart = m / 2 ^ k := by
  cases k with
  | zero => simp [Binary.wholePart]
  | succ k => exact if_neg (by simp only; omega)

theorem Binary.isWhole_neg (b : Bool) (m k : Nat) :
    (⟨b, m, -(k : Int)⟩ : Binary).isWhole ↔ 2 ^ k ∣ m := by
  cases k with
  | zero => simp [Binary.isWhole]
  | succ k =>
    have hneg : ¬ (0 : Int) ≤ -((k + 1 : Nat) : Int) := by omega
    have hpow : Nat.pow 2 (-((k + 1 : Nat) : Int)).natAbs = 2 ^ (k + 1) := by
      rw [Int.natAbs_neg, Int.natAbs_natCast]
      rfl
    simp only [Binary.isWhole, hneg, hpow, decide_false, Bool.false_or, decide_eq_true_eq,
      Nat.dvd_iff_mod_eq_zero]

/-- How far apart the floats are around an integer. -/
def grain (a : Nat) : Nat := 2 ^ (a.log2 - 52)

/-- The nearest number of an integer is one, of 53 bits. -/
theorem nearest_whole {a : Nat} (ha : 0 < a) (b : Bool) :
    (⟨b, (nearest a).1, (nearest a).2⟩ : Binary).isWhole ∧
      (⟨b, (nearest a).1, (nearest a).2⟩ : Binary).wholePart = nearestMultiple (grain a) a := by
  by_cases hsmall : a < 2 ^ 53
  · have hlog : a.log2 < 53 := (Nat.log2_lt ha.ne').mpr hsmall
    have hgrain : grain a = 1 := by rw [grain, Nat.sub_eq_zero_of_le (by omega), Nat.pow_zero]
    have hself : nearestMultiple 1 a = a := by simp [nearestMultiple, Nat.mod_one]
    have hexponent : (a.log2 : Int) - 52 = -((52 - a.log2 : Nat) : Int) := by omega
    rw [nearest_of_lt ha hsmall, hgrain, hself, hexponent, Binary.isWhole_neg, Binary.wholePart_neg]
    exact ⟨Nat.dvd_mul_left _ _, Nat.mul_div_cancel _ (Nat.two_pow_pos _)⟩
  · have hlog : 53 ≤ a.log2 := (Nat.le_log2 ha.ne').mpr (by omega)
    have hexponent : (a.log2 : Int) - 52 = (a.log2 - 52 : Nat) := by omega
    have hrounded : rounded (a * 2 ^ 53) (a.log2 + 1) = rounded a (a.log2 - 52) := by
      rw [← rounded_mul_two_pow a (a.log2 - 52) 53]
      congr 1
      omega
    rw [nearest, hrounded, carry, hexponent, grain, ← rounded_mul_eq]
    split
    · rename_i hfull
      rw [hfull, ← Int.natCast_succ]
      refine ⟨Binary.isWhole_natCast _ _ _, ?_⟩
      rw [Binary.wholePart_natCast, Nat.pow_succ]
      omega
    · exact ⟨Binary.isWhole_natCast _ _ _, Binary.wholePart_natCast _ _ _⟩

theorem abs_lt_nine_iff (h : IsNormal part) (hx : IsFinite x.toModel.unpack s part) :
    Decimal.abs x < 9.0e18 ↔ (⟨isMinus s, part.1, part.2⟩ : Binary).wholePart < 9 * 10 ^ 18 := by
  obtain ⟨hpos, habs⟩ := abs_isFinite h hx
  have hrank : rank (Decimal.abs x) = some (toLex (1, toLex (part.2, (part.1 : Int)))) := by
    rw [rank, habs]
    rfl
  have hlt : Decimal.abs x < 9.0e18 ↔ part.2 < 10 ∨ part.2 = 10 ∧ part.1 < 8789062500000000 := by
    rw [lt_iff_rank, hrank, rank_nine]
    simp [Prod.Lex.toLex_lt_toLex]
  rw [hlt]
  obtain ⟨hlow, hhigh, -, -⟩ := h
  obtain ⟨m, e⟩ := part
  dsimp only at *
  rcases Int.lt_or_le e 0 with he | he
  · obtain ⟨k, rfl⟩ : ∃ k : Nat, e = -(k : Int) := ⟨e.natAbs, by omega⟩
    have hle : m / 2 ^ k ≤ m := Nat.div_le_self _ _
    rw [Binary.wholePart_neg]
    omega
  · obtain ⟨k, rfl⟩ := Int.eq_ofNat_of_zero_le he
    rw [Binary.wholePart_natCast]
    rcases Nat.lt_trichotomy k 10 with hk | rfl | hk
    · have hle : m * 2 ^ k ≤ m * 2 ^ 9 :=
        Nat.mul_le_mul_left m (Nat.pow_le_pow_right (by decide) (by omega))
      omega
    · omega
    · have hle : m * 2 ^ 11 ≤ m * 2 ^ k :=
        Nat.mul_le_mul_left m (Nat.pow_le_pow_right (by decide) hk)
      omega

theorem toInt64_eq (h : IsNormal part) (hx : IsFinite x.toModel.unpack s part)
    (hbound : (⟨isMinus s, part.1, part.2⟩ : Binary).wholePart < 9 * 10 ^ 18) :
    toInt64 x = Int64.ofInt (Binary.truncate ⟨isMinus s, part.1, part.2⟩) := by
  have hmin : Int64.minValue.toInt = -9223372036854775808 := rfl
  have hmax : Int64.maxValue.toInt = 9223372036854775807 := rfl
  have hbounds : -(9 * 10 ^ 18) < Binary.truncate ⟨isMinus s, part.1, part.2⟩ ∧
      Binary.truncate ⟨isMinus s, part.1, part.2⟩ < 9 * 10 ^ 18 := by
    rw [Binary.truncate, Binary.signed]
    split <;> omega
  simp only [toInt64, ofFloat?_eq h hx]
  rw [if_neg (by omega), if_neg (by omega)]

end Integers

section Halves

/-- Half of a number of 53 bits. -/
def halved (part : Nat × Int) : Nat × Int := (part.1, part.2 - 1)

theorem round_half_isFinite (s : Sign) {t : Nat} (ht : 0 < t) :
    IsFinite (UnpackedFloat.round Format.binary64 s (t * 2 ^ 52) (-53)) s (halved (nearest t)) := by
  have hlog := log2_mul_two_pow ht 52
  have htarget := targetExponent_eq (m := t * 2 ^ 52) (e := -53) (by omega)
  have hshift : (-53 - (-53 + ((t * 2 ^ 52).log2 : Int) - 52)).toNat = 0 := by omega
  have hfinite := roundWithAccuracy_isFinite s (m := t * 2 ^ 52) (e := -53) (by omega) (by omega)
  have hrounded : rounded (t * 2 ^ 52) ((t * 2 ^ 52).log2 - 52)
      = rounded (t * 2 ^ 53) (t.log2 + 1) := by
    rw [← rounded_mul_two_pow (t * 2 ^ 52) _ 1, Nat.mul_assoc]
    congr 1
    omega
  have hpart : carry (rounded (t * 2 ^ 52) ((t * 2 ^ 52).log2 - 52))
      (-53 + ((t * 2 ^ 52).log2 : Int) - 52) = halved (nearest t) := by
    have hexponent : -53 + ((t * 2 ^ 52).log2 : Int) - 52 = (t.log2 : Int) - 52 - 1 := by omega
    rw [hrounded, hexponent, nearest, halved, carry, carry]
    split <;> simp
  rw [hpart] at hfinite
  rw [UnpackedFloat.round, htarget, decreaseExponent, hshift]
  exact hfinite

/-- Twice the sum of an integer, with a sign, and a half. -/
def twicePlusOne (s : Sign) (v : Nat) : Nat := if isMinus s then 2 * v - 1 else 2 * v + 1

theorem normalize_apply {spec : Format} {s z : Sign} {m : Nat} {e : Int} (hm : 0 < m) :
    UnpackedFloat.normalize spec (s.apply m) e z = UnpackedFloat.round spec s m e := by
  cases s with
  | positive =>
    have hsign : compare (m : Int) 0 = .gt := Int.compare_eq_gt.mpr (by omega)
    simp only [UnpackedFloat.normalize, Sign.apply, hsign, Int.toNat_natCast]
  | negative =>
    have hsign : compare (-(m : Int)) 0 = .lt := Int.compare_eq_lt.mpr (by omega)
    simp only [UnpackedFloat.normalize, Sign.apply, hsign, Int.neg_neg, Int.toNat_natCast]

theorem add_half_isFinite {v : Nat} (hv : 0 < v) (hx : IsFinite x.toModel.unpack s part)
    (hleast : -52 ≤ part.2) (hvalue : part.1 * 2 ^ (part.2 + 53).toNat = v * 2 ^ 53)
    (h : IsNormal (halved (nearest (twicePlusOne s v)))) :
    IsFinite (x + 0.5).toModel.unpack s (halved (nearest (twicePlusOne s v))) := by
  obtain ⟨hpos, hx⟩ := hx
  have htwice : 0 < twicePlusOne s v := by
    rw [twicePlusOne]
    split <;> omega
  have hsum : UnpackedFloat.add Format.binary64 x.toModel.unpack (0.5 : Float).toModel.unpack
      = UnpackedFloat.round Format.binary64 s (twicePlusOne s v * 2 ^ 52) (-53) := by
    have hmin : min part.2 (-53) = -53 := by omega
    have hshift : (part.2 - -53).toNat = (part.2 + 53).toNat := by omega
    rw [hx, unpack_half, UnpackedFloat.add]
    simp only [hmin, decreaseExponent, hshift, Nat.shiftLeft_eq, hvalue]
    have hsum : s.apply (v * 2 ^ 53 : Nat) + Sign.positive.apply (2 ^ 52 * 2 ^ 0 : Nat)
        = s.apply (twicePlusOne s v * 2 ^ 52 : Nat) := by
      cases s <;>
        simp only [Sign.apply, twicePlusOne, isMinus, if_true, Bool.false_eq_true, if_false] <;>
        omega
    exact (congrArg (UnpackedFloat.normalize _ · _ _) hsum).trans (normalize_apply (by omega))
  have hfinite := round_half_isFinite s htwice
  rw [← hsum] at hfinite
  have hunpack := unpack_pack h hfinite
  rw [← hunpack] at hfinite
  exact hfinite

/-- The nearest number in terms of the place of its last bit. -/
theorem nearest_eq_carry {t k : Nat} (hlog : t.log2 = 52 + k) :
    nearest t = carry (rounded t k) k := by
  have hrounded : rounded (t * 2 ^ 53) (t.log2 + 1) = rounded t k := by
    rw [← rounded_mul_two_pow t k 53]
    congr 1
    omega
  have hexponent : (t.log2 : Int) - 52 = k := by omega
  rw [nearest, hrounded, hexponent]

theorem log2_of_scaled {t k : Nat} (h : 2 ^ 52 * 2 ^ k ≤ t) (h' : t < 2 ^ 53 * 2 ^ k) :
    t.log2 = 52 + k := by
  have hne : t ≠ 0 := (Nat.lt_of_lt_of_le (by positivity) h).ne'
  rw [Nat.log2_eq_iff hne, Nat.add_right_comm, Nat.pow_add, Nat.pow_add]
  exact ⟨h, h'⟩

theorem div_eq_of_scaled {t q d : Nat} (h : q * d ≤ t) (h' : t < q * d + d) : t / d = q :=
  Nat.div_eq_of_lt_le h (by rwa [Nat.succ_mul])

/-- One more than a large even number is rounded down to it. -/
theorem nearest_double_succ {m k : Nat} (hlow : 2 ^ 52 ≤ m) (hhigh : m < 2 ^ 53) (hk : 0 < k) :
    nearest (2 * (m * 2 ^ k) + 1) = (m, (k : Int) + 1) := by
  have hpos : 2 ≤ 2 ^ k := Nat.le_self_pow hk.ne' 2
  have hpow : 2 ^ (k + 1) = 2 * 2 ^ k := Nat.pow_succ'
  have hdouble : m * 2 ^ (k + 1) = 2 * (m * 2 ^ k) := by rw [hpow, Nat.mul_left_comm]
  have hleast : 2 ^ 52 * 2 ^ k ≤ m * 2 ^ k := Nat.mul_le_mul_right _ hlow
  have hgreatest : (m + 1) * 2 ^ k ≤ 2 ^ 53 * 2 ^ k := Nat.mul_le_mul_right _ hhigh
  rw [Nat.succ_mul] at hgreatest
  have hlog : (2 * (m * 2 ^ k) + 1).log2 = 52 + (k + 1) := log2_of_scaled (by omega) (by omega)
  have hwhole : (2 * (m * 2 ^ k) + 1) / 2 ^ (k + 1) = m := div_eq_of_scaled (by omega) (by omega)
  have hnext : (2 * (m * 2 ^ k) + 1) / 2 ^ k = 2 * m :=
    div_eq_of_scaled (by rw [Nat.mul_assoc]; omega) (by rw [Nat.mul_assoc]; omega)
  rw [nearest_eq_carry hlog, rounded_succ, hwhole, hnext, if_neg (by omega), Nat.add_zero, carry,
    if_neg hhigh.ne]
  rfl

/-- One less than a large even number is rounded up to it. -/
theorem nearest_double_pred {m k : Nat} (hlow : 2 ^ 52 < m) (hhigh : m < 2 ^ 53) (hk : 0 < k) :
    nearest (2 * (m * 2 ^ k) - 1) = (m, (k : Int) + 1) := by
  have hpos : 2 ≤ 2 ^ k := Nat.le_self_pow hk.ne' 2
  have hpow : 2 ^ (k + 1) = 2 * 2 ^ k := Nat.pow_succ'
  have hdouble : m * 2 ^ (k + 1) = 2 * (m * 2 ^ k) := by rw [hpow, Nat.mul_left_comm]
  have hleast : (2 ^ 52 + 1) * 2 ^ k ≤ m * 2 ^ k := Nat.mul_le_mul_right _ hlow
  have hgreatest : (m + 1) * 2 ^ k ≤ 2 ^ 53 * 2 ^ k := Nat.mul_le_mul_right _ hhigh
  rw [Nat.succ_mul] at hleast hgreatest
  have hlog : (2 * (m * 2 ^ k) - 1).log2 = 52 + (k + 1) := log2_of_scaled (by omega) (by omega)
  have hwhole : (2 * (m * 2 ^ k) - 1) / 2 ^ (k + 1) = m - 1 := by
    refine div_eq_of_scaled ?_ ?_ <;> rw [Nat.sub_mul, hdouble] <;> omega
  have hnext : (2 * (m * 2 ^ k) - 1) / 2 ^ k = 2 * m - 1 := by
    refine div_eq_of_scaled ?_ ?_ <;> rw [Nat.sub_mul, Nat.mul_assoc] <;> omega
  have hrest := Nat.div_add_mod' (2 * (m * 2 ^ k) - 1) (2 ^ k)
  rw [hnext, Nat.sub_mul, Nat.mul_assoc, Nat.one_mul] at hrest
  rw [nearest_eq_carry hlog, rounded_succ, hwhole, hnext, if_pos (by omega),
    Nat.sub_add_cancel (by omega), carry, if_neg hhigh.ne]
  rfl

/-- One less than a power of two has one bit less, and is rounded up to that power. -/
theorem nearest_two_pow_pred {k : Nat} (hk : 0 < k) :
    nearest (2 * (2 ^ 52 * 2 ^ k) - 1) = (2 ^ 52, (k : Int) + 1) := by
  obtain ⟨j, rfl⟩ : ∃ j, k = j + 1 := ⟨k - 1, by omega⟩
  have hpos : 0 < 2 ^ j := Nat.two_pow_pos j
  have hpow : 2 ^ (j + 1) = 2 * 2 ^ j := Nat.pow_succ'
  have hlog : (2 * (2 ^ 52 * 2 ^ (j + 1)) - 1).log2 = 52 + (j + 1) :=
    log2_of_scaled (by omega) (by omega)
  have hwhole : (2 * (2 ^ 52 * 2 ^ (j + 1)) - 1) / 2 ^ (j + 1) = 2 ^ 53 - 1 :=
    div_eq_of_scaled (by omega) (by omega)
  have hnext : (2 * (2 ^ 52 * 2 ^ (j + 1)) - 1) / 2 ^ j = 2 ^ 54 - 1 :=
    div_eq_of_scaled (by omega) (by omega)
  rw [nearest_eq_carry hlog, rounded_succ, hwhole, hnext, if_pos (by omega)]
  rfl

/-- Among large numbers a half makes no difference. -/
theorem nearest_twicePlusOne (s : Sign) {m k : Nat} (hlow : 2 ^ 52 ≤ m) (hhigh : m < 2 ^ 53)
    (hk : 0 < k) : nearest (twicePlusOne s (m * 2 ^ k)) = (m, (k : Int) + 1) := by
  cases s with
  | positive => exact nearest_double_succ hlow hhigh hk
  | negative =>
    rcases Nat.lt_or_eq_of_le hlow with hlow | rfl
    · exact nearest_double_pred hlow hhigh hk
    · exact nearest_two_pow_pred hk

theorem halved_carry {b : Nat} (hlow : 2 ^ 52 ≤ b) (hhigh : b ≤ 2 ^ 53) :
    halved (carry b 1) = nearest b := by
  rcases Nat.lt_or_eq_of_le hhigh with hlt | rfl
  · have hlog : b.log2 = 52 + 0 := (Nat.log2_eq_iff (by omega)).mpr ⟨hlow, hlt⟩
    rw [nearest_eq_carry hlog, rounded_zero, carry, carry, if_neg hlt.ne, if_neg hlt.ne]
    rfl
  · have hlog : (2 ^ 53).log2 = 52 + 1 := Nat.log2_two_pow
    rw [nearest_eq_carry hlog]
    rfl

/-- Where the floats are the integers, half of an odd number lies between two of them, and goes to
the even one. -/
theorem nearest_of_odd {t : Nat} (hodd : t % 2 = 1) (hlow : 2 ^ 53 ≤ t) (hhigh : t < 2 ^ 54) :
    halved (nearest t) = nearest (t / 2 + t / 2 % 2) := by
  have hlog : t.log2 = 52 + 1 := (Nat.log2_eq_iff (by omega)).mpr ⟨hlow, hhigh⟩
  have hrounded : rounded t 1 = t / 2 + t / 2 % 2 := by
    rw [rounded_succ, Nat.pow_zero, Nat.mod_one, Nat.div_one, Nat.zero_add, Nat.pow_one]
    split <;> omega
  rw [nearest_eq_carry hlog, hrounded]
  exact halved_carry (by omega) (by omega)

theorem floor_add_half_zero : Decimal.floor (ofInt64 0 + 0.5) = ofInt64 0 := by
  rfl

theorem floor_half {t : Nat} (h : IsNormal (halved (nearest t)))
    (hx : IsFinite x.toModel.unpack s (halved (nearest t))) (ht : t % 2 = 1) (hsmall : t < 2 ^ 53) :
    Decimal.floor x
      = floatOfInt (isMinus s) (if isMinus s then -(t / 2 : Nat) - 1 else (t / 2 : Nat)) := by
  have hlog : t.log2 < 53 := (Nat.log2_lt (by omega)).mpr hsmall
  have hexponent : (t.log2 : Int) - 52 - 1 = -((53 - t.log2 : Nat) : Int) := by omega
  have hpart : halved (nearest t) = (t * 2 ^ (52 - t.log2), -((53 - t.log2 : Nat) : Int)) := by
    rw [nearest_of_lt (by omega) hsmall, halved, hexponent]
  have hpow : 2 ^ (53 - t.log2) = 2 * 2 ^ (52 - t.log2) := by
    rw [← Nat.pow_succ']
    congr 1
    omega
  have hpos : 0 < 2 ^ (52 - t.log2) := Nat.two_pow_pos _
  have hvalue := ofFloat?_eq h hx
  rw [hpart] at hvalue
  have hfraction : Binary.isWhole ⟨isMinus s, t * 2 ^ (52 - t.log2), -((53 - t.log2 : Nat) : Int)⟩
      = false := by
    rw [Bool.eq_false_iff, ne_eq, Binary.isWhole_neg, hpow]
    intro hdvd
    have := Nat.dvd_of_mul_dvd_mul_right hpos hdvd
    omega
  have hquotient : t * 2 ^ (52 - t.log2) / 2 ^ (53 - t.log2) = t / 2 := by
    rw [hpow, Nat.mul_div_mul_right _ _ hpos]
  simp only [Decimal.floor, roundBy, hvalue, hfraction, Bool.false_eq_true, if_false, Binary.floor,
    Binary.truncate, Binary.signed, Binary.wholePart_neg, hquotient, Bool.not_false, Bool.and_true]
  cases isMinus s <;> rfl

end Halves

end Stencil.Decimal
