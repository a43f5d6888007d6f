import Mathlib
import Stencil.Decimal.Binary

/-!
# The order of floating-point numbers

A float that is a number has a rank, and floats are ordered as their ranks are. An integer becomes
the number of 53 bits that is nearest to it, so that a greater integer has no lesser float.
-/
namespace Stencil.Decimal

open Float.Model Float.Model.UnpackedFloat

/-- The quotient by `2 ^ k`, rounded to nearest and to even. -/
def rounded (m k : Nat) : Nat :=
  ((ExtendedMantissa.ofMantissaAndAccuracy m .exact) >>> k).roundedMantissa

theorem rounded_zero (m : Nat) : rounded m 0 = m := rfl

/-- The two bits kept besides a quotient are the next one and whether any after it is set. -/
theorem shift_succ (m k : Nat) :
    (ExtendedMantissa.ofMantissaAndAccuracy m .exact) >>> (k + 1)
      = ⟨m / 2 ^ (k + 1), m / 2 ^ k % 2 != 0, m % 2 ^ k != 0⟩ := by
  induction k with
  | zero =>
    change ExtendedMantissa.shiftRightOne ⟨m, false, false⟩ = _
    simp [ExtendedMantissa.shiftRightOne, Nat.mod_one]
  | succ k ih =>
    change ExtendedMantissa.shiftRightOne
      ((ExtendedMantissa.ofMantissaAndAccuracy m .exact) >>> (k + 1)) = _
    rw [ih, ExtendedMantissa.shiftRightOne, Nat.div_div_eq_div_mul, ← Nat.pow_succ]
    congr 1
    have hsplit : m % 2 ^ (k + 1) = m % 2 ^ k + 2 ^ k * (m / 2 ^ k % 2) := Nat.mod_pow_succ
    have hpos : 2 ^ k ≠ 0 := (Nat.two_pow_pos k).ne'
    rw [Bool.eq_iff_iff]
    simp only [Bool.or_eq_true, bne_iff_ne, ne_eq, hsplit, Nat.add_eq_zero_iff, Nat.mul_eq_zero]
    tauto

theorem roundedMantissa_eq (q : Nat) (half sticky : Bool) :
    (⟨q, half, sticky⟩ : ExtendedMantissa).roundedMantissa
      = q + if half && (sticky || q % 2 = 1) then 1 else 0 := by
  cases half <;> cases sticky <;>
    simp [ExtendedMantissa.roundedMantissa, ExtendedMantissa.accuracy, Accuracy.roundToNearestEven]
  split <;> omega

theorem rounded_succ (m k : Nat) :
    rounded m (k + 1) = m / 2 ^ (k + 1) + if m / 2 ^ k % 2 = 1 ∧
      (m % 2 ^ k ≠ 0 ∨ m / 2 ^ (k + 1) % 2 = 1) then 1 else 0 := by
  rw [rounded, shift_succ, roundedMantissa_eq]
  congr 2
  simp [bne_iff_ne]

theorem rounded_bounds (m k : Nat) :
    m / 2 ^ k ≤ rounded m k ∧ rounded m k ≤ m / 2 ^ k + 1 := by
  cases k with
  | zero => simp [rounded_zero]
  | succ k =>
    rw [rounded_succ]
    split <;> omega

theorem rounded_of_dvd {m k : Nat} (h : 2 ^ k ∣ m) : rounded m k = m / 2 ^ k := by
  cases k with
  | zero => simp [rounded_zero]
  | succ k =>
    have hhalf : m / 2 ^ k % 2 = 0 := by
      obtain ⟨q, rfl⟩ := h
      rw [Nat.pow_succ, Nat.mul_assoc, Nat.mul_div_cancel_left _ (Nat.two_pow_pos k)]
      omega
    simp [rounded_succ, hhalf]

theorem rounded_mono {m n : Nat} (h : m ≤ n) (k : Nat) : rounded m k ≤ rounded n k := by
  cases k with
  | zero => exact h
  | succ k =>
    have hquotients : m / 2 ^ k ≤ n / 2 ^ k := Nat.div_le_div_right h
    have hm : m / 2 ^ (k + 1) = m / 2 ^ k / 2 := by rw [Nat.div_div_eq_div_mul, Nat.pow_succ]
    have hn : n / 2 ^ (k + 1) = n / 2 ^ k / 2 := by rw [Nat.div_div_eq_div_mul, Nat.pow_succ]
    -- with the same quotient the larger number has the larger rest
    have hrests : m / 2 ^ k = n / 2 ^ k → m % 2 ^ k ≤ n % 2 ^ k := by
      intro heq
      have hm := Nat.div_add_mod m (2 ^ k)
      have hn := Nat.div_add_mod n (2 ^ k)
      rw [heq] at hm
      omega
    rw [rounded_succ, rounded_succ, hm, hn]
    split <;> split <;> omega

/-- Mantissa and exponent of a number of 53 bits; a mantissa that has reached `2 ^ 53` is halved. -/
def carry (q : Nat) (e : Int) : Nat × Int := if q = 2 ^ 53 then (2 ^ 52, e + 1) else (q, e)

/-- The number is finite, with this sign, mantissa and exponent. -/
def IsFinite (u : UnpackedFloat) (s : Sign) (part : Nat × Int) : Prop :=
  ∃ h, u = .finite s part.1 part.2 h

theorem targetExponent_eq {m : Nat} {e : Int} (h : -1074 ≤ e + m.log2 - 52) :
    Format.binary64.targetExponent (totalExponent m e) = e + m.log2 - 52 := by
  have hmin : Format.binary64.minExponent = -1074 := by decide
  have hbits : (Format.binary64.mantissaBits : Int) = 53 := by decide
  rw [Format.targetExponent, hmin, hbits, totalExponent]
  omega

theorem shiftToTargetExponent_eq {m : Nat} {e : Int} (hm : 52 ≤ m.log2)
    (h : -1074 ≤ e + m.log2 - 52) (accuracy : Accuracy) :
    shiftToTargetExponent Format.binary64 m e accuracy =
      ((ExtendedMantissa.ofMantissaAndAccuracy m accuracy) >>> (m.log2 - 52), e + m.log2 - 52) := by
  have hshift : (e + m.log2 - 52 - e).toNat = m.log2 - 52 := by omega
  rw [shiftToTargetExponent, shiftToExponent, targetExponent_eq h, hshift]
  congr 1
  omega

theorem rounded_to_53_bits {m : Nat} (hm : 52 ≤ m.log2) :
    2 ^ 52 ≤ rounded m (m.log2 - 52) ∧ rounded m (m.log2 - 52) ≤ 2 ^ 53 := by
  have hne : m ≠ 0 := by rintro rfl; simp at hm
  have hlow : 2 ^ m.log2 ≤ m := Nat.log2_self_le hne
  have hhigh : m < 2 ^ (m.log2 + 1) := Nat.lt_log2_self
  have hpos : 0 < 2 ^ (m.log2 - 52) := Nat.two_pow_pos _
  have hsplit : 2 ^ m.log2 = 2 ^ 52 * 2 ^ (m.log2 - 52) := by rw [← Nat.pow_add]; congr 1; omega
  have hquotient : 2 ^ 52 ≤ m / 2 ^ (m.log2 - 52) := by
    rw [Nat.le_div_iff_mul_le hpos, ← hsplit]
    exact hlow
  have hquotient' : m / 2 ^ (m.log2 - 52) < 2 ^ 53 := by
    rw [Nat.div_lt_iff_lt_mul hpos]
    rw [Nat.pow_succ, hsplit] at hhigh
    omega
  have hrounded := rounded_bounds m (m.log2 - 52)
  omega

/-- What is 53 bits long or longer is rounded to 53 bits. -/
theorem roundWithAccuracy_isFinite (s : Sign) {m : Nat} {e : Int} (hm : 52 ≤ m.log2)
    (he : -1074 ≤ e + m.log2 - 52) :
    IsFinite (roundWithAccuracy Format.binary64 s m e .exact) s
      (carry (rounded m (m.log2 - 52)) (e + m.log2 - 52)) := by
  obtain ⟨hlow, hhigh⟩ := rounded_to_53_bits hm
  have hlog : (rounded m (m.log2 - 52)).log2
      = if rounded m (m.log2 - 52) = 2 ^ 53 then 53 else 52 := by
    split
    · rename_i hq
      rw [hq]
      exact Nat.log2_two_pow
    · rw [Nat.log2_eq_iff (by omega)]
      omega
  have hfirst := shiftToTargetExponent_eq hm he .exact
  have hsecond := shiftToTargetExponent_eq (m := rounded m (m.log2 - 52))
    (e := e + m.log2 - 52) (by rw [hlog]; split <;> omega) (by rw [hlog]; split <;> omega) .exact
  have hq : ((ExtendedMantissa.ofMantissaAndAccuracy m .exact) >>> (m.log2 - 52)).roundedMantissa
      = rounded m (m.log2 - 52) := rfl
  simp only [roundWithAccuracy, hfirst, hq, hsecond, hlog, carry]
  split
  · rename_i hfull
    have hhalf : ((ExtendedMantissa.ofMantissaAndAccuracy (rounded m (m.log2 - 52)) .exact)
        >>> (53 - 52)).mantissa = 2 ^ 52 := by
      rw [hfull]
      rfl
    simp only [hhalf]
    refine ⟨Nat.two_pow_pos 52, ?_⟩
    rw [dif_neg (by decide)]
    congr 1
    omega
  · rename_i hfull
    have hwhole : ((ExtendedMantissa.ofMantissaAndAccuracy (rounded m (m.log2 - 52)) .exact)
        >>> (52 - 52)).mantissa = rounded m (m.log2 - 52) := rfl
    simp only [hwhole]
    refine ⟨by omega, ?_⟩
    rw [dif_neg (by omega)]
    congr 1
    omega

/-- A number of 53 bits with an exponent in reach. -/
structure IsNormal (part : Nat × Int) : Prop where
  low : 2 ^ 52 ≤ part.1
  high : part.1 < 2 ^ 53
  least : -1074 ≤ part.2
  greatest : part.2 ≤ 971

theorem unpackSign_packComponents (spec : Format) (s : Sign) (e : BitVec spec.exponentBits)
    (m : BitVec spec.mantissaBitsWithoutImplicit) :
    unpackSign (packComponents spec s e m) = s.toBitVec := by
  refine BitVec.eq_of_getLsbD_eq fun i hi => ?_
  obtain rfl : i = 0 := by omega
  simp [unpackSign, packComponents, BitVec.getLsbD_append, BitVec.getElem_append]

theorem ofBitVec_toBitVec (s : Sign) : Sign.ofBitVec s.toBitVec = s := by cases s <;> rfl

/-- A number that fits is what it is unpacked to. -/
theorem unpack_pack {s : Sign} {part : Nat × Int} (h : IsNormal part) {u : UnpackedFloat}
    (hu : IsFinite u s part) :
    UnpackedFloat.unpack Format.binary64 (UnpackedFloat.pack Format.binary64 u) = u := by
  obtain ⟨hpos, rfl⟩ := hu
  obtain ⟨m, e⟩ := part
  obtain ⟨hlow, hhigh, hleast, hgreatest⟩ := h
  simp only at hlow hhigh hleast hgreatest hpos
  have hlog : m.log2 = 52 := (Nat.log2_eq_iff hpos.ne').mpr ⟨hlow, hhigh⟩
  have hbias : (Format.binary64.exponentBias : Int) = 1023 := by decide
  have hbits : Format.binary64.mantissaBits = 53 := by decide
  have hmantissa : (1#1 ++ BitVec.ofNat 52 m).toNat = m := by
    rw [BitVec.toNat_append, ← Nat.shiftLeft_add_eq_or_of_lt (BitVec.isLt _), BitVec.toNat_ofNat,
      BitVec.toNat_ofNat, Nat.shiftLeft_eq]
    omega
  -- the exponent that is stored is neither that of zero nor that of the infinities
  have hexponent : (e + 1023 + 52).toNat % 2 ^ 11 = (e + 1023 + 52).toNat :=
    Nat.mod_eq_of_lt (by omega)
  have hones : BitVec.ofNat 11 (e + 1023 + 52).toNat ≠ -1#11 := by
    rw [ne_eq, ← BitVec.toNat_inj, BitVec.toNat_ofNat, hexponent]
    have hvalue : (-1#11).toNat = 2047 := by decide
    omega
  have hzero : BitVec.ofNat 11 (e + 1023 + 52).toNat ≠ 0#11 := by
    rw [ne_eq, ← BitVec.toNat_inj, BitVec.toNat_ofNat, hexponent]
    have hvalue : (0#11).toNat = 0 := by decide
    omega
  have hpack : UnpackedFloat.pack Format.binary64 (.finite s m e hpos)
      = packComponents Format.binary64 s (BitVec.ofNat 11 (e + 1023 + 52).toNat)
        (BitVec.ofNat 52 m) := by
    simp only [UnpackedFloat.pack, hlog, hbits, hbias]
    rw [if_neg (by omega), if_pos trivial]
    rfl
  rw [hpack, UnpackedFloat.unpack]
  simp only [unpackMantissa_packComponents, unpackExponent_packComponents,
    unpackSign_packComponents, ofBitVec_toBitVec, if_neg hones, if_neg hzero, hmantissa, hbias]
  congr 1
  rw [BitVec.toNat_ofNat, hexponent]
  omega

/-- The number of 53 bits that is nearest to an integer: its mantissa and its exponent. -/
def nearest (n : Nat) : Nat × Int :=
  carry (rounded (n * 2 ^ 53) (n.log2 + 1)) (n.log2 - 52)

theorem log2_mul_two_pow {n : Nat} (hn : 0 < n) (k : Nat) : (n * 2 ^ k).log2 = n.log2 + k := by
  have hpos : 0 < 2 ^ k := Nat.two_pow_pos k
  rw [Nat.log2_eq_iff (Nat.mul_pos hn hpos).ne', Nat.add_right_comm, Nat.pow_add, Nat.pow_add]
  exact ⟨Nat.mul_le_mul_right _ (Nat.log2_self_le hn.ne'),
    Nat.mul_lt_mul_of_pos_right Nat.lt_log2_self hpos⟩

theorem nearest_isNormal {n : Nat} (hn : 0 < n) (hbound : n < 2 ^ 64) : IsNormal (nearest n) := by
  have hlog : n.log2 < 64 := (Nat.log2_lt hn.ne').mpr hbound
  have hlong := log2_mul_two_pow hn 53
  obtain ⟨hlow, hhigh⟩ := rounded_to_53_bits (m := n * 2 ^ 53) (by omega)
  have hshift : (n * 2 ^ 53).log2 - 52 = n.log2 + 1 := by omega
  rw [hshift] at hlow hhigh
  rw [nearest, carry]
  split
  · exact ⟨Nat.le_refl _, by norm_num, by simp only; omega, by simp only; omega⟩
  · exact ⟨hlow, by simp only; omega, by simp only; omega, by simp only; omega⟩

/-- An integer of at most 53 bits is its own nearest number. -/
theorem nearest_of_lt {n : Nat} (hn : 0 < n) (h : n < 2 ^ 53) :
    nearest n = (n * 2 ^ (52 - n.log2), (n.log2 : Int) - 52) := by
  have hlog : n.log2 < 53 := (Nat.log2_lt hn.ne').mpr h
  have hscaled : n * 2 ^ 53 = n * 2 ^ (52 - n.log2) * 2 ^ (n.log2 + 1) := by
    rw [Nat.mul_assoc, ← Nat.pow_add]
    congr 2
    omega
  have hlarge : n * 2 ^ (52 - n.log2) < 2 ^ 53 := by
    have hscaledLog := log2_mul_two_pow hn (52 - n.log2)
    have hlt := @Nat.lt_log2_self (n * 2 ^ (52 - n.log2))
    rwa [hscaledLog, show n.log2 + (52 - n.log2) + 1 = 53 by omega] at hlt
  rw [nearest, hscaled, rounded_of_dvd (Nat.dvd_mul_left _ _),
    Nat.mul_div_cancel _ (Nat.two_pow_pos _), carry, if_neg (by omega)]

/-- An integer of at most 53 bits is rounded to itself. -/
theorem round_isFinite {n : Nat} (hn : 0 < n) (h : n < 2 ^ 53) :
    IsFinite (UnpackedFloat.round Format.binary64 .positive n 0) .positive (nearest n) := by
  have hlog : n.log2 < 53 := (Nat.log2_lt hn.ne').mpr h
  have hscaledLog := log2_mul_two_pow hn (52 - n.log2)
  have htarget := targetExponent_eq (m := n) (e := 0) (by omega)
  have hshift : (0 - (0 + (n.log2 : Int) - 52)).toNat = 52 - n.log2 := by omega
  have hnormal := nearest_isNormal hn (by omega)
  rw [nearest_of_lt hn h] at hnormal ⊢
  rw [UnpackedFloat.round, htarget, decreaseExponent, hshift, Nat.shiftLeft_eq]
  have hfinite := roundWithAccuracy_isFinite .positive (m := n * 2 ^ (52 - n.log2))
    (e := 0 - ((52 - n.log2 : Nat) : Int)) (by omega) (by omega)
  have hno : (n * 2 ^ (52 - n.log2)).log2 - 52 = 0 := by omega
  have hexponent :
      (0 : Int) - ((52 - n.log2 : Nat) : Int) + ((n * 2 ^ (52 - n.log2)).log2 : Nat) - 52
      = (n.log2 : Int) - 52 := by omega
  have hsmall := hnormal.high
  rw [hno, rounded_zero, hexponent, carry, if_neg (Nat.ne_of_lt hsmall)] at hfinite
  exact hfinite

/-- Multiplied by one. -/
theorem mul_one_isFinite {u : UnpackedFloat} {part : Nat × Int} (h : IsNormal part)
    (hu : IsFinite u .positive part) :
    IsFinite (UnpackedFloat.mul Format.binary64 u
      (.finite .positive (2 ^ 52) (-52) (Nat.two_pow_pos 52))) .positive part := by
  obtain ⟨hpos, rfl⟩ := hu
  obtain ⟨m, e⟩ := part
  obtain ⟨hlow, hhigh, hleast, -⟩ := h
  simp only at hpos hlow hhigh hleast
  have hlog : (m * 2 ^ 52).log2 = 104 := by
    rw [log2_mul_two_pow hpos, (Nat.log2_eq_iff hpos.ne').mpr ⟨hlow, hhigh⟩]
  have hfinite := roundWithAccuracy_isFinite .positive (m := m * 2 ^ 52) (e := e + -52)
    (by omega) (by omega)
  rw [hlog, rounded_of_dvd (Nat.dvd_mul_left _ _), Nat.mul_div_cancel _ (Nat.two_pow_pos _), carry,
    if_neg (Nat.ne_of_lt hhigh), show e + -52 + ((104 : Nat) : Int) - 52 = e by omega] at hfinite
  exact hfinite

theorem ofUInt64_eq_round {n : Nat} (hn : 0 < n) (h : n < 2 ^ 64) :
    UnpackedFloat.ofUInt64 Format.binary64 n.toUInt64
      = UnpackedFloat.round Format.binary64 .positive n 0 := by
  have hvalue : n.toUInt64.toNat = n := Nat.mod_eq_of_lt h
  have hsign : compare (n : Int) 0 = .gt := Int.compare_eq_gt.mpr (by omega)
  rw [UnpackedFloat.ofUInt64, UnpackedFloat.ofNat, UnpackedFloat.ofInt, UnpackedFloat.normalize,
    hvalue]
  simp only [hsign, Int.toNat_natCast]

theorem unpack_one : (Float.ofBits 0x3FF0000000000000).toModel.unpack
    = .finite .positive (2 ^ 52) (-52) (Nat.two_pow_pos 52) := by rfl

/-- An integer becomes the nearest number. -/
theorem ofNat_isFinite {n : Nat} (hn : 0 < n) (hbound : n < 2 ^ 64) :
    IsFinite (Float.ofNat n).toModel.unpack .positive (nearest n) := by
  have hnormal := nearest_isNormal hn hbound
  by_cases hsmall : n < 2 ^ 53
  · -- up to 53 bits the integer is exact, and it is multiplied by one
    have hround := round_isFinite hn hsmall
    have hfactor : (n.toUInt64.toFloat).toModel.unpack
        = UnpackedFloat.round Format.binary64 .positive n 0 := by
      rw [← ofUInt64_eq_round hn hbound] at hround ⊢
      exact unpack_pack hnormal hround
    have hproduct : Float.ofNat n = n.toUInt64.toFloat * Float.ofBits 0x3FF0000000000000 :=
      dif_pos ⟨hsmall, by decide⟩
    have hfinite := mul_one_isFinite hnormal hround
    rw [← hfactor, ← unpack_one] at hfinite
    have hunpack := unpack_pack hnormal hfinite
    rw [← hunpack] at hfinite
    rw [hproduct]
    exact hfinite
  · have hmodel : Float.ofNat n
        = .ofModel (.pack (UnpackedFloat.ofScientific Format.binary64 n 0)) :=
      dif_neg fun h => hsmall h.1
    have hlong := log2_mul_two_pow hn 53
    have hlog : n.log2 < 64 := (Nat.log2_lt hn.ne').mpr hbound
    have hfinite := roundWithAccuracy_isFinite .positive (m := n * 2 ^ 53) (e := -53)
      (by omega) (by omega)
    have hscientific : UnpackedFloat.ofScientific Format.binary64 n 0
        = roundWithAccuracy Format.binary64 .positive (n * 2 ^ 53) (-53) .exact := by
      have hbits : Format.binary64.mantissaBits = 53 := by decide
      rw [UnpackedFloat.ofScientific, dif_neg hn.ne', if_neg (by decide),
        if_neg (by simp only; omega), if_pos (Int.le_refl 0)]
      simp only [UnpackedFloat.mul, Nat.shiftLeft_eq, hbits, Int.toNat_zero, Nat.pow_zero,
        Nat.mul_one, Int.add_zero]
      rfl
    have hshift : (n * 2 ^ 53).log2 - 52 = n.log2 + 1 := by omega
    have hexponent : (-53 : Int) + ((n * 2 ^ 53).log2 : Nat) - 52 = (n.log2 : Int) - 52 := by omega
    rw [hshift, hexponent, ← nearest, ← hscientific] at hfinite
    have hunpack := unpack_pack hnormal hfinite
    rw [← hunpack] at hfinite
    rw [hmodel]
    exact hfinite

/-- The nearest numbers of integers are in the order of the integers. -/
theorem nearest_mono {a b : Nat} (ha : 0 < a) (h : a ≤ b) :
    toLex ((nearest a).2, ((nearest a).1 : Int))
      ≤ toLex ((nearest b).2, ((nearest b).1 : Int)) := by
  have hb : 0 < b := Nat.lt_of_lt_of_le ha h
  have hlog : a.log2 ≤ b.log2 := by
    rw [Nat.le_log2 hb.ne']
    exact Nat.le_trans (Nat.log2_self_le ha.ne') h
  have hbits {n : Nat} (hn : 0 < n) : 2 ^ 52 ≤ rounded (n * 2 ^ 53) (n.log2 + 1) ∧
      rounded (n * 2 ^ 53) (n.log2 + 1) ≤ 2 ^ 53 := by
    have hlong := log2_mul_two_pow hn 53
    have hboth := rounded_to_53_bits (m := n * 2 ^ 53) (by omega)
    rwa [hlong, show n.log2 + 53 - 52 = n.log2 + 1 by omega] at hboth
  obtain ⟨halow, hahigh⟩ := hbits ha
  obtain ⟨hblow, hbhigh⟩ := hbits hb
  rw [Prod.Lex.toLex_le_toLex]
  simp only [nearest, carry]
  rcases Nat.lt_or_eq_of_le hlog with hless | hsame
  · split <;> split <;> dsimp only <;> omega
  · have hrounded := rounded_mono (Nat.mul_le_mul_right (2 ^ 53) h) (b.log2 + 1)
    rw [hsame] at halow hahigh ⊢
    split <;> split <;> dsimp only <;> omega

/-- Where a number stands among the others: its sign and class, then its exponent, then its
mantissa. NaN stands nowhere. -/
def rank? : UnpackedFloat → Option (Int ×ₗ Int ×ₗ Int)
  | .notANumber => none
  | .infinity .negative => some (toLex (-2, toLex (0, 0)))
  | .finite .negative m e _ => some (toLex (-1, toLex (-e, -m)))
  | .zero _ => some (toLex (0, toLex (0, 0)))
  | .finite .positive m e _ => some (toLex (1, toLex (e, m)))
  | .infinity .positive => some (toLex (2, toLex (0, 0)))

theorem then_eq_lt {e f : Int} {m n : Nat} :
    (compare e f).then (compare m n) = .lt ↔ e < f ∨ e = f ∧ m < n := by
  rw [Ordering.then_eq_lt, Int.compare_eq_lt, Int.compare_eq_eq, Nat.compare_eq_lt]

theorem then_eq_gt {e f : Int} {m n : Nat} :
    (compare e f).then (compare m n) = .gt ↔ f < e ∨ e = f ∧ n < m := by
  rw [Ordering.then_eq_gt, Int.compare_eq_gt, Int.compare_eq_eq, Nat.compare_eq_gt]

theorem unpacked_lt_iff (a b : UnpackedFloat) :
    a.lt b ↔ ∃ x ∈ rank? a, ∃ y ∈ rank? b, x < y := by
  have hsigns : compare Sign.negative Sign.positive = Ordering.lt := rfl
  rw [UnpackedFloat.lt, beq_iff_eq]
  rcases a with (_ | _) | _ | (_ | _) | ⟨_ | _, m, e, _⟩ <;>
    rcases b with (_ | _) | _ | (_ | _) | ⟨_ | _, n, f, _⟩ <;>
    simp [UnpackedFloat.compare, rank?, Prod.Lex.toLex_lt_toLex, then_eq_lt, then_eq_gt,
      Ordering.swap_eq_lt, hsigns]

theorem unpacked_beq_iff (a b : UnpackedFloat) :
    a.beq b ↔ ∃ x ∈ rank? b, x ∈ rank? a := by
  have hsigns : compare Sign.negative Sign.positive = Ordering.lt := rfl
  have hpositive : compare Sign.positive Sign.positive = Ordering.eq := rfl
  have hnegative : compare Sign.negative Sign.negative = Ordering.eq := rfl
  rw [UnpackedFloat.beq, beq_iff_eq]
  rcases a with (_ | _) | _ | (_ | _) | ⟨_ | _, m, e, _⟩ <;>
    rcases b with (_ | _) | _ | (_ | _) | ⟨_ | _, n, f, _⟩ <;>
    simp [UnpackedFloat.compare, rank?, Ordering.swap_eq_eq, hsigns, hpositive,
      hnegative]

/-- The rank of a float. -/
def rank (x : Float) : Option (Int ×ₗ Int ×ₗ Int) := rank? x.toModel.unpack

theorem lt_iff_rank (x y : Float) : x < y ↔ ∃ a ∈ rank x, ∃ b ∈ rank y, a < b := by
  rw [rank, rank, ← unpacked_lt_iff]
  exact decide_eq_true_iff

theorem beq_iff_rank (x y : Float) : (x == y) = true ↔ ∃ a ∈ rank y, a ∈ rank x := by
  rw [rank, rank, ← unpacked_beq_iff]
  rfl

theorem beq_comm (x y : Float) : (x == y) = (y == x) := by
  rw [Bool.eq_iff_iff, beq_iff_rank, beq_iff_rank]
  exact ⟨fun ⟨a, hy, hx⟩ => ⟨a, hx, hy⟩, fun ⟨a, hx, hy⟩ => ⟨a, hy, hx⟩⟩

/-- The numbers have a rank. -/
theorem exists_rank_iff {x : Float} : (∃ a, rank x = some a) ↔ x.isNaN = false := by
  change _ ↔ x.toModel.unpack.isNaN = false
  rw [rank]
  generalize x.toModel.unpack = u
  rcases u with (_ | _) | _ | (_ | _) | ⟨_ | _, m, e, _⟩ <;> simp [rank?, UnpackedFloat.isNaN]

theorem isNaN_of_lt {x y : Float} (h : x < y) : x.isNaN = false ∧ y.isNaN = false := by
  obtain ⟨a, ha, b, hb, -⟩ := (lt_iff_rank x y).mp h
  exact ⟨exists_rank_iff.mp ⟨a, ha⟩, exists_rank_iff.mp ⟨b, hb⟩⟩

/-- The sign of an integer. -/
def signOf (n : Int) : Sign := if n < 0 then .negative else .positive

theorem ofInt_isFinite {n : Int} (hn : n ≠ 0) (h : n.natAbs < 2 ^ 64) :
    IsFinite (Float.ofInt n).toModel.unpack (signOf n) (nearest n.natAbs) := by
  match n with
  | .ofNat 0 => exact absurd rfl hn
  | .ofNat (n + 1) => exact ofNat_isFinite (Nat.succ_pos n) h
  | .negSucc n =>
    obtain ⟨hpos, hu⟩ := ofNat_isFinite (Nat.succ_pos n) h
    have hneg : IsFinite (Float.ofNat (n + 1)).toModel.unpack.neg .negative (nearest (n + 1)) :=
      ⟨hpos, by rw [hu]; rfl⟩
    have hunpack := unpack_pack (nearest_isNormal (Nat.succ_pos n) h) hneg
    have hsign : signOf (.negSucc n) = .negative := if_pos (Int.negSucc_lt_zero n)
    rw [← hunpack] at hneg
    rw [hsign]
    exact hneg

/-- The rank of the float that is nearest to an integer. -/
def place (n : Int) : Int ×ₗ Int ×ₗ Int :=
  toLex (n.sign, toLex (n.sign * (nearest n.natAbs).2, n.sign * (nearest n.natAbs).1))

theorem rank_ofInt {n : Int} (h : n.natAbs < 2 ^ 64) : rank (Float.ofInt n) = some (place n) := by
  rcases eq_or_ne n 0 with rfl | hn
  · rfl
  obtain ⟨hpos, hu⟩ := ofInt_isFinite hn h
  rw [rank, hu, place, signOf]
  split
  · rename_i hneg
    simp [rank?, Int.sign_eq_neg_one_of_neg hneg]
  · have hsign : n.sign = 1 := Int.sign_eq_one_of_pos (by omega)
    simp [rank?, hsign]

theorem place_mono {a b : Int} (h : a ≤ b) : place a ≤ place b := by
  rw [place, place, Prod.Lex.toLex_le_toLex, Prod.Lex.toLex_le_toLex]
  dsimp only
  rcases Int.lt_trichotomy a 0 with ha | rfl | ha
  · rcases Int.lt_or_le b 0 with hb | hb
    · -- the farther from zero, the less
      have hnearest := nearest_mono (a := b.natAbs) (b := a.natAbs) (by omega) (by omega)
      rw [Prod.Lex.toLex_le_toLex] at hnearest
      rw [Int.sign_eq_neg_one_of_neg ha, Int.sign_eq_neg_one_of_neg hb]
      omega
    · have hsign : 0 ≤ b.sign := Int.sign_nonneg_iff.mpr hb
      rw [Int.sign_eq_neg_one_of_neg ha]
      omega
  · have hsign : 0 ≤ b.sign := Int.sign_nonneg_iff.mpr h
    rcases Int.lt_or_eq_of_le hsign with hsign | hsign
    · exact .inl hsign
    · rw [Int.eq_zero_of_sign_eq_zero hsign.symm]
      exact .inr ⟨rfl, .inr ⟨rfl, Int.le_refl _⟩⟩
  · have hnearest := nearest_mono (a := a.natAbs) (b := b.natAbs) (by omega) (by omega)
    rw [Prod.Lex.toLex_le_toLex] at hnearest
    rw [Int.sign_eq_one_of_pos ha, Int.sign_eq_one_of_pos (by omega)]
    omega

theorem rank_ofInt64 (n : Int64) : rank (ofInt64 n) = some (place n.toInt) := by
  have hlow := n.le_toInt
  have hhigh := n.toInt_lt
  exact rank_ofInt (by omega)

/-- No integer but zero is rounded to zero. -/
theorem ofInt64_ne_zero {n : Int64} (h : n ≠ 0) : (ofInt64 n == 0.0) = false := by
  have hzero : rank 0.0 = some (toLex (0, toLex (0, 0))) := rfl
  rw [← Bool.not_eq_true, beq_iff_rank]
  rintro ⟨a, ha, hplace⟩
  rw [hzero, Option.mem_some_iff] at ha
  rw [rank_ofInt64, Option.mem_some_iff, ← ha, place] at hplace
  have hsign : n.toInt.sign = 0 := congrArg (fun r => (ofLex r).1) hplace
  exact h (Int64.toInt_inj.mp (Int.eq_zero_of_sign_eq_zero hsign))

theorem not_lt_self (x : Float) : ¬ x < x := by
  intro h
  obtain ⟨a, ha, b, hb, hlt⟩ := (lt_iff_rank x x).mp h
  exact absurd hlt (Option.mem_unique ha hb ▸ lt_irrefl a)

theorem lt_of_lt_of_lt {x y z : Float} (h : x < y) (h' : y < z) : x < z := by
  obtain ⟨a, ha, b, hb, hab⟩ := (lt_iff_rank x y).mp h
  obtain ⟨b', hb', c, hc, hbc⟩ := (lt_iff_rank y z).mp h'
  rw [Option.mem_unique hb' hb] at hbc
  exact (lt_iff_rank x z).mpr ⟨a, ha, c, hc, hab.trans hbc⟩

/-- A float above an integer is above every lesser one. -/
theorem ofInt64_lt_of_le {m n : Int64} {x : Float} (hle : m ≤ n) (h : ofInt64 n < x) :
    ofInt64 m < x := by
  obtain ⟨a, ha, b, hb, hab⟩ := (lt_iff_rank (ofInt64 n) x).mp h
  rw [rank_ofInt64, Option.mem_some_iff] at ha
  refine (lt_iff_rank (ofInt64 m) x).mpr ⟨_, rank_ofInt64 m, b, hb, lt_of_le_of_lt ?_ hab⟩
  exact ha ▸ place_mono (Int64.le_iff_toInt_le.mp hle)

/-- A float below an integer is below every greater one. -/
theorem lt_ofInt64_of_le {m n : Int64} {x : Float} (h : x < ofInt64 m) (hle : m ≤ n) :
    x < ofInt64 n := by
  obtain ⟨a, ha, b, hb, hab⟩ := (lt_iff_rank x (ofInt64 m)).mp h
  rw [rank_ofInt64, Option.mem_some_iff] at hb
  refine (lt_iff_rank x (ofInt64 n)).mpr ⟨a, ha, _, rank_ofInt64 n, lt_of_lt_of_le hab ?_⟩
  exact hb ▸ place_mono (Int64.le_iff_toInt_le.mp hle)

end Stencil.Decimal
