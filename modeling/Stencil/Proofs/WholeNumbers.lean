import Mathlib
import Stencil.Filter.Standard
import Stencil.Proofs.Doubles

/-!
# Rounding integers

The rounding filters turn an integer into a float first. Up to 53 bits nothing is lost, longer
integers are rounded to 53 bits, and the half that `round` adds is rounded itself where the floats
are the integers.
-/
namespace Stencil

open Decimal

section Doubles

variable {n : Int64}

namespace Decimal

theorem natAbs_lt (n : Int64) : n.toInt.natAbs < 2 ^ 64 := by
  have hlow := n.le_toInt
  have hhigh := n.toInt_lt
  omega

theorem natAbs_pos (hn : n ≠ 0) : 0 < n.toInt.natAbs := by
  rw [Int.natAbs_pos]
  exact fun h => hn (Int64.toInt_inj.mp h)

theorem ofInt64_isFinite (hn : n ≠ 0) :
    IsFinite (ofInt64 n).toModel.unpack (signOf n.toInt) (nearest n.toInt.natAbs) :=
  ofInt_isFinite (Int.natAbs_pos.mp (natAbs_pos hn)) (natAbs_lt n)

theorem nearest_natAbs_isNormal (hn : n ≠ 0) : IsNormal (nearest n.toInt.natAbs) :=
  nearest_isNormal (natAbs_pos hn) (natAbs_lt n)

theorem ofFloat?_zero : Binary.ofFloat? (ofInt64 0) = some ⟨false, 0, -(1074 : Nat)⟩ := rfl

/-- The float nearest to an integer has no fraction to be rounded. -/
theorem roundBy_ofInt64 (rule : Binary → Int) (n : Int64) :
    roundBy rule (ofInt64 n) = ofInt64 n := by
  obtain ⟨b, hb, hwhole⟩ : ∃ b, Binary.ofFloat? (ofInt64 n) = some b ∧ b.isWhole := by
    rcases eq_or_ne n 0 with rfl | hn
    · exact ⟨_, ofFloat?_zero, (Binary.isWhole_neg ..).mpr (Nat.dvd_zero _)⟩
    · exact ⟨_, ofFloat?_eq (nearest_natAbs_isNormal hn) (ofInt64_isFinite hn),
        (nearest_whole (natAbs_pos hn) _).1⟩
  rw [roundBy, hb]
  exact if_pos hwhole

/-- The magnitude of the float that is nearest to an integer. -/
def magnitude (n : Int64) : Nat :=
  nearestMultiple (grain n.toInt.natAbs) n.toInt.natAbs

theorem signed_isMinus (i : Int) (m : Nat) (hi : i ≠ 0) :
    Binary.signed (isMinus (signOf i)) m = i.sign * m := by
  rw [Binary.signed, signOf]
  split
  · rename_i hneg
    simp [isMinus, Int.sign_eq_neg_one_of_neg hneg]
  · have hsign : i.sign = 1 := Int.sign_eq_one_of_pos (by omega)
    simp [isMinus, hsign]

end Decimal

/-- An integer that has been a float: rounded to 53 bits, and a float still from nine quintillions
on. -/
def Value.throughFloat (n : Int64) : Value :=
  if magnitude n < 9 * 10 ^ 18 then .int (Int64.ofInt (n.toInt.sign * magnitude n))
  else .float (Decimal.ofInt64 n)

theorem Filter.whole_ofInt64 (n : Int64) :
    Filter.whole (Decimal.ofInt64 n) = .throughFloat n := by
  rcases eq_or_ne n 0 with rfl | hn
  · have hzero : toInt64 (Decimal.ofInt64 0) = 0 := by
      simp only [toInt64, ofFloat?_zero, Binary.truncate, Binary.wholePart_neg, Nat.zero_div]
      rfl
    rw [Filter.whole, hzero]
    rfl
  have hx := ofInt64_isFinite hn
  have hnormal := nearest_natAbs_isNormal hn
  have hwhole := (nearest_whole (natAbs_pos hn) (isMinus (signOf n.toInt))).2
  have hfinite : (Decimal.ofInt64 n).isFinite = true := by
    obtain ⟨hpos, hx⟩ := hx
    change (Decimal.ofInt64 n).toModel.unpack.isFinite = true
    rw [hx]
    rfl
  have hbound : Decimal.abs (Decimal.ofInt64 n) < 9.0e18 ↔ magnitude n < 9 * 10 ^ 18 := by
    rw [abs_lt_nine_iff hnormal hx, hwhole, magnitude]
  rw [Filter.whole, Value.throughFloat, hfinite, Bool.true_and]
  refine ite_congr (propext (decide_eq_true_iff.trans hbound)) (fun hsmall => ?_) fun _ => rfl
  rw [toInt64_eq hnormal hx (by rwa [hwhole]), Binary.truncate, hwhole,
    signed_isMinus _ _ (Int.natAbs_pos.mp (natAbs_pos hn)), magnitude]

namespace Decimal

/-- An integer with the half that `round` adds: where the floats are the integers the sum is
halfway between two of them, and the even one is taken. -/
def halfUp (n : Int64) : Int64 :=
  if 2 ^ 52 ≤ n.toInt.natAbs ∧ n.toInt.natAbs < 2 ^ 53 then Int64.ofInt (n.toInt + n.toInt % 2)
  else n

theorem exponent_nearest (a : Nat) : (a.log2 : Int) - 52 ≤ (nearest a).2 := by
  rw [nearest, carry]
  split <;> simp only <;> omega

theorem isMinus_signOf (i : Int) : isMinus (signOf i) = decide (i < 0) := by
  rw [signOf]
  split <;> simp_all [isMinus]

theorem twicePlusOne_signOf (i : Int) :
    twicePlusOne (signOf i) i.natAbs = (2 * i + 1).natAbs := by
  simp only [twicePlusOne, isMinus_signOf, decide_eq_true_eq]
  split <;> omega

/-- What the sum of an integer up to 53 bits and a half is rounded to. -/
theorem add_half_of_lt (hn : n ≠ 0) (hsmall : n.toInt.natAbs < 2 ^ 53)
    (h : IsNormal (halved (nearest (2 * n.toInt + 1).natAbs))) :
    IsFinite (ofInt64 n + 0.5).toModel.unpack (signOf n.toInt)
      (halved (nearest (2 * n.toInt + 1).natAbs)) := by
  have hpos := natAbs_pos hn
  have hlog : n.toInt.natAbs.log2 < 53 := (Nat.log2_lt hpos.ne').mpr hsmall
  have hx := ofInt64_isFinite hn
  rw [nearest_of_lt hpos hsmall] at hx
  have hshift : ((n.toInt.natAbs.log2 : Int) - 52 + 53).toNat = n.toInt.natAbs.log2 + 1 := by omega
  have hvalue : n.toInt.natAbs * 2 ^ (52 - n.toInt.natAbs.log2)
      * 2 ^ ((n.toInt.natAbs.log2 : Int) - 52 + 53).toNat = n.toInt.natAbs * 2 ^ 53 := by
    rw [hshift, Nat.mul_assoc, ← Nat.pow_add]
    congr 2
    omega
  have hsum := add_half_isFinite hpos hx (by simp only; omega) hvalue
  rw [twicePlusOne_signOf] at hsum
  exact hsum h

/-- Up to 52 bits the sum is exact, and the half is cut off again. -/
theorem floor_add_half_of_small (hn : n ≠ 0) (hsmall : (2 * n.toInt + 1).natAbs < 2 ^ 53) :
    Decimal.floor (ofInt64 n + 0.5) = ofInt64 n := by
  have hne : n.toInt ≠ 0 := Int.natAbs_pos.mp (natAbs_pos hn)
  have hodd : (2 * n.toInt + 1).natAbs % 2 = 1 := by omega
  have hnormal : IsNormal (halved (nearest (2 * n.toInt + 1).natAbs)) := by
    have hwhole := nearest_isNormal (n := (2 * n.toInt + 1).natAbs) (by omega) (by omega)
    have hleast := exponent_nearest (2 * n.toInt + 1).natAbs
    have hgreatest := hwhole.greatest
    exact ⟨hwhole.low, hwhole.high, by rw [halved]; simp only; omega,
      by rw [halved]; simp only; omega⟩
  have hx := add_half_of_lt hn (by omega) hnormal
  have hfloor : (if isMinus (signOf n.toInt) then -((2 * n.toInt + 1).natAbs / 2 : Nat) - 1
      else ((2 * n.toInt + 1).natAbs / 2 : Nat) : Int) = n.toInt := by
    simp only [isMinus_signOf, decide_eq_true_eq]
    split <;> omega
  rw [floor_half hnormal hx hodd hsmall, hfloor, floatOfInt, if_neg (by simp [hne])]
  rfl

theorem add_half_of_even (hlow : 2 ^ 53 ≤ (2 * n.toInt + 1).natAbs)
    (hhigh : n.toInt.natAbs < 2 ^ 53) :
    ofInt64 n + 0.5 = ofInt64 (Int64.ofInt (n.toInt + n.toInt % 2)) := by
  have hn : n ≠ 0 := by
    rintro rfl
    exact absurd hlow (by decide)
  have heven : (Int64.ofInt (n.toInt + n.toInt % 2)).toInt = n.toInt + n.toInt % 2 :=
    Int64.toInt_ofInt_of_le (by omega) (by omega)
  have hsum : halved (nearest (2 * n.toInt + 1).natAbs)
      = nearest (Int64.ofInt (n.toInt + n.toInt % 2)).toInt.natAbs := by
    rw [nearest_of_odd (by omega) hlow (by omega), heven]
    congr 1
    omega
  have hsign : signOf n.toInt = signOf (Int64.ofInt (n.toInt + n.toInt % 2)).toInt := by
    rw [heven, signOf, signOf]
    congr 1
    exact propext (by omega)
  have hne : Int64.ofInt (n.toInt + n.toInt % 2) ≠ 0 := by
    intro hzero
    rw [hzero] at heven
    change 0 = _ at heven
    omega
  have hnormal := nearest_natAbs_isNormal hne
  have hx := add_half_of_lt hn hhigh (by rwa [hsum])
  rw [hsum, hsign] at hx
  exact eq_of_isFinite hnormal hx (ofInt64_isFinite hne)

/-- From 54 bits on the sum is the float that the half is added to. -/
theorem add_half_of_large (hlarge : 2 ^ 53 ≤ n.toInt.natAbs) : ofInt64 n + 0.5 = ofInt64 n := by
  have hn : n ≠ 0 := by
    rintro rfl
    exact absurd hlarge (by decide)
  have hpos := natAbs_pos hn
  have hnormal := nearest_natAbs_isNormal hn
  have hx := ofInt64_isFinite hn
  have hexponent : 1 ≤ (nearest n.toInt.natAbs).2 := by
    have hlog : 53 ≤ n.toInt.natAbs.log2 := (Nat.le_log2 hpos.ne').mpr hlarge
    have hleast := exponent_nearest n.toInt.natAbs
    omega
  generalize nearest n.toInt.natAbs = part at *
  obtain ⟨m, e⟩ := part
  obtain ⟨k, rfl⟩ := Int.eq_ofNat_of_zero_le (a := e) (by simp only at hexponent; omega)
  have hvalue : m * 2 ^ ((k : Int) + 53).toNat = m * 2 ^ k * 2 ^ 53 := by
    rw [Nat.mul_assoc, ← Nat.pow_add]
    congr 2
  have hhalved : halved (nearest (twicePlusOne (signOf n.toInt) (m * 2 ^ k))) = (m, (k : Int)) := by
    rw [nearest_twicePlusOne _ hnormal.low hnormal.high (by simp only at hexponent; omega), halved]
    simp
  have hmantissa : 0 < m := Nat.lt_of_lt_of_le (by decide) hnormal.low
  have hsum := add_half_isFinite (Nat.mul_pos hmantissa (Nat.two_pow_pos k)) hx
    (by simp only at hexponent ⊢; omega) hvalue (by rwa [hhalved])
  rw [hhalved] at hsum
  exact eq_of_isFinite hnormal hsum hx

theorem floor_add_half (n : Int64) : Decimal.floor (ofInt64 n + 0.5) = ofInt64 (halfUp n) := by
  rcases eq_or_ne n 0 with rfl | hn
  · exact floor_add_half_zero
  rw [halfUp]
  rcases Nat.lt_or_ge n.toInt.natAbs (2 ^ 53) with hlt | hge
  · rcases Nat.lt_or_ge (2 * n.toInt + 1).natAbs (2 ^ 53) with hsmall | hlarge
    · rw [floor_add_half_of_small hn hsmall]
      split
      · -- the least of these integers is even
        have heven : n.toInt + n.toInt % 2 = n.toInt := by omega
        rw [heven, Int64.ofInt_toInt]
      · rfl
    · rw [if_pos ⟨by omega, hlt⟩, add_half_of_even hlarge hlt]
      exact roundBy_ofInt64 ..
  · rw [if_neg (by omega), add_half_of_large hge]
    exact roundBy_ofInt64 ..

end Decimal

end Doubles

section Calls

theorem Filter.ceil_call (n : Int64) (named : Bindings) :
    Filter.ceil.call [.int n] named = .ok (.throughFloat n) := by
  change Except.ok (Filter.whole (roundBy Binary.ceil (Decimal.ofInt64 n))) = _
  rw [roundBy_ofInt64, Filter.whole_ofInt64]

theorem Filter.floor_call (n : Int64) (named : Bindings) :
    Filter.floor.call [.int n] named = .ok (.throughFloat n) := by
  change Except.ok (Filter.whole (roundBy Binary.floor (Decimal.ofInt64 n))) = _
  rw [roundBy_ofInt64, Filter.whole_ofInt64]

theorem Filter.round_call (n : Int64) (named : Bindings) :
    Filter.round.call [.int n] named = .ok (.throughFloat (halfUp n)) := by
  change Except.ok (Filter.whole (Decimal.floor (Decimal.ofInt64 n + 0.5))) = _
  rw [floor_add_half, Filter.whole_ofInt64]

theorem Decimal.nearestMultiple_eq_self_iff {g a : Nat} (hg : 0 < g) :
    nearestMultiple g a = a ↔ g ∣ a := by
  constructor
  · intro h
    rw [← h, nearestMultiple]
    split <;> exact Nat.dvd_mul_left _ _
  · intro h
    rw [nearestMultiple, Nat.mod_eq_zero_of_dvd h, if_pos (.inl hg), Nat.div_mul_cancel h]

theorem Decimal.grain_pos (a : Nat) : 0 < grain a := Nat.two_pow_pos _

theorem Decimal.magnitude_eq_iff (n : Int64) :
    magnitude n = n.toInt.natAbs ↔ grain n.toInt.natAbs ∣ n.toInt.natAbs :=
  nearestMultiple_eq_self_iff (grain_pos _)

/-- The integers that are floats below nine quintillions stay as they are. -/
theorem Value.throughFloat_eq_int_iff (n : Int64) :
    Value.throughFloat n = .int n ↔
      grain n.toInt.natAbs ∣ n.toInt.natAbs ∧ n.toInt.natAbs < 9 * 10 ^ 18 := by
  have hsigned : n.toInt.sign * n.toInt.natAbs = n.toInt := Int.sign_mul_natAbs _
  rw [← magnitude_eq_iff, Value.throughFloat]
  constructor
  · intro h
    split at h
    · rename_i hsmall
      rcases eq_or_ne n 0 with rfl | hn
      · exact ⟨rfl, by decide⟩
      have hsign : n.toInt.sign.natAbs = 1 :=
        Int.natAbs_sign_of_ne_zero (Int.natAbs_pos.mp (natAbs_pos hn))
      have hmagnitude : (n.toInt.sign * magnitude n).natAbs = magnitude n := by
        rw [Int.natAbs_mul, hsign, Nat.one_mul, Int.natAbs_natCast]
      have hround : (Int64.ofInt (n.toInt.sign * magnitude n)).toInt = n.toInt.sign * magnitude n :=
        Int64.toInt_ofInt_of_le (by omega) (by omega)
      rw [Value.int.inj h] at hround
      have hself : magnitude n = n.toInt.natAbs := by rw [← hmagnitude, ← hround]
      exact ⟨hself, hself ▸ hsmall⟩
    · cases h
  · rintro ⟨hself, hsmall⟩
    rw [hself, if_pos hsmall, hsigned, Int64.ofInt_toInt]

theorem Decimal.grain_dvd_of_le {a : Nat} (h : a ≤ 2 ^ 53) : grain a ∣ a := by
  rcases Nat.lt_or_eq_of_le h with hlt | rfl
  · rcases Nat.eq_zero_or_pos a with rfl | hpos
    · exact Nat.dvd_zero _
    · have hlog : a.log2 < 53 := (Nat.log2_lt hpos.ne').mpr hlt
      rw [grain, Nat.sub_eq_zero_of_le (by omega)]
      exact Nat.one_dvd a
  · rw [grain, Nat.log2_two_pow]
    decide

theorem Value.throughFloat_of_le {n : Int64} (h : n.toInt.natAbs ≤ 2 ^ 53) :
    Value.throughFloat n = .int n :=
  (throughFloat_eq_int_iff n).mpr ⟨grain_dvd_of_le h, by omega⟩

/-- An odd integer of 53 bits is not what it is rounded to. -/
theorem Value.throughFloat_halfUp_eq_int_iff (n : Int64) :
    Value.throughFloat (halfUp n) = .int n ↔
      (grain n.toInt.natAbs ∣ n.toInt.natAbs ∧ n.toInt.natAbs < 9 * 10 ^ 18) ∧
        (2 ^ 52 ≤ n.toInt.natAbs → n.toInt.natAbs < 2 ^ 53 → n.toInt % 2 = 0) := by
  rw [halfUp]
  split
  · rename_i hbits
    have hsum : (Int64.ofInt (n.toInt + n.toInt % 2)).toInt = n.toInt + n.toInt % 2 :=
      Int64.toInt_ofInt_of_le (by omega) (by omega)
    have hdvd := grain_dvd_of_le (a := n.toInt.natAbs) (by omega)
    rw [throughFloat_of_le (by omega), Value.int.injEq, ← Int64.toInt_inj, hsum]
    exact ⟨fun h => ⟨⟨hdvd, by omega⟩, fun _ _ => by omega⟩,
      fun h => by have := h.2 hbits.1 hbits.2; omega⟩
  · rename_i hbits
    rw [throughFloat_eq_int_iff]
    exact ⟨fun h => ⟨h, fun hlow hhigh => absurd ⟨hlow, hhigh⟩ hbits⟩, And.left⟩

/-- What the rounding filters make of an integer, and which integers they leave as they are: those
that are floats themselves, below nine quintillions. The half that `round` adds changes the odd
ones of 53 bits besides. -/
theorem integer_rounding (n : Int64) (named : Bindings) :
    Filter.ceil.call [.int n] named = .ok (.throughFloat n) ∧
      Filter.floor.call [.int n] named = .ok (.throughFloat n) ∧
      Filter.round.call [.int n] named = .ok (.throughFloat (halfUp n)) ∧
      (Value.throughFloat n = .int n ↔
        grain n.toInt.natAbs ∣ n.toInt.natAbs ∧ n.toInt.natAbs < 9 * 10 ^ 18) ∧
      (Value.throughFloat (halfUp n) = .int n ↔
        (grain n.toInt.natAbs ∣ n.toInt.natAbs ∧ n.toInt.natAbs < 9 * 10 ^ 18) ∧
          (2 ^ 52 ≤ n.toInt.natAbs → n.toInt.natAbs < 2 ^ 53 → n.toInt % 2 = 0)) :=
  ⟨Filter.ceil_call n named, Filter.floor_call n named, Filter.round_call n named,
    Value.throughFloat_eq_int_iff n, Value.throughFloat_halfUp_eq_int_iff n⟩

/-- One more than `2 ^ 53` is not a float. One more than `2 ^ 52` is one, but no half comes after
it. -/
theorem integer_rounding_inexact :
    Filter.ceil.call [.int 9007199254740993] [] = .ok (.int 9007199254740992) ∧
      Filter.round.call [.int 4503599627370497] [] = .ok (.int 4503599627370498) ∧
      ¬ ∀ n : Int64, Filter.ceil.call [.int n] [] = .ok (.int n) := by
  have hceil : Filter.ceil.call [.int 9007199254740993] [] = .ok (.int 9007199254740992) := by
    rw [Filter.ceil_call]
    rfl
  refine ⟨hceil, ?_, fun h => ?_⟩
  · rw [Filter.round_call]
    rfl
  · exact absurd (hceil.symm.trans (h _)) (by simp)

end Calls

end Stencil
