import Mathlib
import Stencil.Proofs.Integers

/-!
# Texts of floats

Seventeen digits always suffice to write a float, so the shortest decimal of one that is not zero has
a digit other than zero. The text of a float that also reads as an integer is the text of that
integer.
-/
namespace Stencil.Decimal

theorem lt_pow_digitCount (n : Nat) : n < 10 ^ digitCount n :=
  (Nat.length_toDigits_le_iff (by decide) Nat.length_toDigits_pos).mp (Nat.le_refl _)

theorem pow_digitCount_le {n : Nat} (h : n ≠ 0) : 10 ^ (digitCount n - 1) ≤ n := by
  by_cases hone : digitCount n = 1
  · rw [hone]
    exact Nat.pos_of_ne_zero h
  · have hpos : 0 < digitCount n := Nat.length_toDigits_pos
    by_contra hlt
    have hle := (Nat.length_toDigits_le_iff (b := 10) (by decide)
      (show 0 < digitCount n - 1 by omega)).mpr (Nat.lt_of_not_le hlt)
    change digitCount n ≤ digitCount n - 1 at hle
    omega

namespace Ratio

/-- The positive number that a ratio stands for. -/
structure IsValue (r : Ratio) (q : ℚ) : Prop where
  num_pos : 0 < r.num
  den_pos : 0 < r.den
  eq : (r.num : ℚ) = q * r.den

namespace IsValue

variable {r : Ratio} {q : ℚ} (h : r.IsValue q)
include h

theorem scaled {base : Nat} (hbase : 0 < base) (e : Int) :
    IsValue (if 0 ≤ e then ⟨r.num * Nat.pow base e.toNat, r.den⟩
      else ⟨r.num, r.den * Nat.pow base e.natAbs⟩) (q * (base : ℚ) ^ e) := by
  have hne : (base : ℚ) ≠ 0 := by exact_mod_cast hbase.ne'
  have hpow (n : Nat) : 0 < Nat.pow base n := Nat.pow_pos hbase
  split
  · rename_i he
    obtain ⟨n, rfl⟩ := Int.eq_ofNat_of_zero_le he
    refine ⟨Nat.mul_pos h.num_pos (hpow _), h.den_pos, ?_⟩
    have hcast : ((r.num * Nat.pow base n : Nat) : ℚ) = r.num * (base : ℚ) ^ n := by
      exact_mod_cast rfl
    rw [Int.toNat_natCast, zpow_natCast, hcast, h.eq]
    ring
  · rename_i he
    obtain ⟨n, rfl⟩ : ∃ n : Nat, e = -(n : Int) := ⟨e.natAbs, by omega⟩
    refine ⟨h.num_pos, Nat.mul_pos h.den_pos (hpow _), ?_⟩
    have hcast : ((r.den * Nat.pow base n : Nat) : ℚ) = r.den * (base : ℚ) ^ n := by
      exact_mod_cast rfl
    rw [Int.natAbs_neg, Int.natAbs_natCast, zpow_neg, zpow_natCast, hcast, h.eq]
    field_simp

theorem scale2 (e : Int) : (r.scale2 e).IsValue (q * 2 ^ e) := h.scaled (by decide) e

theorem scale10 (e : Int) : (r.scale10 e).IsValue (q * 10 ^ e) := h.scaled (by decide) e

/-- The power of ten of the leading digit is not above the number. -/
theorem magnitude_le : (10 : ℚ) ^ (r.magnitude - 1) ≤ q := by
  have hden : (0 : ℚ) < r.den := by exact_mod_cast h.den_pos
  rw [← mul_le_mul_iff_of_pos_right hden, ← h.eq]
  simp only [magnitude]
  split
  · rename_i hle
    have hne : r.num / r.den ≠ 0 := (Nat.div_pos hle h.den_pos).ne'
    have hcount : 0 < digitCount (r.num / r.den) := Nat.length_toDigits_pos
    have hexp : (digitCount (r.num / r.den) : Int) - 1 = (digitCount (r.num / r.den) - 1 : Nat) := by
      omega
    have hnat : 10 ^ (digitCount (r.num / r.den) - 1) * r.den ≤ r.num :=
      (Nat.mul_le_mul_right _ (pow_digitCount_le hne)).trans (Nat.div_mul_le_self _ _)
    rw [hexp, zpow_natCast]
    exact_mod_cast hnat
  · have hlt := lt_pow_digitCount ((r.den - 1) / r.num)
    rw [Nat.div_lt_iff_lt_mul h.num_pos] at hlt
    generalize digitCount ((r.den - 1) / r.num) = c at hlt
    have hpos := h.den_pos
    have hnat : r.den ≤ 10 ^ c * r.num := by omega
    have hcast : (r.den : ℚ) ≤ 10 ^ c * r.num := by exact_mod_cast hnat
    have hexp : 1 - (c : Int) - 1 = -(c : Int) := by omega
    rw [hexp, zpow_neg, zpow_natCast, inv_mul_le_iff₀ (by positivity)]
    exact hcast

end IsValue

end Ratio

variable {tieUp : Nat → Bool} {b : Binary} {unit : Ratio} {d : Nat}

theorem Reach.holds_of_lt {reach : Reach} (hlow : reach.low * unit.num < d * unit.den)
    (hhigh : d * unit.den < reach.high * unit.num) : reach.holds unit d = true := by
  simp only [Reach.holds]
  split
  · simp [hlow.le, hhigh.le]
  · simp [hlow, hhigh]

theorem Reach.le_of_holds {reach : Reach} (h : reach.holds unit d = true) :
    reach.low * unit.num ≤ d * unit.den := by
  simp only [Reach.holds] at h
  split at h
  · simp only [Bool.and_eq_true, decide_eq_true_eq] at h
    exact h.1
  · simp only [Bool.and_eq_true, decide_eq_true_eq] at h
    exact h.1.le

theorem Binary.reach_low_pos (h : 0 < b.mantissa) : 0 < b.reach.low := by
  simp only [Binary.reach]
  split
  · omega
  · omega

/-- Zero is out of reach. -/
theorem nearestWithin_ne_zero (hb : 0 < b.mantissa) (hunit : 0 < unit.num)
    (h : nearestWithin tieUp b unit = some d) : d ≠ 0 := by
  have hholds (hd : b.reach.holds unit d = true) : d ≠ 0 := by
    rintro rfl
    have hpos := Nat.mul_pos (Binary.reach_low_pos hb) hunit
    have hle := Reach.le_of_holds hd
    omega
  simp only [nearestWithin] at h
  split at h
  · rename_i hboth
    rw [Bool.and_eq_true] at hboth
    split at h
    · cases h
      exact hholds hboth.1
    · cases h
      exact Nat.succ_ne_zero _
  · split at h
    · rename_i hbelow
      cases h
      exact hholds hbelow
    · split at h
      · cases h
        exact Nat.succ_ne_zero _
      · cases h

/-- A grid with steps that are shorter than what is within reach has a candidate. -/
theorem exists_nearestWithin (hnum : 0 < unit.num) (hden : 0 < unit.den)
    (h : unit.den < (b.reach.high - b.reach.low) * unit.num) :
    ∃ d, nearestWithin tieUp b unit = some d := by
  have hlow : b.reach.low ≤ 4 * b.mantissa := Nat.sub_le _ _
  have hhigh : b.reach.high = 4 * b.mantissa + 2 := rfl
  generalize hd : 4 * b.mantissa * unit.num / unit.den = d
  have hfloor : d * unit.den ≤ 4 * b.mantissa * unit.num := hd ▸ Nat.div_mul_le_self _ _
  have hceil : 4 * b.mantissa * unit.num < (d + 1) * unit.den :=
    (Nat.div_lt_iff_lt_mul hden).mp (hd ▸ Nat.lt_succ_self _)
  have hlowle : b.reach.low * unit.num ≤ 4 * b.mantissa * unit.num := Nat.mul_le_mul_right _ hlow
  have hhighlt : 4 * b.mantissa * unit.num < b.reach.high * unit.num := by
    rw [hhigh]
    exact Nat.mul_lt_mul_of_pos_right (by omega) hnum
  simp only [nearestWithin, hd]
  cases hbelow : b.reach.holds unit d with
  | true => cases b.reach.holds unit (d + 1) <;> simp [← apply_ite some]
  | false =>
    cases habove : b.reach.holds unit (d + 1) with
    | true => exact ⟨d + 1, rfl⟩
    | false =>
      -- neither neighbour is within reach, so what is within reach lies strictly between them
      have hl : d * unit.den ≤ b.reach.low * unit.num := by
        by_contra hlt
        have := Reach.holds_of_lt (by omega) (hfloor.trans_lt hhighlt)
        rw [hbelow] at this
        cases this
      have hh : b.reach.high * unit.num ≤ (d + 1) * unit.den := by
        by_contra hlt
        have := Reach.holds_of_lt (hlowle.trans_lt hceil) (by omega)
        rw [habove] at this
        cases this
      rw [Nat.sub_mul] at h
      rw [Nat.add_mul, Nat.one_mul] at hh
      omega

theorem Scaled.strip_digits_ne_zero (d : Scaled) (h : d.digits ≠ 0) : d.strip.digits ≠ 0 := by
  induction d using Scaled.strip.induct with
  | case1 d hd ih =>
    rw [Scaled.strip, dif_pos hd]
    apply ih
    dsimp only
    omega
  | case2 d hd =>
    rw [Scaled.strip, dif_neg hd]
    exact h

/-- A search that comes to a grid with a candidate finds one, there or before. -/
theorem shortestFrom_digits_ne_zero {magnitude : Int} {k fuel n : Nat} (hb : 0 < b.mantissa)
    (hnum : ∀ k : Nat, 0 < ((Ratio.scale2 ⟨1, 4⟩ b.exponent).scale10 (k - magnitude)).num)
    (hkn : k ≤ n) (hn : n < k + fuel) (h : ∃ d, nearestWithin tieUp b
      ((Ratio.scale2 ⟨1, 4⟩ b.exponent).scale10 (n - magnitude)) = some d) :
    (shortestFrom tieUp b magnitude k fuel).digits ≠ 0 := by
  induction fuel generalizing k with
  | zero => omega
  | succ fuel ih =>
    simp only [shortestFrom]
    split
    · rename_i d hd
      exact nearestWithin_ne_zero hb (hnum k) hd
    · rename_i hnone
      have hne : k ≠ n := by
        rintro rfl
        obtain ⟨d, hd⟩ := h
        rw [hnone] at hd
        cases hd
      exact ih (by omega) (by omega)

/-- With seventeen digits, the steps of the grid are shorter than what is within reach. -/
theorem seventeen_digits {p : Int} (hm : b.mantissa < 2 ^ 53)
    (hlead : (10 : ℚ) ^ (p - 1) ≤ b.mantissa * 2 ^ b.exponent)
    (hunit : unit.IsValue (1 / 4 * 2 ^ b.exponent * 10 ^ ((17 : Nat) - p))) :
    unit.den < (b.reach.high - b.reach.low) * unit.num := by
  have hnum := hunit.num_pos
  have hden : (0 : ℚ) < unit.den := by exact_mod_cast hunit.den_pos
  have hsteps : 10 ^ 16 * unit.den ≤ 4 * (b.mantissa * unit.num) := by
    have hpow : (10 : ℚ) ^ 16 = 10 ^ (p - 1) * 10 ^ ((17 : Nat) - p) := by
      rw [← zpow_add₀ (by norm_num), ← zpow_natCast]
      congr 1
      omega
    have hq : (10 : ℚ) ^ 16 * unit.den ≤ 4 * (b.mantissa * unit.num) := by
      rw [hunit.eq, hpow]
      calc (10 : ℚ) ^ (p - 1) * 10 ^ ((17 : Nat) - p) * unit.den
          ≤ b.mantissa * 2 ^ b.exponent * 10 ^ ((17 : Nat) - p) * unit.den := by gcongr
        _ = _ := by ring
    exact_mod_cast hq
  simp only [Binary.reach]
  split
  · rename_i hnarrow
    simp only [Bool.and_eq_true, decide_eq_true_eq] at hnarrow
    rw [hnarrow.1, Binary.hidden] at hsteps ⊢
    omega
  · have hle : b.mantissa * unit.num ≤ 2 ^ 53 * unit.num := Nat.mul_le_mul_right _ hm.le
    have hpos : b.mantissa ≠ 0 := by
      intro hzero
      have := hunit.den_pos
      rw [hzero] at hsteps
      omega
    have hwidth : 4 * b.mantissa + 2 - (4 * b.mantissa - 2) = 4 := by omega
    rw [hwidth]
    omega

theorem shortest_digits_ne_zero (hb : b.mantissa ≠ 0) (hm : b.mantissa < 2 ^ 53) :
    (shortest tieUp b).digits ≠ 0 := by
  have hpos : 0 < b.mantissa := Nat.pos_of_ne_zero hb
  have hvalue : Ratio.IsValue ⟨b.mantissa, 1⟩ b.mantissa := ⟨hpos, Nat.one_pos, by simp⟩
  have hquarter : Ratio.IsValue ⟨1, 4⟩ (1 / 4) := ⟨Nat.one_pos, by decide, by norm_num⟩
  simp only [shortest, if_neg hb]
  have hlead := (hvalue.scale2 b.exponent).magnitude_le
  generalize (Ratio.scale2 ⟨b.mantissa, 1⟩ b.exponent).magnitude = p at hlead
  have hunit (k : Nat) := (hquarter.scale2 b.exponent).scale10 (k - p)
  apply Scaled.strip_digits_ne_zero
  refine shortestFrom_digits_ne_zero (n := 17) hpos (fun k => (hunit k).num_pos) (by decide)
    (by decide) (exists_nearestWithin (hunit 17).num_pos (hunit 17).den_pos ?_)
  exact seventeen_digits hm hlead (hunit 17)

theorem Binary.mantissa_lt {x : Float} (h : Binary.ofFloat? x = some b) : b.mantissa < 2 ^ 53 := by
  have hfraction : x.toBits.toNat % Binary.hidden < Binary.hidden := Nat.mod_lt _ (by decide)
  have hhidden : Binary.hidden = 2 ^ 52 := rfl
  simp only [Binary.ofFloat?] at h
  split at h
  · cases h
  · split at h
    · cases h
      dsimp only
      omega
    · cases h
      dsimp only
      omega

theorem intText_of_negative {n : Nat} (h : n ≠ 0) (negative : Bool) :
    Json.intText (if negative then -(n : Int) else n) =
      (if negative then "-" else "") ++ digitText n := by
  cases negative with
  | false =>
    have hpos : ¬ (n : Int) < 0 := by omega
    simp only [Json.intText, Bool.false_eq_true, if_false, if_neg hpos, Int.natAbs_natCast]
  | true =>
    have hneg : -(n : Int) < 0 := by omega
    simp only [Json.intText, if_true, if_pos hneg, Int.natAbs_neg, Int.natAbs_natCast]

/-- Without a point, digits and zeros are the text of an integer. -/
theorem positionalText_whole {d : Scaled} (h : d.digits ≠ 0) (he : 0 ≤ d.exponent) :
    positionalText false d = digitText (d.digits * 10 ^ d.exponent.toNat) := by
  simp only [positionalText, if_pos he, Bool.false_eq_true, if_false, String.append_empty, zeros,
    digitText, ← digits_append_zeros h, String.ofList_append]

theorem point_mem_positionalText {d : Scaled} (he : ¬ 0 ≤ d.exponent) :
    '.' ∈ (positionalText false d).toList := by
  simp only [positionalText, if_neg he]
  split
  · simp
  · simp

/-- A float whose text reads as an integer has the text of that integer. -/
theorem display_of_readInt64? {x : Float} {n : Int64} (h : readInt64? (display x) = some n) :
    Json.intText n.toInt = display x := by
  simp only [display] at h ⊢
  cases hx : Binary.ofFloat? x with
  | none =>
    simp only [hx, plain, Layout.write] at h
    split at h
    · cases h
    · split at h
      · cases h
      · cases h
  | some b =>
    simp only [hx] at h ⊢
    split at h
    · rw [readInt64?_of_point (by simp)] at h
      cases h
    · rename_i hbig
      rw [if_neg hbig]
      have hm : b.mantissa ≠ 0 := by
        intro hzero
        apply hbig
        simp [Binary.isWhole, Binary.wholePart, hzero]
      have hdigits : (shortest plainLayout.tieUp b).digits ≠ 0 :=
        shortest_digits_ne_zero hm (Binary.mantissa_lt hx)
      have htext : plain x = (if b.negative then "-" else "") ++
          positionalText false (shortest plainLayout.tieUp b) := by
        simp only [plain, Layout.write, hx]
        rfl
      generalize shortest plainLayout.tieUp b = d at hdigits htext
      rw [htext] at h ⊢
      by_cases he : 0 ≤ d.exponent
      · rw [positionalText_whole hdigits he] at h ⊢
        have hne : d.digits * 10 ^ d.exponent.toNat ≠ 0 :=
          Nat.mul_ne_zero hdigits (Nat.pow_pos (by decide)).ne'
        rw [← intText_of_negative hne] at h ⊢
        have hread := readInt64?_eq_some h
        rw [readInt?_intText] at hread
        rw [Option.some.inj hread]
      · rw [readInt64?_of_point] at h
        · cases h
        · rw [String.toList_append]
          exact List.mem_append_right _ (point_mem_positionalText he)

end Stencil.Decimal
