import Mathlib
import Stencil.Decimal.Reader
import Stencil.Json.Basic

/-!
# Integers in text

The text of an integer reads back as that integer. A text with a decimal point in it is no integer.
-/
namespace Stencil.Decimal

theorem isDigit_of_mem_digits {n : Nat} {c : Char} (h : c ∈ Nat.toDigits 10 n) : c.isDigit :=
  Nat.isDigit_of_mem_toDigits (by decide) (by decide) h

theorem dropSign_digits (n : Nat) : dropSign (Nat.toDigits 10 n) = (false, Nat.toDigits 10 n) := by
  obtain ⟨c, cs, hcs⟩ := List.exists_cons_of_ne_nil (Nat.toDigits_ne_nil (n := n) (b := 10))
  have hc : c.isDigit := isDigit_of_mem_digits (hcs ▸ List.mem_cons_self)
  rw [hcs, dropSign]
  · rintro _ he
    cases he
    revert hc
    decide
  · rintro _ he
    cases he
    revert hc
    decide

theorem allDigits_digits (n : Nat) : allDigits (Nat.toDigits 10 n) = true := by
  have hdigits : ∀ c ∈ Nat.toDigits 10 n, c.isDigit := fun c hc => isDigit_of_mem_digits hc
  simpa [allDigits, Nat.toDigits_ne_nil] using hdigits

theorem natOfDigits_digits (n : Nat) : natOfDigits (Nat.toDigits 10 n) = n := by
  have hfold := Nat.ofDigitChars_toDigits (n := n) (b := 10) (by decide) (by decide)
  rw [Nat.ofDigitChars] at hfold
  simpa [natOfDigits, Nat.mul_comm] using hfold

theorem readInt?_digitText (n : Nat) : readInt? (digitText n) = some (n : Int) := by
  simp only [readInt?, digitText, String.toList_ofList, dropSign_digits, allDigits_digits,
    natOfDigits_digits]
  rfl

theorem readInt?_minus_digitText (n : Nat) : readInt? ("-" ++ digitText n) = some (-n : Int) := by
  have htext : ("-" ++ digitText n).toList = '-' :: Nat.toDigits 10 n := by
    simp [digitText]
  simp only [readInt?, htext, dropSign, allDigits_digits, natOfDigits_digits]
  rfl

theorem readInt?_intText (n : Int) : readInt? (Json.intText n) = some n := by
  simp only [Json.intText]
  split
  · rw [readInt?_minus_digitText]
    congr 1
    omega
  · rw [String.empty_append, readInt?_digitText]
    congr 1
    omega

theorem inInt64_toInt (n : Int64) : inInt64 n.toInt = true := by
  simp only [inInt64, Bool.and_eq_true, decide_eq_true_eq]
  exact ⟨n.minValue_le_toInt, n.toInt_le⟩

theorem readInt64?_intText (n : Int64) : readInt64? (Json.intText n.toInt) = some n := by
  simp only [readInt64?, readInt?_intText, Option.bind_some, inInt64_toInt, if_true,
    Int64.ofInt_toInt]

theorem mem_dropSign {c : Char} {cs : List Char} (h : c ∈ cs) (hminus : c ≠ '-') (hplus : c ≠ '+') :
    c ∈ (dropSign cs).2 := by
  simp only [dropSign]
  split
  · exact (List.mem_cons.mp h).resolve_left hminus
  · exact (List.mem_cons.mp h).resolve_left hplus
  · exact h

/-- An integer has no decimal point. -/
theorem readInt?_of_point {s : String} (h : '.' ∈ s.toList) : readInt? s = none := by
  have hmem : '.' ∈ (dropSign s.toList).2 := mem_dropSign h (by decide) (by decide)
  have hdigits : allDigits (dropSign s.toList).2 = false := by
    rw [allDigits, Bool.and_eq_false_iff]
    exact .inr (List.all_eq_false.mpr ⟨'.', hmem, by decide⟩)
  simp only [readInt?, hdigits]
  rfl

theorem readInt64?_of_point {s : String} (h : '.' ∈ s.toList) : readInt64? s = none := by
  rw [readInt64?, readInt?_of_point h, Option.bind_none]

/-- What is read within 64 bits is the integer that the text states. -/
theorem readInt64?_eq_some {s : String} {n : Int64} (h : readInt64? s = some n) :
    readInt? s = some n.toInt := by
  obtain ⟨m, hm, h⟩ := Option.bind_eq_some_iff.mp h
  split at h
  · rename_i hrange
    simp only [inInt64, Bool.and_eq_true, decide_eq_true_eq] at hrange
    cases h
    have hlast : Int64.maxValue.toInt = 2 ^ 63 - 1 := by decide
    rw [hm, Int64.toInt_ofInt_of_le hrange.1 (by omega)]
  · cases h

/-- Zeros at the end of digits multiply by ten. -/
theorem digits_append_zeros {n : Nat} (h : n ≠ 0) (k : Nat) :
    Nat.toDigits 10 n ++ List.replicate k '0' = Nat.toDigits 10 (n * 10 ^ k) := by
  induction k with
  | zero => simp
  | succ k ih =>
    have hpos : 0 < n * 10 ^ k := Nat.mul_pos (Nat.pos_of_ne_zero h) (Nat.pow_pos (by decide))
    have hlast := Nat.toDigits_append_toDigits (b := 10) (by decide) hpos (d := 0) (by decide)
    rw [List.replicate_succ', ← List.append_assoc, ih]
    rw [Nat.toDigits_zero] at hlast
    rw [hlast, Nat.add_zero, Nat.pow_succ, Nat.mul_comm 10, Nat.mul_assoc]

end Stencil.Decimal
