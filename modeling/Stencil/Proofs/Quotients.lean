import Mathlib
import Stencil.Expr.Eval
import Stencil.Filter.Standard
import Stencil.Proofs.Floats

/-!
# Arithmetic on integers

An operation on two integers gives the exact result wherever 64 bits hold it, and the result in
floats where they do not. One pair is left out: the remainder of the least integer by -1 is zero and
yet computed in floats, since the quotient that belongs to it has more than 64 bits.
-/
namespace Stencil.Arithmetic

/-- What a quotient rounded down and its remainder are. -/
structure IsFloored (a b q r : Int) : Prop where
  split : a = b * q + r
  range : 0 ≤ r ∧ r < b ∨ b < r ∧ r ≤ 0

namespace IsFloored

variable {a b q r : Int}

theorem floor_eq (h : IsFloored a b q r) : ⌊(a : ℚ) / b⌋ = q := by
  have hsplit : (a : ℚ) = b * q + r := by exact_mod_cast h.split
  rw [Int.floor_eq_iff]
  rcases h.range with ⟨hr, hb⟩ | ⟨hb, hr⟩
  · have hpos : (0 : ℚ) < b := by exact_mod_cast lt_of_le_of_lt hr hb
    have hr : (0 : ℚ) ≤ r := by exact_mod_cast hr
    have hb : (r : ℚ) < b := by exact_mod_cast hb
    rw [le_div_iff₀ hpos, div_lt_iff₀ hpos]
    constructor <;> linarith
  · have hneg : (b : ℚ) < 0 := by exact_mod_cast lt_of_lt_of_le hb hr
    have hr : (r : ℚ) ≤ 0 := by exact_mod_cast hr
    have hb : (b : ℚ) < r := by exact_mod_cast hb
    rw [le_div_iff_of_neg hneg, div_lt_iff_of_neg hneg]
    constructor <;> linarith

theorem rest_eq (h : IsFloored a b q r) : a - b * ⌊(a : ℚ) / b⌋ = r := by
  have := h.split
  rw [h.floor_eq]
  omega

theorem sign_eq (h : IsFloored a b q r) : r = 0 ∨ r.sign = b.sign := by
  rcases h.range with ⟨hr, hb⟩ | ⟨hb, hr⟩
  · rcases hr.eq_or_lt with hzero | hpos
    · exact .inl hzero.symm
    · exact .inr (by rw [Int.sign_eq_one_of_pos hpos, Int.sign_eq_one_of_pos (hpos.trans hb)])
  · rcases hr.eq_or_lt with hzero | hneg
    · exact .inl hzero
    · have hdivisor : b < 0 := hb.trans hneg
      exact .inr (by rw [Int.sign_eq_neg_one_of_neg hneg, Int.sign_eq_neg_one_of_neg hdivisor])

theorem natAbs_lt (h : IsFloored a b q r) : r.natAbs < b.natAbs := by
  have := h.range
  omega

end IsFloored

/-- The remainder of division toward zero lies between zero and the divisor, or between zero and its
negative: on the side of the dividend. -/
theorem tmod_range {a b : Int} (hb : b ≠ 0) :
    (a.tmod b).natAbs < b.natAbs ∧ (0 ≤ a → 0 ≤ a.tmod b) ∧ (a ≤ 0 → a.tmod b ≤ 0) := by
  refine ⟨?_, Int.tmod_nonneg b, fun ha => ?_⟩
  · rw [Int.natAbs_tmod]
    exact Nat.mod_lt _ (Int.natAbs_pos.mpr hb)
  · have hneg := Int.tmod_nonneg (a := -a) b (by omega)
    rw [Int.neg_tmod] at hneg
    omega

/-- Where a remainder toward zero and the divisor have different signs, the quotient that is rounded
down is one less, and its remainder greater by the divisor. -/
theorem isFloored_of_tdiv {a b : Int} (hb : b ≠ 0) :
    if a.tmod b ≠ 0 ∧ (a.tmod b < 0 ↔ ¬ b < 0) then IsFloored a b (a.tdiv b - 1) (a.tmod b + b)
    else IsFloored a b (a.tdiv b) (a.tmod b) := by
  obtain ⟨hrange, -, -⟩ := tmod_range (a := a) hb
  have hsplit := Int.mul_tdiv_add_tmod a b
  split
  · refine ⟨?_, by omega⟩
    rw [Int.mul_sub, Int.mul_one]
    omega
  · exact ⟨hsplit.symm, by omega⟩

/-- A quotient that leaves a remainder is far from the ends of the range. -/
theorem natAbs_tdiv_le {a b : Int} (hb : b ≠ 0) (hr : a.tmod b ≠ 0) (ha : a.natAbs ≤ 2 ^ 63) :
    (a.tdiv b).natAbs ≤ 2 ^ 62 := by
  have hone : b ≠ 1 := fun h => hr (h ▸ Int.tmod_one a)
  have hminus : b ≠ -1 := fun h => hr (by rw [h, Int.tmod_neg, Int.tmod_one])
  rw [Int.natAbs_tdiv]
  calc a.natAbs / b.natAbs ≤ a.natAbs / 2 := Nat.div_le_div_left (by omega) (by decide)
    _ ≤ 2 ^ 62 := by omega

theorem toInt_bounds (x : Int64) : -2 ^ 63 ≤ x.toInt ∧ x.toInt < 2 ^ 63 := ⟨x.le_toInt, x.toInt_lt⟩

theorem inInt64_iff (n : Int) : Decimal.inInt64 n = true ↔ -2 ^ 63 ≤ n ∧ n < 2 ^ 63 := by
  have hlast : Int64.maxValue.toInt = 2 ^ 63 - 1 := by decide
  have hfirst : Int64.minValue.toInt = -2 ^ 63 := by decide
  simp only [Decimal.inInt64, Bool.and_eq_true, decide_eq_true_eq, hlast, hfirst]
  omega

theorem int?_eq_some {n : Int} {r : Int64} : int? n = some r ↔ r.toInt = n := by
  simp only [int?]
  split
  · rename_i h
    rw [inInt64_iff] at h
    rw [Option.some_inj, ← Int64.toInt_inj, Int64.toInt_ofInt_of_le h.1 h.2, eq_comm]
  · rename_i h
    rw [inInt64_iff] at h
    have := toInt_bounds r
    constructor
    · rintro ⟨⟩
    · omega

theorem int?_isSome {n : Int} : (int? n).isSome ↔ Decimal.inInt64 n = true := by
  simp [int?]

section

variable {x y : Int64}

theorem isDivisible_iff : isDivisible x y = true ↔
    y.toInt ≠ 0 ∧ ¬ (x.toInt = -2 ^ 63 ∧ y.toInt = -1) := by
  have hfirst : Int64.minValue.toInt = -2 ^ 63 := by decide
  have hminus : (-1 : Int64).toInt = -1 := by decide
  simp [isDivisible, ← Int64.toInt_inj, hfirst, hminus, ← imp_iff_not_or]

/-- Division of words is that of integers where it is defined. -/
theorem toInt_div (h : isDivisible x y = true) : (x / y).toInt = x.toInt.tdiv y.toInt := by
  obtain ⟨-, hcorner⟩ := isDivisible_iff.mp h
  by_cases hx : x = Int64.minValue
  · refine Int64.toInt_div_of_ne_right x y fun hy => hcorner ⟨?_, ?_⟩
    · rw [hx]
      decide
    · rw [hy]
      decide
  · exact Int64.toInt_div_of_ne_left x y hx

/-- The correction of a remainder stays within its range. -/
theorem toInt_mod_add (hy : y.toInt ≠ 0)
    (hsigns : x.toInt.tmod y.toInt < 0 ↔ ¬ y.toInt < 0) :
    (x % y + y).toInt = x.toInt.tmod y.toInt + y.toInt := by
  obtain ⟨hrange, -, -⟩ := tmod_range (a := x.toInt) hy
  have := toInt_bounds y
  rw [Int64.toInt_add, Int64.toInt_mod]
  apply Int.bmod_eq_of_le <;> omega

theorem differInSign_iff : differInSign x y = true ↔ (x.toInt < 0 ↔ ¬ y.toInt < 0) := by
  have hzero : (0 : Int64).toInt = 0 := by decide
  simp only [differInSign, bne_iff_ne, ne_eq, decide_eq_decide, Int64.lt_iff_toInt_lt, hzero]
  omega

theorem mod_ne_zero_iff : x % y ≠ 0 ↔ x.toInt.tmod y.toInt ≠ 0 := by
  have hzero : (0 : Int64).toInt = 0 := by decide
  rw [ne_eq, ← Int64.toInt_inj, Int64.toInt_mod, hzero]

/-- The quotient and the remainder of two integers are those of the exact quotient. -/
theorem isFloored_of_isDivisible (h : isDivisible x y = true) :
    ∃ q r, floorDiv? x y = some q ∧ floorMod? x y = some r ∧
      IsFloored x.toInt y.toInt q.toInt r.toInt := by
  obtain ⟨hy, -⟩ := isDivisible_iff.mp h
  obtain ⟨-, hnonneg, hnonpos⟩ := tmod_range (a := x.toInt) hy
  have hfloored := isFloored_of_tdiv (a := x.toInt) hy
  -- a remainder has the sign of the dividend, so both functions make the correction together
  have hdividend : x % y ≠ 0 ∧ differInSign x y = true ↔ x.toInt.tmod y.toInt ≠ 0 ∧
      (x.toInt.tmod y.toInt < 0 ↔ ¬ y.toInt < 0) := by
    rw [mod_ne_zero_iff, differInSign_iff]
    omega
  have hrest : x % y ≠ 0 ∧ differInSign (x % y) y = true ↔ x.toInt.tmod y.toInt ≠ 0 ∧
      (x.toInt.tmod y.toInt < 0 ↔ ¬ y.toInt < 0) := by
    rw [mod_ne_zero_iff, differInSign_iff, Int64.toInt_mod]
  simp only [floorDiv?, floorMod?, h, if_true, hdividend, hrest]
  split at hfloored
  · rename_i hsigns
    have hx := toInt_bounds x
    have hquotient := natAbs_tdiv_le hy hsigns.1 (by omega)
    have hrange : Decimal.inInt64 ((x / y).toInt - 1) = true := by
      rw [inInt64_iff, toInt_div h]
      omega
    obtain ⟨q, hq⟩ := Option.isSome_iff_exists.mp (int?_isSome.mpr hrange)
    refine ⟨q, x % y + y, by rw [if_pos hsigns, hq], if_pos hsigns, ?_⟩
    rw [int?_eq_some.mp hq, toInt_div h, toInt_mod_add hy hsigns.2]
    exact hfloored
  · rename_i hsigns
    refine ⟨x / y, x % y, if_neg hsigns, if_neg hsigns, ?_⟩
    rw [toInt_div h, Int64.toInt_mod]
    exact hfloored

/-- The result of an operator in exact arithmetic. -/
def trueResult? (op : Operator) (a b : Int) : Option Int :=
  match op with
  | .add => some (a + b)
  | .sub => some (a - b)
  | .mul => some (a * b)
  | .div => some ⌊(a : ℚ) / b⌋
  | .mod => some (a - b * ⌊(a : ℚ) / b⌋)
  | _ => none

/-- The remainder that no integer is given for, although zero is exact. -/
def IsRefused (op : Operator) (x y : Int64) : Prop := op = .mod ∧ x = Int64.minValue ∧ y = -1

instance (op : Operator) (x y : Int64) : Decidable (IsRefused op x y) :=
  inferInstanceAs (Decidable (_ ∧ _ ∧ _))

variable {op : Operator} {n : Int}

theorem int?_toInt (r : Int64) : int? r.toInt = some r := int?_eq_some.mpr rfl

/-- The quotient of the least integer by -1 has more than 64 bits. -/
theorem floor_least : ⌊(Int64.minValue.toInt : ℚ) / (-1 : Int64).toInt⌋ = 2 ^ 63 := by
  have hfirst : Int64.minValue.toInt = -2 ^ 63 := by decide
  have hminus : (-1 : Int64).toInt = -1 := by decide
  rw [hfirst, hminus]
  norm_num

theorem eq_of_not_isDivisible (hy : y ≠ 0) (h : isDivisible x y = false) :
    x = Int64.minValue ∧ y = -1 := by
  simpa [isDivisible, hy] using h

theorem int64Result?_eq (hn : trueResult? op x.toInt y.toInt = some n)
    (hy : isDivision op = true → y ≠ 0) (hrefused : ¬ IsRefused op x y) :
    int64Result? op x y = int? n := by
  cases op with
  | add | sub | mul =>
    cases hn
    rfl
  | div =>
    cases hn
    cases h : isDivisible x y with
    | true =>
      obtain ⟨q, r, hq, -, hfloored⟩ := isFloored_of_isDivisible h
      rw [hfloored.floor_eq, int?_toInt, ← hq]
      rfl
    | false =>
      obtain ⟨rfl, rfl⟩ := eq_of_not_isDivisible (hy rfl) h
      rw [floor_least]
      decide
  | mod =>
    cases hn
    cases h : isDivisible x y with
    | true =>
      obtain ⟨q, r, -, hr, hfloored⟩ := isFloored_of_isDivisible h
      rw [hfloored.rest_eq, int?_toInt, ← hr]
      rfl
    | false => exact absurd ⟨rfl, eq_of_not_isDivisible (hy rfl) h⟩ hrefused
  | or | and | eq | ne | lt | le | gt | ge | contains => cases hn

/-- In floats only a division by zero fails. -/
theorem viaFloats_ints (hn : trueResult? op x.toInt y.toInt = some n)
    (hy : isDivision op = true → y ≠ 0) :
    ∃ f, onFloats op (Decimal.ofInt64 x) (Decimal.ofInt64 y) = .ok f ∧
      viaFloats op (.int x) (.int y) = .ok (.float f) := by
  have hfloats : ∃ f, onFloats op (Decimal.ofInt64 x) (Decimal.ofInt64 y) = .ok f := by
    cases op with
    | add | sub | mul => exact ⟨_, rfl⟩
    | div | mod =>
      simp only [onFloats, Decimal.ofInt64_ne_zero (hy rfl)]
      exact ⟨_, rfl⟩
    | or | and | eq | ne | lt | le | gt | ge | contains => cases hn
  obtain ⟨f, hf⟩ := hfloats
  refine ⟨f, hf, ?_⟩
  simp only [viaFloats, operand]
  change (onFloats op (Decimal.ofInt64 x) (Decimal.ofInt64 y)).bind _ = _
  rw [hf]
  rfl

/-- The result is exact where 64 bits hold it, and computed in floats elsewhere. -/
theorem apply_ints (hn : trueResult? op x.toInt y.toInt = some n)
    (hy : isDivision op = true → y ≠ 0) (hrefused : ¬ IsRefused op x y) :
    if -2 ^ 63 ≤ n ∧ n < 2 ^ 63 then
      ∃ r, apply op (.int x) (.int y) = .ok (.int r) ∧ r.toInt = n
    else ∃ f, onFloats op (Decimal.ofInt64 x) (Decimal.ofInt64 y) = .ok f ∧
      apply op (.int x) (.int y) = .ok (.float f) := by
  have hzero : (isDivision op && decide (y = 0)) = false := by
    rw [Bool.and_eq_false_iff]
    cases hdivision : isDivision op with
    | false => exact .inl rfl
    | true => exact .inr (decide_eq_false (hy hdivision))
  have hresult := int64Result?_eq hn hy hrefused
  simp only [apply, hzero, Bool.false_eq_true, if_false, hresult]
  split
  · rename_i hrange
    rw [← inInt64_iff] at hrange
    obtain ⟨r, hr⟩ := Option.isSome_iff_exists.mp (int?_isSome.mpr hrange)
    rw [hr]
    exact ⟨r, rfl, int?_eq_some.mp hr⟩
  · rename_i hrange
    rw [← inInt64_iff] at hrange
    have hnone : int? n = none := Option.not_isSome_iff_eq_none.mp (int?_isSome.not.mpr hrange)
    rw [hnone]
    exact viaFloats_ints hn hy

theorem apply_zero (hdivision : isDivision op = true) :
    apply op (.int x) (.int 0) = .error .divisionByZero := by
  simp only [apply, hdivision]
  rfl

/-- A remainder has the sign of the divisor, lies nearer to zero, and makes up the dividend together
with the quotient that is rounded down. -/
theorem apply_mod (hy : y ≠ 0) (hrefused : ¬ IsRefused .mod x y) :
    ∃ r, apply .mod (.int x) (.int y) = .ok (.int r) ∧
      (r.toInt = 0 ∨ r.toInt.sign = y.toInt.sign) ∧ r.toInt.natAbs < y.toInt.natAbs ∧
      x.toInt = y.toInt * ⌊(x.toInt : ℚ) / y.toInt⌋ + r.toInt := by
  have hdivisible : isDivisible x y = true := by
    rw [← Bool.not_eq_false]
    exact fun h => hrefused ⟨rfl, eq_of_not_isDivisible hy h⟩
  obtain ⟨q, r, -, hr, hfloored⟩ := isFloored_of_isDivisible hdivisible
  have happly : apply .mod (.int x) (.int y) = .ok (.int r) := by
    simp only [apply, isDivision, int64Result?, hr, hy]
    rfl
  refine ⟨r, happly, hfloored.sign_eq, hfloored.natAbs_lt, ?_⟩
  rw [hfloored.floor_eq]
  exact hfloored.split

/-- The filters that apply an operator. -/
def operatorFilters : List (String × Operator) :=
  [("plus", .add), ("minus", .sub), ("times", .mul), ("divided_by", .div), ("modulo", .mod)]

theorem onNumbers_call (name : String) (op : Operator) (x y : Int64) (named : Bindings) :
    (Filter.onNumbers name op).call [.int x, .int y] named =
      (apply op (.int x) (.int y)).mapError
        fun fault => ⟨.filter name (.arithmetic fault), none⟩ := by
  have hcall : (Filter.onNumbers name op).call [.int x, .int y] named =
      ((apply op (.int x) (.int y)).mapError FilterFault.arithmetic).mapError
        fun fault => ⟨.filter name fault, none⟩ := rfl
  rw [hcall]
  cases apply op (.int x) (.int y) <;> rfl

theorem onNumbers_mem_standard {name : String} {op : Operator} (h : (name, op) ∈ operatorFilters) :
    Filter.onNumbers name op ∈ Filter.standard := by
  simp only [operatorFilters, List.mem_cons, List.not_mem_nil, or_false, Prod.mk.injEq] at h
  rcases h with ⟨rfl, rfl⟩ | ⟨rfl, rfl⟩ | ⟨rfl, rfl⟩ | ⟨rfl, rfl⟩ | ⟨rfl, rfl⟩
  · exact (by simp [Filter.standard] : Filter.plus ∈ Filter.standard)
  · exact (by simp [Filter.standard] : Filter.minus ∈ Filter.standard)
  · exact (by simp [Filter.standard] : Filter.times ∈ Filter.standard)
  · exact (by simp [Filter.standard] : Filter.dividedBy ∈ Filter.standard)
  · exact (by simp [Filter.standard] : Filter.modulo ∈ Filter.standard)

theorem eval_binary_ints {env : Environment} {left right : Expr}
    (hop : (trueResult? op x.toInt y.toInt).isSome) (hleft : left.eval env = .ok (.int x))
    (hright : right.eval env = .ok (.int y)) : (Expr.binary op left right).eval env =
      (apply op (.int x) (.int y)).mapError fun fault =>
        ⟨.evaluation (.arithmetic fault), none⟩ := by
  cases op with
  | add | sub | mul | div | mod =>
    simp only [Expr.eval, Operator.isEquality, Bool.false_and, Bool.false_eq_true, if_false,
      hleft, hright]
    rfl
  | or | and | eq | ne | lt | le | gt | ge | contains => cases hop

/-- Two integers have the exact result wherever it has 64 bits, but for the one remainder that is
refused, and their result in floats elsewhere. Only a division by zero fails. Operators in
expressions and the filters named after them do the same. -/
theorem apply_ints_exact (op : Operator) (x y : Int64) (n : Int)
    (hn : trueResult? op x.toInt y.toInt = some n) :
    let result := apply op (.int x) (.int y)
    (isDivision op = true ∧ y = 0 → result = .error .divisionByZero ∧
      ArithmeticFault.divisionByZero.message = "divided by 0") ∧
    (¬ (isDivision op = true ∧ y = 0) →
      if IsRefused op x y then n = 0 ∧ result = .ok (.float 0)
      else if -2 ^ 63 ≤ n ∧ n < 2 ^ 63 then ∃ r, result = .ok (.int r) ∧ r.toInt = n
      else ∃ f, onFloats op (Decimal.ofInt64 x) (Decimal.ofInt64 y) = .ok f ∧
        result = .ok (.float f)) ∧
    (op = .mod → y ≠ 0 → ¬ IsRefused op x y → ∃ r, result = .ok (.int r) ∧
      (r.toInt = 0 ∨ r.toInt.sign = y.toInt.sign) ∧ r.toInt.natAbs < y.toInt.natAbs ∧
      x.toInt = y.toInt * ⌊(x.toInt : ℚ) / y.toInt⌋ + r.toInt) ∧
    (∀ env left right, Expr.eval env left = .ok (.int x) → Expr.eval env right = .ok (.int y) →
      Expr.eval env (.binary op left right) =
        result.mapError fun fault => ⟨.evaluation (.arithmetic fault), none⟩) ∧
    ∀ name, (name, op) ∈ operatorFilters → ∃ f ∈ Filter.standard, f.name = name ∧
      ∀ named, f.call [.int x, .int y] named =
        result.mapError fun fault => ⟨.filter name (.arithmetic fault), none⟩ := by
  intro result
  refine ⟨?_, fun hzero => ?_, ?_, ?_, ?_⟩
  · rintro ⟨hdivision, rfl⟩
    exact ⟨apply_zero hdivision, rfl⟩
  · have hy : isDivision op = true → y ≠ 0 := fun hdivision hy => hzero ⟨hdivision, hy⟩
    split
    · rename_i hrefused
      obtain ⟨rfl, rfl, rfl⟩ := hrefused
      rw [trueResult?, floor_least, Option.some_inj] at hn
      exact ⟨hn.symm.trans (by decide), rfl⟩
    · rename_i hrefused
      exact apply_ints hn hy hrefused
  · rintro rfl hy hrefused
    exact apply_mod hy hrefused
  · intro env left right hleft hright
    exact eval_binary_ints (hn ▸ rfl) hleft hright
  · intro name hname
    exact ⟨_, onNumbers_mem_standard hname, rfl, onNumbers_call name op x y⟩

/-- The remainder of 7 by -3 has the sign of the divisor, as an operation and as a filter. -/
theorem apply_ints_exact_remainder :
    trueResult? .mod (7 : Int64).toInt (-3 : Int64).toInt = some (-2) ∧
      (∃ r, apply .mod (.int 7) (.int (-3)) = .ok (.int r) ∧ r.toInt = -2) ∧
      ∃ f ∈ Filter.standard, f.name = "modulo" ∧
        (f.call [.int 7, .int (-3)] []).toOption.isSome = true := by
  have hfloor : ⌊((7 : Int) : ℚ) / ((-3 : Int) : ℚ)⌋ = -3 := by norm_num
  have hseven : (7 : Int64).toInt = 7 := by decide
  have hthree : (-3 : Int64).toInt = -3 := by decide
  have hexact : trueResult? .mod (7 : Int64).toInt (-3 : Int64).toInt = some (-2) := by
    rw [hseven, hthree, trueResult?, hfloor]
    rfl
  obtain ⟨-, hresult, -, -, hfilter⟩ := apply_ints_exact .mod 7 (-3) (-2) hexact
  have hint : ∃ r, apply .mod (.int 7) (.int (-3)) = .ok (.int r) ∧ r.toInt = -2 := by
    have h := hresult (by decide)
    rwa [if_neg (by decide), if_pos (by decide)] at h
  obtain ⟨f, hf, hname, hcall⟩ := hfilter "modulo" (by simp [operatorFilters])
  refine ⟨hexact, hint, f, hf, hname, ?_⟩
  obtain ⟨r, hr, -⟩ := hint
  rw [hcall, hr]
  rfl

/-- Zero is the remainder of the least integer by -1, and a float is given for it. -/
theorem apply_mod_least :
    trueResult? .mod Int64.minValue.toInt (-1 : Int64).toInt = some 0 ∧
      apply .mod (.int Int64.minValue) (.int (-1)) = .ok (.float 0) ∧
      ¬ ∃ r, apply .mod (.int Int64.minValue) (.int (-1)) = .ok (.int r) := by
  refine ⟨?_, rfl, ?_⟩
  · rw [trueResult?, floor_least]
    decide
  · rintro ⟨r, ⟨⟩⟩

end

end Stencil.Arithmetic
