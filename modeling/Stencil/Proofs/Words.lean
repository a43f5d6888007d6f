import Mathlib
import Stencil.Proofs.Results

/-!
# Machine words

A word is a number of an integer type, which has all numbers from a least to a greatest one. An
operation on words has a result where the type has the exact result, and traps elsewhere: nothing
wraps around. So a computation on words that does not trap has left no range on its way.
-/
namespace Stencil

/-- An integer type, which has zero and one. -/
structure WordType where
  least : Int
  greatest : Int
  least_nonpos : least ≤ 0 := by decide
  greatest_pos : 1 ≤ greatest := by decide

namespace WordType

def int64 : WordType where
  least := -0x8000000000000000
  greatest := 0x7FFFFFFFFFFFFFFF

def int128 : WordType where
  least := -0x80000000000000000000000000000000
  greatest := 0x7FFFFFFFFFFFFFFFFFFFFFFFFFFFFFFF

/-- Lengths and positions. -/
def size : WordType where
  least := 0
  greatest := 0xFFFFFFFFFFFFFFFF

def Has (t : WordType) (n : Int) : Prop := t.least ≤ n ∧ n ≤ t.greatest

instance (t : WordType) (n : Int) : Decidable (t.Has n) := inferInstanceAs (Decidable (_ ∧ _))

theorem int64_least : int64.least = -2 ^ 63 := rfl

theorem int64_greatest : int64.greatest = 2 ^ 63 - 1 := rfl

theorem int64_has {n : Int} : int64.Has n ↔ -2 ^ 63 ≤ n ∧ n < 2 ^ 63 := by
  simp only [Has, int64]
  omega

theorem int128_has {n : Int} : int128.Has n ↔ -2 ^ 127 ≤ n ∧ n < 2 ^ 127 := by
  simp only [Has, int128]
  omega

theorem size_has {n : Int} : size.Has n ↔ 0 ≤ n ∧ n < 2 ^ 64 := by
  simp only [Has, size]
  omega

end WordType

@[ext]
structure Word (t : WordType) where
  toInt : Int
  has : t.Has toInt
  deriving DecidableEq

/-- Why an operation has no result. -/
inductive Trap where
  /-- The exact result is no number of the type. -/
  | overflow
  | zeroDivisor
  /-- A part of a list whose bounds are out of order, or that ends beyond the list. -/
  | outOfBounds
  deriving DecidableEq

namespace Word

variable {t u : WordType}

instance : OfNat (Word t) 0 := ⟨⟨0, t.least_nonpos, zero_le_one.trans t.greatest_pos⟩⟩

instance : OfNat (Word t) 1 := ⟨⟨1, t.least_nonpos.trans zero_le_one, t.greatest_pos⟩⟩

def greatest (t : WordType) : Word t :=
  ⟨t.greatest, t.least_nonpos.trans (zero_le_one.trans t.greatest_pos), le_rfl⟩

def ofInt (t : WordType) (n : Int) : Except Trap (Word t) :=
  if h : t.Has n then .ok ⟨n, h⟩ else .error .overflow

def toNat (w : Word t) : Nat := w.toInt.toNat

/-- The same number in another type. -/
def cast (u : WordType) (w : Word t) : Except Trap (Word u) := ofInt u w.toInt

def add (a b : Word t) : Except Trap (Word t) := ofInt t (a.toInt + b.toInt)

def sub (a b : Word t) : Except Trap (Word t) := ofInt t (a.toInt - b.toInt)

/-- The quotient rounded toward zero. -/
def div (a b : Word t) : Except Trap (Word t) :=
  if b.toInt = 0 then .error .zeroDivisor else ofInt t (a.toInt.tdiv b.toInt)

/-- The remainder of the quotient rounded toward zero, which has to be a number of the type too. -/
def rem (a b : Word t) : Except Trap (Word t) := do
  discard (a.div b)
  ofInt t (a.toInt.tmod b.toInt)

/-- The number of the type that is nearest to the sum. -/
def saturatingAdd (a b : Word t) : Word t where
  toInt := max t.least (min (a.toInt + b.toInt) t.greatest)
  has := by
    have := a.has
    simp only [WordType.Has] at this ⊢
    omega

instance : Min (Word t) := ⟨fun a b => if a.toInt ≤ b.toInt then a else b⟩

instance : Max (Word t) := ⟨fun a b => if a.toInt ≤ b.toInt then b else a⟩

@[simp] theorem toInt_zero : (0 : Word t).toInt = 0 := rfl

@[simp] theorem toInt_one : (1 : Word t).toInt = 1 := rfl

@[simp] theorem toInt_min (a b : Word t) : (min a b).toInt = min a.toInt b.toInt := by
  change (if a.toInt ≤ b.toInt then a else b).toInt = _
  split <;> omega

@[simp] theorem toInt_max (a b : Word t) : (max a b).toInt = max a.toInt b.toInt := by
  change (if a.toInt ≤ b.toInt then b else a).toInt = _
  split <;> omega

theorem toInt_saturatingAdd (a b : Word t) :
    (a.saturatingAdd b).toInt = max t.least (min (a.toInt + b.toInt) t.greatest) := rfl

theorem toInt_toNat (w : Word .size) : (w.toNat : Int) = w.toInt :=
  Int.toNat_of_nonneg (WordType.size_has.mp w.has).1

theorem toNat_eq {w : Word t} {n : Nat} (h : w.toInt = n) : w.toNat = n := by
  rw [toNat, h, Int.toNat_natCast]

theorem toNat_inj {a b : Word .size} : a.toNat = b.toNat ↔ a = b := by
  rw [Word.ext_iff, ← toInt_toNat a, ← toInt_toNat b, Nat.cast_inj]

theorem ofInt_of_has {n : Int} (h : t.Has n) : ofInt t n = .ok ⟨n, h⟩ := dif_pos h

theorem ofInt_eq_ok {n : Int} {w : Word t} : ofInt t n = .ok w ↔ w.toInt = n := by
  constructor
  · intro h
    simp only [ofInt] at h
    split at h
    · cases h
      rfl
    · cases h
  · rintro rfl
    exact ofInt_of_has w.has

theorem ofInt_eq_error {n : Int} : ofInt t n = .error .overflow ↔ ¬ t.Has n := by
  simp only [ofInt]
  split <;> simp_all

example : (greatest .int64).add 1 = .error .overflow := by decide

theorem ofInt_toOption (t : WordType) (n : Int) :
    (ofInt t n).toOption = if h : t.Has n then some ⟨n, h⟩ else none := by
  simp only [ofInt]
  split <;> rfl

/-- A computation that does not trap, and ends with the word of this number. -/
def Gives (x : Except Trap (Word t)) (n : Int) : Prop := ∃ w, x = .ok w ∧ w.toInt = n

theorem ofInt_gives {n : Int} (h : t.Has n) : Gives (ofInt t n) n := ⟨⟨n, h⟩, ofInt_of_has h, rfl⟩

theorem cast_gives {w : Word t} (h : u.Has w.toInt) : Gives (w.cast u) w.toInt := ofInt_gives h

theorem add_gives {a b : Word t} (h : t.Has (a.toInt + b.toInt)) :
    Gives (a.add b) (a.toInt + b.toInt) := ofInt_gives h

theorem sub_gives {a b : Word t} (h : t.Has (a.toInt - b.toInt)) :
    Gives (a.sub b) (a.toInt - b.toInt) := ofInt_gives h

/-! ### Integers of the values -/

def ofInt64 (n : Int64) : Word .int64 where
  toInt := n.toInt
  has := WordType.int64_has.mpr ⟨n.le_toInt, n.toInt_lt⟩

def toInt64 (w : Word .int64) : Int64 := .ofInt w.toInt

@[simp] theorem toInt_ofInt64 (n : Int64) : (ofInt64 n).toInt = n.toInt := rfl

theorem toInt_toInt64 (w : Word .int64) : w.toInt64.toInt = w.toInt := by
  obtain ⟨hleast, hgreatest⟩ := WordType.int64_has.mp w.has
  exact Int64.toInt_ofInt_of_le hleast hgreatest

end Word

end Stencil
