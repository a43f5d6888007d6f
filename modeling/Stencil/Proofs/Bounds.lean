import Stencil.Proofs.Quotients
import Stencil.Proofs.Words

/-!
# Positions and quotients on words

Elements and parts of lists, and quotients that are rounded down, computed on words. None of these
computations traps, for all indices, bounds and operands of 64 bits and for all lists that are
shorter than half of what a position can be, and each gives what exact arithmetic gives.
-/
namespace Stencil.Word

def lengthOf {α : Type} (items : List α) : Except Trap (Word .size) := ofInt .size items.length

theorem lengthOf_gives {α : Type} (items : List α) (h : items.length < 2 ^ 64) :
    Gives (lengthOf items) items.length :=
  ofInt_gives (WordType.size_has.mpr (by omega))

/-! ### Elements of lists -/

/-- The position that an index stands for, a negative one counting from the end. An index before
the first element has none. -/
def position (length : Word .size) (i : Word .int64) : Except Trap (Option (Word .size)) :=
  match (length.cast .int64).toOption with
  | none => return none
  | some n => do
    let place ← if i.toInt < 0 then n.add i else pure i
    return (place.cast .size).toOption

def element? (items : List Value) (i : Int64) : Except Trap (Option Value) := do
  let place ← position (← lengthOf items) (ofInt64 i)
  return place.bind fun p => items[p.toNat]?

theorem position_eq {length : Word .size} (h : length.toInt < 2 ^ 63) (i : Word .int64) :
    position length i =
      .ok (ofInt .size (if i.toInt < 0 then length.toInt + i.toInt else i.toInt)).toOption := by
  have hlength := WordType.size_has.mp length.has
  have hi := WordType.int64_has.mp i.has
  obtain ⟨n, hn, hvalue⟩ := cast_gives (u := .int64) (w := length)
    (WordType.int64_has.mpr (by omega))
  simp only [position, hn, toOption_ok]
  by_cases hneg : i.toInt < 0
  · obtain ⟨place, hplace, hsum⟩ := add_gives (a := n) (b := i) (WordType.int64_has.mpr (by omega))
    simp only [if_pos hneg, hplace]
    rw [← hvalue, ← hsum]
    rfl
  · simp only [if_neg hneg]
    rfl

theorem element?_eq {items : List Value} (h : items.length < 2 ^ 63) (i : Int64) :
    element? items i = .ok (Value.element? items i) := by
  have hi := i.toInt_lt
  obtain ⟨count, hcount, hlength⟩ := lengthOf_gives items (by omega)
  have hplace := position_eq (show count.toInt < 2 ^ 63 by omega) (ofInt64 i)
  rw [toInt_ofInt64, hlength] at hplace
  simp only [element?, hcount, hplace, ok_bind, ofInt_toOption, Value.element?]
  by_cases hplace : 0 ≤ if i.toInt < 0 then (items.length : Int) + i.toInt else i.toInt
  · rw [if_pos hplace, dif_pos (WordType.size_has.mpr ⟨hplace, by split <;> omega⟩)]
    rfl
  · rw [if_neg hplace, dif_neg fun hhas => hplace (WordType.size_has.mp hhas).1]
    rfl

/-- An object is indexed as the list that it stands for. -/
theorem index_of_resolve {items : List Value} (i : Int64) : ∀ {v : Value},
    v.resolve = .list items → v.index (.int i) = Value.element? items i
  | .list _, h => by
    cases h
    rfl
  | .object _ _ _ (some v), h => index_of_resolve i (v := v) h

/-! ### Parts of lists -/

/-- The elements of a list at the positions from one up to another one. -/
structure IsPart {α : Type} (items : List α) (low high : Nat) (found : List α) : Prop where
  ordered : low ≤ high
  within : high ≤ items.length
  length : found.length = high - low
  element : ∀ k < high - low, found[k]? = items[low + k]?

/-- The first position of a slice in a list of this length. -/
def sliceStart (length start : Word .int64) : Except Trap (Word .int64) :=
  if start.toInt < 0 then do return max (← length.add start) 0 else return min start length

/-- The bounds of a slice. -/
def sliceBounds (length : Word .size) (start count : Word .int64) :
    Except Trap (Word .size × Word .size) := do
  let n ← length.cast .int64
  let low ← sliceStart n start
  let high := min (low.saturatingAdd (max count 0)) n
  return (← low.cast .size, ← high.cast .size)

/-- Take the elements from one position up to another one, where the list has them. -/
def part {α : Type} (items : List α) (low high : Word .size) : Except Trap (List α) :=
  if low.toInt ≤ high.toInt ∧ high.toInt ≤ items.length then
    .ok ((items.take high.toNat).drop low.toNat)
  else .error .outOfBounds

/-- The bounds of a slice of a list. -/
def boundsIn {α : Type} (items : List α) (start count : Word .int64) :
    Except Trap (Word .size × Word .size) := do
  sliceBounds (← lengthOf items) start count

def sliceOf {α : Type} (items : List α) (start count : Word .int64) : Except Trap (List α) := do
  let (low, high) ← boundsIn items start count
  part items low high

/-- An integer among arguments. -/
def argument? (args : List Value) (i : Nat) : Option (Word .int64) :=
  match Filter.arg args i with
  | .int n => some (ofInt64 n)
  | _ => none

/-- The slice of a list, or of the text of any other value. -/
def slice (args : List Value) : Except Trap Value :=
  let start := (argument? args 1).getD 0
  let count := (argument? args 2).getD 1
  match (Filter.arg args 0).canonical with
  | .list items => do return .list (← sliceOf items start count)
  | v => do return .str (String.ofList (← sliceOf v.display.toList start count))

theorem sliceStart_gives {length : Word .int64} (h : 0 ≤ length.toInt) (start : Word .int64) :
    Gives (sliceStart length start)
      (if start.toInt < 0 then max (length.toInt + start.toInt) 0
        else min start.toInt length.toInt) := by
  have hlength := WordType.int64_has.mp length.has
  have hstart := WordType.int64_has.mp start.has
  rw [sliceStart]
  split
  · obtain ⟨place, hplace, hsum⟩ := add_gives (a := length) (b := start)
      (WordType.int64_has.mpr (by omega))
    exact ⟨max place 0, by rw [hplace, ok_bind]; rfl, by rw [toInt_max, toInt_zero, hsum]⟩
  · exact ⟨min start length, rfl, toInt_min _ _⟩

/-- A slice lies within the list, and has as many elements as are asked for and there. -/
theorem sliceBounds_eq {length : Word .size} (h : length.toInt < 2 ^ 63)
    (start count : Word .int64) :
    ∃ low high, sliceBounds length start count = .ok (low, high) ∧
      Filter.sliceBounds length.toNat start.toInt count.toInt = (low.toNat, high.toNat) ∧
      low.toInt ≤ high.toInt ∧ high.toInt ≤ length.toInt ∧
      high.toInt - low.toInt = min (max count.toInt 0) (length.toInt - low.toInt) := by
  have hlength := WordType.size_has.mp length.has
  have hcount := WordType.int64_has.mp count.has
  obtain ⟨n, hn, hnvalue⟩ := cast_gives (u := .int64) (w := length)
    (WordType.int64_has.mpr (by omega))
  obtain ⟨first, hfirst, hfirstvalue⟩ := sliceStart_gives (show 0 ≤ n.toInt by omega) start
  rw [hnvalue] at hfirstvalue
  have hlast : (min (first.saturatingAdd (max count 0)) n).toInt =
      min (first.toInt + max count.toInt 0) length.toInt := by
    rw [toInt_min, toInt_saturatingAdd, toInt_max, toInt_zero, WordType.int64_least,
      WordType.int64_greatest]
    omega
  obtain ⟨low, hlow, hlowvalue⟩ := cast_gives (u := .size) (w := first)
    (WordType.size_has.mpr (by omega))
  obtain ⟨high, hhigh, hhighvalue⟩ := cast_gives (u := .size)
    (w := min (first.saturatingAdd (max count 0)) n) (WordType.size_has.mpr (by omega))
  refine ⟨low, high, ?_, ?_, by omega, by omega, by omega⟩
  · rw [sliceBounds, hn, ok_bind, hfirst, ok_bind, hlow, ok_bind, hhigh, ok_bind]
    rfl
  · simp only [Filter.sliceBounds, toInt_toNat]
    rw [← hfirstvalue, ← hlast, ← hlowvalue, ← hhighvalue]
    rfl

theorem isPart_of_part {α : Type} {items found : List α} {low high : Word .size}
    (h : part items low high = .ok found) : IsPart items low.toNat high.toNat found := by
  have hlow := toInt_toNat low
  have hhigh := toInt_toNat high
  rw [part] at h
  split at h
  · rename_i hbounds
    cases h
    refine ⟨by omega, by omega, ?_, fun k hk => ?_⟩
    · rw [List.length_drop, List.length_take]
      omega
    · rw [List.getElem?_drop, List.getElem?_take_of_lt (by omega)]
  · cases h

/-- The bounds of a slice are in order and within the list, so that the part between them can be
taken. -/
theorem part_between_bounds {α : Type} {items : List α} (h : items.length < 2 ^ 63)
    (start count : Word .int64) :
    ∃ low high, boundsIn items start count = .ok (low, high) ∧
      Filter.sliceBounds items.length start.toInt count.toInt = (low.toNat, high.toNat) ∧
      (high.toNat - low.toNat : Int) = min (max count.toInt 0) (items.length - low.toNat) ∧
      part items low high = .ok (Filter.sliceOf items start.toInt count.toInt) := by
  obtain ⟨length, hlength, hvalue⟩ := lengthOf_gives items (by omega)
  obtain ⟨low, high, hbounds, hexact, horder, hend, hcount⟩ :=
    sliceBounds_eq (show length.toInt < 2 ^ 63 by omega) start count
  rw [toNat_eq hvalue] at hexact
  refine ⟨low, high, by rw [boundsIn, hlength, ok_bind, hbounds], hexact, ?_, ?_⟩
  · rw [toInt_toNat, toInt_toNat, hcount, hvalue]
  · simp only [part, Filter.sliceOf, hexact]
    exact if_pos ⟨horder, hvalue ▸ hend⟩

theorem sliceOf_eq {α : Type} {items : List α} (h : items.length < 2 ^ 63)
    (start count : Word .int64) :
    sliceOf items start count = .ok (Filter.sliceOf items start.toInt count.toInt) := by
  obtain ⟨low, high, hbounds, -, -, hpart⟩ := part_between_bounds h start count
  simp only [sliceOf, hbounds, ok_bind, hpart]

/-- How many elements a value has to slice: those of a list, or the characters of its text. -/
def sliceLength (v : Value) : Nat :=
  match v.canonical with
  | .list items => items.length
  | w => w.display.toList.length

theorem toInt_argument (args : List Value) (i : Nat) (w : Word .int64) :
    ((argument? args i).getD w).toInt = (Filter.intArg? args i).getD w.toInt := by
  simp only [argument?, Filter.intArg?]
  cases Filter.arg args i <;> rfl

theorem slice_eq {args : List Value} (h : sliceLength (Filter.arg args 0) < 2 ^ 63)
    (named : Bindings) : ∃ v, slice args = .ok v ∧ Filter.slice.run args named = .ok v := by
  have hstart := toInt_argument args 1 0
  have hcount := toInt_argument args 2 1
  simp only [sliceLength] at h
  simp only [slice, Filter.slice]
  cases hv : (Filter.arg args 0).canonical with
  | list items =>
    rw [hv] at h
    refine ⟨_, ?_, rfl⟩
    simp only [sliceOf_eq h, hstart, hcount, ok_bind]
    rfl
  | nil | bool | int | float | str | time | map | object =>
    rw [hv] at h
    refine ⟨_, ?_, rfl⟩
    simp only [sliceOf_eq h, hstart, hcount, ok_bind]
    rfl

/-! ### Quotients -/

def differInSign (x y : Word .int64) : Bool := decide (x.toInt < 0) != decide (y.toInt < 0)

/-- The quotient rounded down, from the one toward zero where that is given. -/
def floorDiv (x y : Word .int64) : Except Trap (Option (Word .int64)) :=
  match (x.div y).toOption with
  | none => return none
  | some q => do
    if (← x.rem y).toInt ≠ 0 ∧ differInSign x y then return (q.sub 1).toOption
    else return some q

def floorMod (x y : Word .int64) : Except Trap (Option (Word .int64)) :=
  match (x.rem y).toOption with
  | none => return none
  | some r => do
    if r.toInt ≠ 0 ∧ differInSign r y then return some (← r.add y) else return some r

theorem differInSign_ofInt64 (x y : Int64) :
    differInSign (ofInt64 x) (ofInt64 y) = Arithmetic.differInSign x y := by
  rw [Bool.eq_iff_iff, Arithmetic.differInSign_iff]
  change (decide (x.toInt < 0) != decide (y.toInt < 0)) = true ↔ _
  rw [bne_iff_ne, ne_eq, decide_eq_decide]
  omega

theorem toInt_ofInt64_ne_zero (x : Int64) : (ofInt64 x).toInt ≠ 0 ↔ x ≠ 0 := by
  have hzero : (0 : Int64).toInt = 0 := by decide
  rw [toInt_ofInt64, ne_eq, ne_eq, ← Int64.toInt_inj, hzero]

/-- Division traps exactly where it is not defined or its quotient has more than 64 bits. -/
theorem div_rem_cases (x y : Int64) :
    Arithmetic.isDivisible x y = true ∧ (ofInt64 x).div (ofInt64 y) = .ok (ofInt64 (x / y)) ∧
        (ofInt64 x).rem (ofInt64 y) = .ok (ofInt64 (x % y)) ∨
      Arithmetic.isDivisible x y = false ∧ ∃ trap, (ofInt64 x).div (ofInt64 y) = .error trap ∧
        (ofInt64 x).rem (ofInt64 y) = .error trap := by
  cases h : Arithmetic.isDivisible x y with
  | true =>
    obtain ⟨hy, -⟩ := Arithmetic.isDivisible_iff.mp h
    have hdiv : (ofInt64 x).div (ofInt64 y) = .ok (ofInt64 (x / y)) :=
      (if_neg hy).trans (ofInt_eq_ok.mpr (Arithmetic.toInt_div h))
    refine .inl ⟨rfl, hdiv, ?_⟩
    rw [rem, hdiv]
    exact ofInt_eq_ok.mpr (Int64.toInt_mod x y)
  | false =>
    refine .inr ⟨rfl, ?_⟩
    by_cases hy : y = 0
    · subst hy
      exact ⟨.zeroDivisor, rfl, rfl⟩
    · obtain ⟨rfl, rfl⟩ := Arithmetic.eq_of_not_isDivisible hy h
      exact ⟨.overflow, by decide, by decide⟩

theorem sub_one_toOption (q : Int64) :
    ((ofInt64 q).sub 1).toOption = (Arithmetic.int? (q.toInt - 1)).map ofInt64 := by
  cases h : Arithmetic.int? (q.toInt - 1) with
  | some r =>
    have hsub : (ofInt64 q).sub 1 = .ok (ofInt64 r) :=
      ofInt_eq_ok.mpr (Arithmetic.int?_eq_some.mp h)
    rw [hsub]
    rfl
  | none =>
    have hrange : ¬ WordType.int64.Has (q.toInt - 1) := by
      rw [WordType.int64_has, ← Arithmetic.inInt64_iff, ← Arithmetic.int?_isSome, h]
      exact Bool.false_ne_true
    have hsub : (ofInt64 q).sub 1 = .error .overflow := ofInt_eq_error.mpr hrange
    rw [hsub]
    rfl

theorem floorDiv_eq (x y : Int64) :
    floorDiv (ofInt64 x) (ofInt64 y) = .ok ((Arithmetic.floorDiv? x y).map ofInt64) := by
  rcases div_rem_cases x y with ⟨h, hdiv, hrem⟩ | ⟨h, trap, hdiv, -⟩
  · simp only [floorDiv, hdiv, hrem, toOption_ok, ok_bind, toInt_ofInt64_ne_zero,
      differInSign_ofInt64, Arithmetic.floorDiv?, h, if_true, sub_one_toOption]
    split <;> rfl
  · simp only [floorDiv, hdiv, toOption_error, Arithmetic.floorDiv?, h]
    rfl

/-- The correction of a remainder stays between zero and the divisor. -/
theorem floorMod_eq (x y : Int64) :
    floorMod (ofInt64 x) (ofInt64 y) = .ok ((Arithmetic.floorMod? x y).map ofInt64) := by
  rcases div_rem_cases x y with ⟨h, -, hrem⟩ | ⟨h, trap, -, hrem⟩
  · simp only [floorMod, hrem, toOption_ok, toInt_ofInt64_ne_zero, differInSign_ofInt64,
      Arithmetic.floorMod?, h, if_true]
    split
    · rename_i hsigns
      obtain ⟨hy, -⟩ := Arithmetic.isDivisible_iff.mp h
      have hdiffer := Arithmetic.differInSign_iff.mp hsigns.2
      rw [Int64.toInt_mod] at hdiffer
      have hadd : (ofInt64 (x % y)).add (ofInt64 y) = .ok (ofInt64 (x % y + y)) := by
        refine ofInt_eq_ok.mpr ?_
        rw [toInt_ofInt64, toInt_ofInt64, toInt_ofInt64, Arithmetic.toInt_mod_add hy hdiffer,
          Int64.toInt_mod]
      rw [hadd]
      rfl
    · rfl
  · simp only [floorMod, hrem, toOption_error, Arithmetic.floorMod?, h]
    rfl

end Stencil.Word
