import Mathlib
import Stencil.Proofs.Congruence

/-!
# The items of a loop

A loop finds its items by their positions. They are those of a list, also where a range is walked
that never becomes one: what is computed from the bounds, the offset and the limit is what dropping,
taking and reversing leave of all integers between the bounds, as long as it can be counted.
-/
namespace Stencil

section Restricting

variable {α β : Type} {offset limit : Option Nat} {reversed : Bool}

theorem length_restrict (items : List α) :
    (restrict offset limit reversed items).length =
      limit.elim (items.length - offset.getD 0) (min (items.length - offset.getD 0)) := by
  cases limit with
  | none => cases reversed <;> simp [restrict]
  | some n => cases reversed <;> simp [restrict, Nat.min_comm]

theorem restrict_map (f : α → β) (items : List α) :
    restrict offset limit reversed (items.map f) =
      (restrict offset limit reversed items).map f := by
  cases limit <;> cases reversed <;> simp [restrict, List.map_drop, List.map_take]

/-- Backwards, the first item is the last one that is left. -/
theorem getElem_restrict (items : List α) {i : Nat}
    (h : i < (restrict offset limit reversed items).length) :
    ∃ j, ∃ hj : j < items.length, (restrict offset limit reversed items)[i] = items[j] ∧
      j = offset.getD 0 +
        if reversed then (restrict offset limit reversed items).length - 1 - i else i := by
  cases limit <;> cases reversed <;>
    simp only [restrict, Bool.false_eq_true, if_true, if_false, List.length_reverse,
      List.length_take, List.length_drop, List.getElem_reverse, List.getElem_take,
      List.getElem_drop] at h ⊢ <;>
    exact ⟨_, by omega, rfl, by omega⟩

end Restricting

/-- The integers from the first to the last. -/
def Expr.integers (first last : Int) : List Value :=
  (Int.range first (last + 1)).map fun n => .int (.ofInt n)

theorem Expr.length_range (first last : Int) :
    (Int.range first (last + 1)).length = rangeLength first last := by
  rw [Int.range, List.length_map, List.length_range, rangeLength]
  congr 1
  omega

theorem Expr.length_integers (first last : Int) :
    (integers first last).length = rangeLength first last := by
  rw [integers, List.length_map, length_range]

theorem Expr.rangeList_eq (first last : Int) :
    Expr.rangeList first last =
      if maxRangeLength < rangeLength first last then
        .error ⟨.evaluation (.longRange first last maxRangeLength), none⟩
      else .ok (.list (integers first last)) := by
  have hlength : (last + 1 - first).toNat = rangeLength first last := by
    rw [rangeLength]
    congr 1
    omega
  simp only [rangeList, integers, Int.range, List.map_map, hlength]
  rfl

namespace LoopItems

/-- A loop with these items visits these values. -/
structure Lists (items : LoopItems) (values : List Value) : Prop where
  count : items.count = values.length
  item : ∀ i (h : i < values.length), items.item i = values[i]

theorem ofList_lists (values : List Value) : (ofList values).Lists values where
  count := by simp [ofList]
  item i h := by simp [ofList, h]

section

variable {first last : Int} {offset limit : Option Nat} {reversed : Bool}

theorem count_ofRange :
    (ofRange first last offset limit reversed).count =
      min (restrict offset limit reversed (Int.range first (last + 1))).length maxCount := by
  rw [length_restrict, Expr.length_range, Expr.rangeLength]
  cases limit <;> simp only [ofRange, Option.elim] <;> omega

/-- A range is walked as the list of its integers would be. -/
theorem ofRange_lists
    (h : (restrict offset limit reversed (Int.range first (last + 1))).length ≤ maxCount) :
    (ofRange first last offset limit reversed).Lists
      (restrict offset limit reversed (Expr.integers first last)) := by
  rw [Expr.integers, restrict_map]
  refine ⟨by rw [count_ofRange, List.length_map, Nat.min_eq_left h], fun i hi => ?_⟩
  rw [List.length_map] at hi
  obtain ⟨j, hj, hget, hposition⟩ := getElem_restrict (Int.range first (last + 1)) hi
  have hleft : (restrict offset limit reversed (Int.range first (last + 1))).length = _ :=
    length_restrict _
  rw [List.getElem_map, hget]
  simp only [Int.range, List.getElem_map, List.getElem_range, ofRange, Value.int.injEq]
  rw [Expr.length_range, Expr.rangeLength] at hj hleft
  congr 1
  cases limit <;> cases reversed <;>
    simp only [Option.elim, Bool.false_eq_true, if_true, if_false] at hleft hposition ⊢ <;> omega

end

end LoopItems

namespace Render

variable {α β γ : Type}

theorem iterate_congr {name : String} {items others : LoopItems} {body : Render Signal}
    (hcount : others.count = items.count) {index left : Nat}
    (hitem : ∀ i < index + left, others.item i = items.item i) :
    iterate name others body index left = iterate name items body index left := by
  induction left generalizing index with
  | zero => rfl
  | succ left ih =>
    have hrest : ∀ i < index + 1 + left, others.item i = items.item i := fun i hi =>
      hitem i (by omega)
    simp only [iterate, hcount, hitem index (by omega), ih hrest]

/-- What a loop does depends on the values that it visits, however it finds them. -/
theorem iterate_of_lists (name : String) (body : Render Signal) {items others : LoopItems}
    {values : List Value} (h : items.Lists values) (ho : others.Lists values) :
    iterate name others body 0 others.count = iterate name items body 0 items.count := by
  have hcount : others.count = items.count := ho.count.trans h.count.symm
  rw [hcount]
  refine iterate_congr hcount fun i hi => ?_
  have hlength : i < values.length := by
    rw [h.count] at hi
    omega
  rw [h.item i hlength, ho.item i hlength]

/-- The values that a loop visits, as a list. The modifiers are evaluated before the source, and
each of them once. -/
def loopValues (engine : Engine) (source : Expr) (m : LoopModifiers) : Render (List Value) := do
  let offset ← modifier? engine m.offset
  let limit ← modifier? engine m.limit
  match source with
  | .range first last => do
    let a ← liftExcept (Expr.toInt (← eval engine first))
    let b ← liftExcept (Expr.toInt (← eval engine last))
    return restrict offset limit m.reversed (Expr.integers a b)
  | source => do
    let v ← eval engine source
    return restrict offset limit m.reversed v.loopItems

/-- Two steps that leave the state alone and fail with the same errors, or have related results. -/
def Beside (P : α → β → Prop) (x : Render α) (y : Render β) : Prop :=
  ∀ s, (∃ e, x s = (.error e, s) ∧ y s = (.error e, s)) ∨
    ∃ a b, x s = (.ok a, s) ∧ y s = (.ok b, s) ∧ P a b

namespace Beside

variable {P : α → β → Prop}

theorem ret {a : α} {b : β} (h : P a b) : Beside P (pure a) (pure b) := fun _ =>
  .inr ⟨a, b, rfl, rfl, h⟩

theorem seq {x : Render γ} {f : γ → Render α} {g : γ → Render β} (hx : Leaves id x)
    (h : ∀ c, Beside P (f c) (g c)) : Beside P (x >>= f) (x >>= g) := by
  intro s
  have hs : (x s).2 = s := hx s
  rcases hr : x s with ⟨e | c, t⟩
  · obtain rfl : t = s := by rwa [hr] at hs
    exact .inl ⟨e, bind_of_error hr f, bind_of_error hr g⟩
  · obtain rfl : t = s := by rwa [hr] at hs
    rw [bind_of_ok hr, bind_of_ok hr]
    exact h c t

end Beside

theorem modifier?_leaves (engine : Engine) (e : Option Expr) : Leaves id (modifier? engine e) :=
  (Leaves.evaluation id engine).modifier fun _ _ => trivial

/-- The loop finds the values of the list, where they can be counted. -/
theorem loopItems_beside (engine : Engine) (source : Expr) (m : LoopModifiers) :
    Beside (fun items values => values.length ≤ LoopItems.maxCount → items.Lists values)
      (loopItems engine source m) (loopValues engine source m) := by
  refine .seq (modifier?_leaves engine _) fun offset => ?_
  refine .seq (modifier?_leaves engine _) fun limit => ?_
  cases source with
  | range first last =>
    refine .seq (fun _ => rfl) fun _ => .seq (fun _ => rfl) fun a => ?_
    refine .seq (fun _ => rfl) fun _ => .seq (fun _ => rfl) fun b => .ret fun hlength => ?_
    refine LoopItems.ofRange_lists ?_
    rwa [Expr.integers, restrict_map, List.length_map] at hlength
  | literal | empty | «variable» | property | index | not | binary | filtered =>
    exact .seq (fun _ => rfl) fun v => .ret fun _ => LoopItems.ofList_lists _

end Render

end Stencil
