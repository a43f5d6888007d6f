import Stencil.Shape.Convert
import Stencil.Value.Order

/-!
# Objects and their hooks

Truth, output and JSON follow the hooks of an object to the end, so an object shows what its hook
shows. Order, emptiness, length, membership and conversion look at the first hook only: there an
object counts as its hook unless that is an object with a hook again. Equality takes an object for
its hook or for itself. The keys of a map are the one place where no hook is looked at.
-/
namespace Stencil

namespace Value

/-- What tells one object from another. -/
def identity? : Value → Option Nat
  | .object id _ _ _ => some id
  | _ => none

@[simp] theorem canonical_object (id : Nat) (name : String) (fields : Bindings) (v : Value) :
    canonical (.object id name fields (some v)) = v := rfl

/-- Whether a value is an object with a hook. -/
def isHooked : Value → Bool
  | .object _ _ _ (some _) => true
  | _ => false

/-- A hook is smaller than its object, so never the object itself. -/
theorem canonical_eq_self_iff {v : Value} : v.canonical = v ↔ v.isHooked = false := by
  cases v with
  | object id name fields hook =>
    cases hook with
    | none => simp [canonical, isHooked]
    | some w =>
      have hne : w ≠ .object id name fields (some w) := by
        intro h
        have hsize := congrArg sizeOf h
        simp only [object.sizeOf_spec, Option.some.sizeOf_spec] at hsize
        omega
      simp [canonical, isHooked, hne]
  | nil | bool | int | float | str | time | list | map => simp [canonical, isHooked]

theorem canonical_of_not_object {v : Value} (h : v.isObject = false) : v.canonical = v := by
  cases v with
  | object => cases h
  | nil | bool | int | float | str | time | list | map => rfl

section

variable {a b : Value} (h : a.canonical = b.canonical)
include h

theorem less_congr_left (w : Value) : a.less w = b.less w := by simp only [less, h]

theorem less_congr_right (w : Value) : w.less a = w.less b := by simp only [less, h]

theorem isEmpty_congr : a.isEmpty = b.isEmpty := by simp only [isEmpty, h]

theorem length_congr : a.length = b.length := by simp only [length, h]

theorem contains_congr_left (w : Value) : a.contains w = b.contains w := by
  simp only [contains, h]

theorem convert_congr (s : Shape) : s.convert a = s.convert b := by
  cases s with
  | any | bool | int | float | number | string | time | list | map | record | optional =>
    simp only [Shape.convert, h]

end

section

variable {id : Nat} {name : String} {fields : Bindings} {v : Value}

theorem same_object_of_not_object {w : Value} (hw : w.isObject = false) :
    same (.object id name fields (some v)) w = same v w := by
  cases w with
  | object => cases hw
  | nil | bool | int | float | str | time | list | map => simp only [same]

/-- An object whose hook is no object equals what its hook equals, and itself. -/
theorem same_object (hv : v.isObject = false) (w : Value) :
    same (.object id name fields (some v)) w = (w.identity? = some id || same v w) := by
  cases w with
  | object other kind own hook =>
    cases v with
    | object => cases hv
    | nil | bool | int | float | str | time | list | map =>
      cases hook <;> simp [same, resolve, identity?, isNil, eq_comm]
  | nil | bool | int | float | str | time | list | map =>
    rw [same_object_of_not_object rfl]
    rfl

theorem same_right_object (hv : v.isObject = false) (w : Value) :
    same w (.object id name fields (some v)) = (w.identity? = some id || same w v) := by
  cases w with
  | object other kind own hook =>
    cases v with
    | object => cases hv
    | nil | bool | int | float | str | time | list | map =>
      cases hook <;> simp [same, identity?]
  | nil | bool | int | float | str | time | list | map =>
    cases v with
    | object => cases hv
    | nil | bool | int | float | str | time | list | map => simp [same, resolve, identity?]

theorem any_same_object (hv : v.isObject = false) (items : List Value) :
    items.any (same · (.object id name fields (some v))) =
      (items.any (·.identity? = some id) || items.any (same · v)) := by
  simp only [same_right_object hv]
  rw [Bool.eq_iff_iff]
  simp only [List.any_eq_true, Bool.or_eq_true, and_or_left, exists_or]

/-- In a list an object is found as its hook and as itself, in a text as its hook, and in a map not
at all. -/
theorem contains_right_object (hv : v.isObject = false) (w : Value) :
    contains w (.object id name fields (some v)) = match w.canonical with
      | .list items => items.any (·.identity? = some id) || contains w v
      | .map _ => false
      | _ => contains w v := by
  simp only [contains, canonical_object, canonical_of_not_object hv]
  cases w.canonical with
  | list items => exact any_same_object hv items
  | nil | bool | int | float | str | time | map | object => rfl

/-- An object with a hook that has a hook itself is ordered with nothing, and is neither empty nor
long. -/
theorem less_object_of_object (hv : v.canonical ≠ v) :
    let o : Value := .object id name fields (some v)
    o.isEmpty = false ∧ o.length = 0 ∧
      ∀ w, o.less w = false ∧ w.less o = false ∧ o.contains w = false := by
  cases v with
  | object other kind own hook =>
    refine ⟨rfl, rfl, fun w => ⟨rfl, ?_, rfl⟩⟩
    simp only [less, canonical_object]
    split <;> simp_all
  | nil | bool | int | float | str | time | list | map => exact absurd rfl hv

end

/-- How far an object and its hook are interchangeable. -/
theorem object_stands_for_hook (id : Nat) (name : String) (fields : Bindings) (v : Value) :
    let o : Value := .object id name fields (some v)
    (o.isTruthy = v.isTruthy ∧ o.display = v.display ∧ o.toJson = v.toJson ∧
      ∀ w, w.isObject = false → o.same w = v.same w) ∧
    (v.canonical = v → o.isEmpty = v.isEmpty ∧ o.length = v.length ∧
      ∀ w, o.less w = v.less w ∧ w.less o = w.less v ∧ o.contains w = v.contains w ∧
        ∀ s : Shape, s.convert o = s.convert v) ∧
    (v.canonical ≠ v → o.isEmpty = false ∧ o.length = 0 ∧
      ∀ w, o.less w = false ∧ w.less o = false ∧ o.contains w = false) ∧
    (v.isObject = false → ∀ w, o.same w = (w.identity? = some id || v.same w) ∧
      w.contains o = match w.canonical with
        | .list items => items.any (·.identity? = some id) || w.contains v
        | .map _ => false
        | _ => w.contains v) := by
  intro o
  refine ⟨⟨rfl, rfl, rfl, fun w hw => same_object_of_not_object hw⟩, fun hv => ?_,
    less_object_of_object, fun hv w => ⟨same_object hv w, contains_right_object hv w⟩⟩
  have ho : o.canonical = v.canonical := hv.symm
  exact ⟨isEmpty_congr ho, length_congr ho, fun w => ⟨less_congr_left ho w, less_congr_right ho w,
    contains_congr_left ho w, convert_congr ho⟩⟩

/-- An object with a number for a hook is less than a greater number, and is found in a list of
numbers. -/
theorem object_stands_for_number :
    let o : Value := .object 1 "object" [] (some (.int 2))
    (Value.int 2).canonical = .int 2 ∧ (Value.int 2).isObject = false ∧
      o.less (.int 3) = true ∧ Value.contains (.list [.int 2]) o = true := by
  intro o
  have h := object_stands_for_hook 1 "object" [] (.int 2)
  have hless : o.less (.int 3) = (Value.int 2).less (.int 3) := ((h.2.1 rfl).2.2 (.int 3)).1
  have hcontains := (h.2.2.2 rfl (.list [.int 2])).2
  refine ⟨rfl, rfl, ?_, ?_⟩
  · rw [hless]
    decide
  · rw [hcontains]
    decide

/-- A map has the text under which it holds an entry, and not the object that has this text for a
hook. An object that has a number for a hook is less than a greater number, and an object that has
this object for a hook is not. -/
theorem hook_neither_key_nor_followed :
    let entries : Value := .map [("k", .int 1)]
    let key : Value := .object 1 "object" [] (some (.str "k"))
    let one : Value := .object 2 "object" [] (some (.int 1))
    let outer : Value := .object 3 "object" [] (some one)
    (entries.contains (.str "k") = true ∧ entries.contains key = false) ∧
      one.less (.int 2) = true ∧ outer.less (.int 2) = false := by
  decide

end Value

end Stencil
