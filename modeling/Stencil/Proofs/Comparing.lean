import Mathlib
import Stencil.Proofs.Ordering
import Stencil.Proofs.StandIns

/-!
# Order and equality

Equality is symmetric, through lists, maps and hooks. Nothing is less than a value it equals; and
two booleans, two texts, two times or two numbers are equal or one of them is less, also where an
integer is compared with a float.
-/
namespace Stencil

theorem Time.Moment.sameInstant_iff (t u : Time.Moment) :
    t.sameInstant u = true ↔
      toLex (t.day, toLex (t.second, t.nano)) = toLex (u.day, toLex (u.second, u.nano)) := by
  simp [sameInstant, and_assoc]

namespace Value

/-- The hooks of an object end in a value that is no object or in an object without one. -/
theorem resolve_cases : ∀ v : Value, v.resolve.isObject = false ∨
    ∃ id name fields, v.resolve = .object id name fields none
  | .object id name fields none => .inr ⟨id, name, fields, rfl⟩
  | .object _ _ _ (some v) => resolve_cases v
  | .nil | .bool _ | .int _ | .float _ | .str _ | .time _ | .list _ | .map _ => .inl rfl

theorem resolve_resolve : ∀ v : Value, v.resolve.resolve = v.resolve
  | .object _ _ _ none => rfl
  | .object _ _ _ (some v) => resolve_resolve v
  | .nil | .bool _ | .int _ | .float _ | .str _ | .time _ | .list _ | .map _ => rfl

section

variable {v : Value} (hv : v.isObject = false)
include hv

theorem same_resolve_right (w : Value) : same v w = same v w.resolve := by
  cases v with
  | object => cases hv
  | nil | bool | int | float | str | time | list | map => simp only [same, resolve_resolve]

theorem same_resolve_left : ∀ w : Value, same w v = same w.resolve v
  | .object _ _ _ none => rfl
  | .object _ _ _ (some w) => by
    rw [same_object_of_not_object hv]
    exact same_resolve_left w
  | .nil | .bool _ | .int _ | .float _ | .str _ | .time _ | .list _ | .map _ => rfl

/-- A value that is no object is compared with what the hooks of another one lead to. -/
theorem same_comm_of_plain (h : ∀ w, w.isObject = false → same v w = same w v) (w : Value) :
    same v w = same w v := by
  rw [same_resolve_right hv, same_resolve_left hv]
  rcases resolve_cases w with hw | ⟨id, name, fields, hw⟩
  · exact h _ hw
  · rw [hw]
    cases v with
    | object => cases hv
    | nil | bool | int | float | str | time | list | map => rfl

end

-- The recursion is on the left value, as that of the comparison is.
mutual

theorem same_comm : ∀ v w : Value, same v w = same w v
  | .nil, w => same_comm_of_plain rfl (fun u hu => by
      cases u with
      | object => cases hu
      | nil | bool | int | float | str | time | list | map => rfl) w
  | .bool a, w => same_comm_of_plain rfl (fun u hu => by
      cases u with
      | object => cases hu
      | bool b => simp only [same, resolve, eq_comm]
      | nil | int | float | str | time | list | map => rfl) w
  | .int a, w => same_comm_of_plain rfl (fun u hu => by
      cases u with
      | object => cases hu
      | int b => simp only [same, resolve, eq_comm]
      | nil | bool | float | str | time | list | map => rfl) w
  | .float a, w => same_comm_of_plain rfl (fun u hu => by
      cases u with
      | object => cases hu
      | float b => exact Decimal.beq_comm a b
      | nil | bool | int | str | time | list | map => rfl) w
  | .str a, w => same_comm_of_plain rfl (fun u hu => by
      cases u with
      | object => cases hu
      | str b => simp only [same, resolve, eq_comm]
      | nil | bool | int | float | time | list | map => rfl) w
  | .time a, w => same_comm_of_plain rfl (fun u hu => by
      cases u with
      | object => cases hu
      | time b =>
        change a.sameInstant b = b.sameInstant a
        rw [Bool.eq_iff_iff, Time.Moment.sameInstant_iff, Time.Moment.sameInstant_iff, eq_comm]
      | nil | bool | int | float | str | list | map => rfl) w
  | .list a, w => same_comm_of_plain rfl (fun u hu => by
      cases u with
      | object => cases hu
      | list b => exact sameItems_comm a b
      | nil | bool | int | float | str | time | map => rfl) w
  | .map a, w => same_comm_of_plain rfl (fun u hu => by
      cases u with
      | object => cases hu
      | map b => exact sameEntries_comm a b
      | nil | bool | int | float | str | time | list => rfl) w
  | .object i _ _ (some v), w => by
    cases w with
    | object j kind own hook =>
      cases hook with
      | none => simp only [same, eq_comm]
      | some w => simp only [same, same_comm v w, eq_comm]
    | nil | bool | int | float | str | time | list | map =>
      rw [same_object_of_not_object rfl, same_comm v]
      simp only [same, resolve]
  | .object i _ _ none, w => by
    cases w with
    | object j kind own hook => cases hook <;> simp only [same, eq_comm]
    | nil | bool | int | float | str | time | list | map => rfl

theorem sameItems_comm : ∀ vs ws : List Value, sameItems vs ws = sameItems ws vs
  | [], [] => rfl
  | [], _ :: _ => rfl
  | _ :: _, [] => rfl
  | v :: vs, w :: ws => by simp only [sameItems, same_comm v w, sameItems_comm vs ws]

theorem sameEntries_comm : ∀ vs ws : List (String × Value), sameEntries vs ws = sameEntries ws vs
  | [], [] => rfl
  | [], _ :: _ => rfl
  | _ :: _, [] => rfl
  | (k, v) :: vs, (l, w) :: ws => by
    simp only [sameEntries, same_comm v w, sameEntries_comm vs ws, @eq_comm _ k]

end

inductive IsNumber : Value → Prop
  | int (n : Int64) : IsNumber (.int n)
  | float {x : Float} (h : x.isNaN = false) : IsNumber (.float x)

/-- The pairs of values of which one is less unless they are equal. -/
inductive Comparable : Value → Value → Prop
  | bools (x y : Bool) : Comparable (.bool x) (.bool y)
  | numbers {v w : Value} (hv : v.IsNumber) (hw : w.IsNumber) : Comparable v w
  | strs (s t : String) : Comparable (.str s) (.str t)
  | times (t u : Time.Moment) : Comparable (.time t) (.time u)

namespace Comparable

variable {v w : Value}

/-- Of two things that stand at places of a linear order one is before the other or they are at one
place, and only one of these. -/
theorem count_of_places {ι : Type} [LinearOrder ι] {i j : ι} {p q r : Bool} (hp : p = true ↔ i < j)
    (hq : q = true ↔ j < i) (hr : r = true ↔ i = j) : [p, q, r].count true = 1 := by
  have hless : p = decide (i < j) := by rw [Bool.eq_iff_iff, hp, decide_eq_true_iff]
  have hgreater : q = decide (j < i) := by rw [Bool.eq_iff_iff, hq, decide_eq_true_iff]
  have hequal : r = decide (i = j) := by rw [Bool.eq_iff_iff, hr, decide_eq_true_iff]
  rcases lt_trichotomy i j with h | h | h
  · simp [hless, hgreater, hequal, h, h.not_gt, h.ne]
  · simp [hless, hgreater, hequal, h]
  · simp [hless, hgreater, hequal, h, h.not_gt, h.ne']

theorem count_of_floats {x y : Float} {p q r : Bool} (hx : x.isNaN = false) (hy : y.isNaN = false)
    (hp : p = decide (x < y)) (hq : q = decide (y < x)) (hr : r = (x == y)) :
    [p, q, r].count true = 1 := by
  obtain ⟨a, ha⟩ := Decimal.exists_rank_iff.mpr hx
  obtain ⟨b, hb⟩ := Decimal.exists_rank_iff.mpr hy
  refine count_of_places (i := a) (j := b) ?_ ?_ ?_
  · simp [hp, Decimal.lt_iff_rank, ha, hb]
  · simp [hq, Decimal.lt_iff_rank, ha, hb]
  · simp [hr, Decimal.beq_iff_rank, ha, hb]

/-- Integers are compared exactly, and with floats by their nearest floats. -/
theorem count_of_numbers (hv : v.IsNumber) (hw : w.IsNumber) :
    [less v w, less w v, same v w].count true = 1 := by
  have hint (n : Int64) : (Decimal.ofInt64 n).isNaN = false :=
    Decimal.exists_rank_iff.mp ⟨_, Decimal.rank_ofInt64 n⟩
  cases hv with
  | int m =>
    cases hw with
    | int n =>
      refine count_of_places (i := m.toInt) (j := n.toInt) ?_ ?_ ?_
      · simp [less, canonical, Int64.lt_iff_toInt_lt]
      · simp [less, canonical, Int64.lt_iff_toInt_lt]
      · simp [same, resolve, Int64.toInt_inj]
    | float hy => exact count_of_floats (hint m) hy rfl rfl rfl
  | float hx =>
    cases hw with
    | int n => exact count_of_floats hx (hint n) rfl rfl (Decimal.beq_comm _ _)
    | float hy => exact count_of_floats hx hy rfl rfl rfl

theorem count (h : Comparable v w) : [less v w, less w v, same v w].count true = 1 := by
  cases h with
  | bools x y => cases x <;> cases y <;> rfl
  | numbers hv hw => exact count_of_numbers hv hw
  | strs s t =>
    refine count_of_places (i := s) (j := t) ?_ ?_ ?_
    · simp [less, canonical]
    · simp [less, canonical]
    · simp [same, resolve]
  | times t u =>
    exact count_of_places (Time.Moment.before_iff t u) (Time.Moment.before_iff u t)
      (Time.Moment.sameInstant_iff t u)

theorem plain (h : Comparable v w) : v.isObject = false ∧ w.isObject = false := by
  cases h with
  | numbers hv hw => exact ⟨by cases hv <;> rfl, by cases hw <;> rfl⟩
  | bools | strs | times => exact ⟨rfl, rfl⟩

end Comparable

/-- What is ordered can be compared. -/
theorem Precedes.comparable {v w : Value} (h : Precedes v w) : Comparable v w := by
  cases h with
  | bools => exact .bools _ _
  | ints => exact .numbers (.int _) (.int _)
  | intFloat h => exact .numbers (.int _) (.float (Decimal.isNaN_of_lt h).2)
  | floatInt h => exact .numbers (.float (Decimal.isNaN_of_lt h).1) (.int _)
  | floats h =>
    exact .numbers (.float (Decimal.isNaN_of_lt h).1) (.float (Decimal.isNaN_of_lt h).2)
  | strs => exact .strs _ _
  | times => exact .times _ _

/-- An identity is that of one object, so that values which share it share a hook. -/
def Coherent (a b : Value) : Prop :=
  ∀ id, a.identity? = some id → b.identity? = some id → a.canonical = b.canonical

section

variable {a b : Value}

theorem same_of_identity {id : Nat} (ha : a.identity? = some id) (hb : b.identity? = some id) :
    same a b = true := by
  cases a with
  | object i _ _ hook =>
    cases b with
    | object j _ _ other =>
      cases ha
      cases hb
      cases hook <;> cases other <;> simp [same]
    | nil | bool | int | float | str | time | list | map => cases hb
  | nil | bool | int | float | str | time | list | map => cases ha

theorem same_canonical_left (ha : a.canonical.isObject = false)
    (h : ∀ id, a.identity? = some id → b.identity? ≠ some id) : same a b = same a.canonical b := by
  cases a with
  | object i name fields hook =>
    cases hook with
    | none => cases ha
    | some v =>
      have hv : v.isObject = false := ha
      rw [same_object hv, canonical_object, decide_eq_false (h i rfl), Bool.false_or]
  | nil | bool | int | float | str | time | list | map => rfl

/-- Values that are not one object are equal where what stands for them is. -/
theorem same_canonical (ha : a.canonical.isObject = false) (hb : b.canonical.isObject = false)
    (h : ∀ id, a.identity? = some id → b.identity? ≠ some id) :
    same a b = same a.canonical b.canonical := by
  have hplain (id : Nat) (hid : b.identity? = some id) : a.canonical.identity? ≠ some id := by
    cases hv : a.canonical with
    | object => rw [hv] at ha; cases ha
    | nil | bool | int | float | str | time | list | map => simp [identity?]
  rw [same_canonical_left ha h, same_comm, same_canonical_left hb hplain, same_comm]

theorem count_of_coherent (h : Coherent a b) (hcomparable : Comparable a.canonical b.canonical) :
    [less a b, less b a, same a b].count true = 1 := by
  obtain ⟨ha, hb⟩ := hcomparable.plain
  by_cases hid : ∃ id, a.identity? = some id ∧ b.identity? = some id
  · -- one object is equal to itself and is not less than itself
    obtain ⟨id, hia, hib⟩ := hid
    have hcanonical := h id hia hib
    have hless : less a b = false := by
      rw [less_congr_left hcanonical]
      exact less_isStrict.irrefl b
    have hgreater : less b a = false := by
      rw [less_congr_right hcanonical]
      exact less_isStrict.irrefl b
    rw [hless, hgreater, same_of_identity hia hib]
    rfl
  · have hdistinct (id : Nat) (hia : a.identity? = some id) : b.identity? ≠ some id := fun hib =>
      hid ⟨id, hia, hib⟩
    have hca : a.canonical = a.canonical.canonical := (canonical_of_not_object ha).symm
    have hcb : b.canonical = b.canonical.canonical := (canonical_of_not_object hb).symm
    rw [same_canonical ha hb hdistinct, less_congr_left hca, less_congr_right hcb,
      less_congr_left hcb, less_congr_right hca]
    exact hcomparable.count

theorem same_of_less (h : Coherent a b) (hless : less a b = true) : same a b = false := by
  have hcount := count_of_coherent h ((less_iff a b).mp hless).comparable
  rw [hless] at hcount
  cases hsame : same a b with
  | false => rfl
  | true => cases hgreater : less b a <;> simp [hsame, hgreater] at hcount

end

/-- The order is strict and holds of no equal values, equality is symmetric, and of two booleans,
texts, times or numbers, or objects that stand for such, one is less or they are equal, and only
one of these. -/
theorem less_same_coherent :
    (∀ a, less a a = false) ∧
    (∀ a b, less a b = true → less b a = false) ∧
    (∀ a b c, less a b = true → less b c = true → less a c = true) ∧
    (∀ a b, same a b = same b a) ∧
    (∀ a b, Coherent a b → less a b = true → same a b = false) ∧
    (∀ a b, Comparable a b → [less a b, less b a, same a b].count true = 1) ∧
    ∀ a b, Coherent a b → Comparable a.canonical b.canonical →
      [less a b, less b a, same a b].count true = 1 :=
  ⟨less_isStrict.irrefl, fun _ _ => less_isStrict.asymm, fun _ _ _ => less_isStrict.trans,
    same_comm, fun _ _ => same_of_less, fun _ _ => Comparable.count, fun _ _ => count_of_coherent⟩

/-- The float nearest to `2 ^ 53 + 1` is `2 ^ 53`. So this integer equals the float, and its
predecessor, which equals the float too, is less than it. -/
theorem less_same_coherent_rounding :
    let exact : Value := .int 9007199254740993
    let lower : Value := .object 1 "object" [] (some (.int 9007199254740992))
    let rounded : Value := .float 9007199254740992
    Coherent lower exact ∧ Comparable lower.canonical exact.canonical ∧
      less lower exact = true ∧ same lower exact = false ∧
      [less lower exact, less exact lower, same lower exact].count true = 1 ∧
      same exact rounded = true ∧ same rounded lower = true ∧ less rounded exact = false := by
  intro exact lower rounded
  obtain ⟨-, -, -, hcomm, hnot, hplain, hboth⟩ := less_same_coherent
  have hcoherent : Coherent lower exact := by
    rintro id - ⟨⟩
  have hcomparable : Comparable lower.canonical exact.canonical := .numbers (.int _) (.int _)
  have hless : less lower exact = true := by decide
  have hequal : same exact rounded = true := by decide
  refine ⟨hcoherent, hcomparable, hless, hnot lower exact hcoherent hless,
    hboth lower exact hcoherent hcomparable, hequal, ?_, ?_⟩
  · rw [hcomm]
    decide
  · have hcount := hplain exact rounded (.numbers (.int _) (.float (by decide)))
    cases h : less rounded exact with
    | false => rfl
    | true => cases hg : less exact rounded <;> simp [hequal, h, hg] at hcount

end Value
end Stencil
