import Mathlib
import Stencil.Proofs.Ordering

/-!
# Sorting again

A tie can keep two elements apart that are ordered, so that a sorted list need not stay as it is
when it is sorted again. It stays if, at any width of the runs, no second run of a pair starts with
an element that precedes one of the first. Otherwise it becomes lexicographically smaller, so that
sorting again and again comes to an end.
-/
namespace Stencil

namespace Sorting

variable {α : Type} {before : α → α → Bool}

/-- At the first position at which the lists differ, the first has an element that precedes that of
the second. -/
def Smaller (before : α → α → Bool) : List α → List α → Prop := List.Lex (before · · = true)

/-- Equal or smaller. -/
def NotAfter (before : α → α → Bool) (first second : List α) : Prop :=
  first = second ∨ Smaller before first second

theorem Smaller.trans (strict : IsStrict before) {first second third : List α}
    (h : Smaller before first second) (h' : Smaller before second third) :
    Smaller before first third :=
  List.lex_trans strict.trans h h'

theorem Smaller.irrefl (strict : IsStrict before) (items : List α) : ¬ Smaller before items items :=
  List.lex_irrefl (fun a => by simp [strict.irrefl a]) items

theorem NotAfter.trans (strict : IsStrict before) {first second third : List α}
    (h : NotAfter before first second) (h' : NotAfter before second third) :
    NotAfter before first third := by
  rcases h with rfl | h
  · exact h'
  · rcases h' with rfl | h'
    · exact .inr h
    · exact .inr (h.trans strict h')

theorem NotAfter.antisymm (strict : IsStrict before) {first second : List α}
    (h : NotAfter before first second) (h' : NotAfter before second first) : first = second := by
  rcases h with h | h
  · exact h
  · rcases h' with h' | h'
    · exact h'.symm
    · exact absurd (h.trans strict h') (Smaller.irrefl strict first)

theorem Smaller.append {s s' : List α} (h : Smaller before s s')
    (hlength : s.length = s'.length) (t t' : List α) : Smaller before (s ++ t) (s' ++ t') := by
  induction h with
  | nil => simp at hlength
  | cons h ih => exact .cons (ih (by simpa using hlength))
  | rel h => exact .rel h

theorem NotAfter.append {s s' t t' : List α} (h : NotAfter before s s')
    (h' : NotAfter before t t') (hlength : s.length = s'.length) :
    NotAfter before (s ++ t) (s' ++ t') := by
  rcases h with rfl | h
  · exact h'.imp (congrArg (s ++ ·)) fun h' => List.Lex.append_left _ h' s
  · exact .inr (h.append hlength t t')

theorem merge_notAfter (left right : List α) :
    NotAfter before (merge before left right) (left ++ right) := by
  fun_induction merge before left right with
  | case1 right => exact .inl rfl
  | case2 left hne => exact .inl (List.append_nil left).symm
  | case3 a left b right h ih => exact .inr (.rel h)
  | case4 a left b right h ih => exact ih.imp (congrArg (a :: ·)) .cons

/-- Two runs are put together exactly if the right one does not start with an element that
precedes one of the left run. -/
theorem merge_eq_append_iff (strict : IsStrict before) (left right : List α) :
    merge before left right = left ++ right ↔
      ∀ y ∈ right.head?, ∀ x ∈ left, before y x = false := by
  fun_induction merge before left right with
  | case1 right => simp
  | case2 left hne => simp
  | case3 a left b right h ih =>
    constructor
    · intro heq
      obtain rfl : b = a := (List.cons.inj heq).1
      rw [strict.irrefl] at h
      exact absurd h (by simp)
    · intro hall
      exact absurd h (by simp [hall b rfl a (List.mem_cons_self ..)])
  | case4 a left b right h ih =>
    have h : before b a = false := by simpa using h
    simpa [h] using ih

theorem mergePairs_notAfter (runs : List (List α)) :
    NotAfter before (mergePairs before runs).flatten runs.flatten := by
  induction runs using mergePairs.induct with
  | case1 a b runs ih =>
    rw [mergePairs, List.flatten_cons, List.flatten_cons, List.flatten_cons, ← List.append_assoc]
    exact (merge_notAfter a b).append ih (merge_perm a b).length_eq
  | case2 runs hfew => rw [mergePairs]; exacts [.inl rfl, hfew]

theorem mergeAll_notAfter (strict : IsStrict before) (runs : List (List α)) :
    NotAfter before (mergeAll before runs) runs.flatten := by
  induction runs using mergeAll.induct before with
  | case1 => exact .inl (by simp [mergeAll])
  | case2 run => exact .inl (by simp [mergeAll])
  | case3 a b runs ih =>
    rw [mergeAll]
    exact ih.trans strict (mergePairs_notAfter _)

/-- Sorting never makes a list lexicographically greater. -/
theorem sortBy_notAfter (strict : IsStrict before) (items : List α) :
    NotAfter before (sortBy before items) items := by
  have hruns := mergeAll_notAfter strict (items.map ([·]))
  rwa [flatten_singles] at hruns

/-- Sorting again and again ends with a list that stays as it is. -/
theorem exists_iterate_sortBy_fixed (strict : IsStrict before) (items : List α) :
    ∃ n, sortBy before ((sortBy before)^[n] items) = (sortBy before)^[n] items := by
  have hfinite : {ys : List α | ys.Perm items}.Finite :=
    (List.finite_toSet items.permutations).subset fun ys h => List.mem_permutations.mpr h
  have hstrict : IsStrictOrder (List α) (Smaller before) :=
    { irrefl := Smaller.irrefl strict, trans := fun _ _ _ => Smaller.trans strict }
  -- there are finitely many arrangements, and each pass that changes one makes it smaller
  refine (hfinite.wellFoundedOn (r := Smaller before)).induction
    (P := fun ys => ∃ n, sortBy before ((sortBy before)^[n] ys) = (sortBy before)^[n] ys)
    (List.Perm.refl items) ?_
  intro ys hys ih
  rcases sortBy_notAfter strict ys with hfixed | hsmaller
  · exact ⟨0, hfixed⟩
  · obtain ⟨n, hn⟩ := ih _ ((sortBy_perm ys).trans hys) hsmaller
    exact ⟨n + 1, hn⟩

/-- Runs of one width, the last of which may be shorter. -/
inductive Chunked (w : Nat) : List (List α) → Prop
  | nil : Chunked w []
  | last {run : List α} (h : run.length ≤ w) : Chunked w [run]
  | cons {run : List α} {runs : List (List α)} (h : run.length = w) (rest : Chunked w runs) :
    Chunked w (run :: runs)

theorem Chunked.length_le {w : Nat} {run : List α} (h : Chunked w [run]) : run.length ≤ w := by
  cases h with
  | last h => exact h
  | cons h _ => exact h.le

theorem Chunked.of_singles (items : List α) : Chunked 1 (items.map ([·])) := by
  induction items with
  | nil => exact .nil
  | cons a items ih => exact .cons rfl ih

theorem Chunked.mergePairs {w : Nat} {runs : List (List α)} (h : Chunked w runs) :
    Chunked (2 * w) (mergePairs before runs) := by
  have hlength (a b : List α) : (merge before a b).length = a.length + b.length := by
    rw [(merge_perm a b).length_eq, List.length_append]
  induction runs using mergePairs.induct with
  | case1 a b runs ih =>
    rw [Sorting.mergePairs]
    cases h with
    | cons ha h =>
    cases h with
    | last hb => exact .last (by rw [hlength]; omega)
    | cons hb h => exact .cons (by rw [hlength]; omega) (ih h)
  | case2 runs hfew =>
    obtain rfl | ⟨run, rfl⟩ := few_runs hfew
    · exact .nil
    · exact .last (h.length_le.trans (by omega))

/-- In runs of width `w`, the second, the fourth, … start with an element that precedes none of the
run before. -/
def Undisturbed (before : α → α → Bool) (w : Nat) (items : List α) : Prop :=
  ∀ p i, p % (2 * w) = w → i < p → p ≤ i + w →
    ∀ y ∈ items[p]?, ∀ x ∈ items[i]?, before y x = false

theorem undisturbed_of_length_le {w : Nat} {items : List α} (h : items.length ≤ w) :
    Undisturbed before w items := by
  intro p i hp _ _ y hy
  have hpw : w ≤ p := hp ▸ Nat.mod_le p (2 * w)
  rw [List.getElem?_eq_none (h.trans hpw)] at hy
  cases hy

/-- The first two runs, and the rest. -/
theorem undisturbed_append {w : Nat} (hw : 0 < w) {a b rest : List α} (ha : a.length = w)
    (hb : b.length = w ∨ b.length ≤ w ∧ rest = []) :
    Undisturbed before w (a ++ (b ++ rest)) ↔
      (∀ y ∈ b.head?, ∀ x ∈ a, before y x = false) ∧ Undisturbed before w rest := by
  have hleft {i : Nat} (hi : i < w) : (a ++ (b ++ rest))[i]? = a[i]? :=
    List.getElem?_append_left (by omega)
  have hstart : (a ++ (b ++ rest))[w]? = b.head? := by
    rw [List.getElem?_append_right (by omega), ha, Nat.sub_self, ← List.head?_eq_getElem?]
    match b, hb with
    | y :: b, _ => rfl
    | [], .inl hb => exact absurd hb (by simp; omega)
    | [], .inr hb => simp [hb.2]
  have hshift (hb : b.length = w) (j : Nat) : (a ++ (b ++ rest))[2 * w + j]? = rest[j]? := by
    rw [List.getElem?_append_right (by omega), List.getElem?_append_right (by omega)]
    congr 1
    omega
  constructor
  · refine fun h => ⟨fun y hy x hx => ?_, fun p i hp hi hwidth y hy x hx => ?_⟩
    · obtain ⟨i, hi⟩ := List.mem_iff_getElem?.mp hx
      have hbound : i < w := ha ▸ (List.getElem?_eq_some_iff.mp hi).1
      exact h w i (Nat.mod_eq_of_lt (by omega)) hbound (by omega) y (hstart ▸ hy) x
        (by rw [hleft hbound, hi]; rfl)
    · rcases hb with hb | ⟨-, rfl⟩
      · exact h (2 * w + p) (2 * w + i) (by rw [Nat.add_mod_left, hp]) (by omega) (by omega) y
          (by rwa [hshift hb]) x (by rwa [hshift hb])
      · cases hy
  · rintro ⟨hfirst, hrest⟩ p i hp hi hwidth y hy x hx
    have hsplit := Nat.div_add_mod p (2 * w)
    rw [hp] at hsplit
    rcases Nat.eq_zero_or_pos (p / (2 * w)) with hzero | hpos
    · obtain rfl : p = w := by rw [hzero] at hsplit; omega
      exact hfirst y (hstart ▸ hy) x (List.mem_of_getElem? (hleft hi ▸ hx))
    · have hfar : 2 * w + w ≤ p := by nlinarith
      obtain ⟨p, rfl⟩ := Nat.exists_eq_add_of_le (by omega : 2 * w ≤ p)
      obtain ⟨i, rfl⟩ := Nat.exists_eq_add_of_le (by omega : 2 * w ≤ i)
      rcases hb with hb | ⟨hb, rfl⟩
      · rw [hshift hb] at hy hx
        exact hrest p i (by rwa [Nat.add_mod_left] at hp) (by omega) (by omega) y hy x hx
      · rw [List.getElem?_eq_none (by simp; omega)] at hy
        cases hy

/-- Merging pairs of runs changes nothing exactly if no run disturbs the one before it. -/
theorem mergePairs_flatten_iff (strict : IsStrict before) {w : Nat} (hw : 0 < w)
    {runs : List (List α)} (h : Chunked w runs) :
    (mergePairs before runs).flatten = runs.flatten ↔ Undisturbed before w runs.flatten := by
  induction runs using mergePairs.induct with
  | case1 a b runs ih =>
    cases h with
    | cons ha h =>
    have hb : b.length = w ∨ b.length ≤ w ∧ runs.flatten = [] := by
      cases h with
      | last hb => exact .inr ⟨hb, rfl⟩
      | cons hb h => exact .inl hb
    have hruns : Chunked w runs := by
      cases h with
      | last hb => exact .nil
      | cons hb h => exact h
    have hlength : (merge before a b).length = (a ++ b).length := (merge_perm a b).length_eq
    rw [mergePairs, List.flatten_cons, List.flatten_cons, List.flatten_cons,
      undisturbed_append hw ha hb, ← merge_eq_append_iff strict, ← ih hruns, ← List.append_assoc]
    exact ⟨fun heq => List.append_inj heq hlength, fun heq => by rw [heq.1, heq.2]⟩
  | case2 runs hfew =>
    have hshort : runs.flatten.length ≤ w := by
      obtain rfl | ⟨run, rfl⟩ := few_runs hfew
      · exact Nat.zero_le w
      · simpa using h.length_le
    rw [mergePairs]
    · exact ⟨fun _ => undisturbed_of_length_le hshort, fun _ => rfl⟩
    · exact hfew

theorem mergeAll_eq_flatten_iff (strict : IsStrict before) {w : Nat} (hw : 0 < w)
    {runs : List (List α)} (h : Chunked w runs) :
    mergeAll before runs = runs.flatten ↔ ∀ k, Undisturbed before (2 ^ k * w) runs.flatten := by
  induction runs using mergeAll.induct before generalizing w with
  | case1 => simp [mergeAll, Undisturbed]
  | case2 run =>
    have hshort := h.length_le
    have hflat : [run].flatten = run := by simp
    rw [mergeAll, hflat]
    exact ⟨fun _ k => undisturbed_of_length_le (by nlinarith [Nat.one_le_two_pow (n := k)]),
      fun _ => rfl⟩
  | case3 a b runs ih =>
    have ih := ih (w := 2 * w) (by omega) h.mergePairs
    have hfirst := mergePairs_flatten_iff strict hw h
    have hwider (k : Nat) : 2 ^ (k + 1) * w = 2 ^ k * (2 * w) := by rw [Nat.pow_succ, Nat.mul_assoc]
    rw [mergeAll]
    constructor
    · -- no pass makes the list greater, so that none may have made it smaller
      intro heq
      have hlater := mergeAll_notAfter strict (mergePairs before (a :: b :: runs))
      rw [heq] at hlater
      have hflat := (mergePairs_notAfter (a :: b :: runs)).antisymm strict hlater
      rw [hflat] at ih
      intro k
      cases k with
      | zero => simpa using hfirst.mp hflat
      | succ k => exact hwider k ▸ ih.mp heq k
    · intro hall
      have hflat := hfirst.mpr (by simpa using hall 0)
      rw [hflat] at ih
      exact ih.mpr fun k => hwider k ▸ hall (k + 1)

/-- What sorting leaves as it is. -/
theorem sortBy_eq_self_iff (strict : IsStrict before) (items : List α) :
    sortBy before items = items ↔ ∀ k, Undisturbed before (2 ^ k) items := by
  have hruns := mergeAll_eq_flatten_iff strict Nat.one_pos (Chunked.of_singles items)
  simp only [flatten_singles, Nat.mul_one] at hruns
  exact hruns

end Sorting

namespace Value

open Sorting

/-- A sorted list stays as it is when it is sorted again where ties form classes. In general it does
exactly if no merge of its runs finds anything to move. Otherwise it becomes smaller, and sorting
again and again comes to an end. -/
theorem sort_sort (items : List Value) :
    (TiesTransitive less items → sort (sort items) = sort items) ∧
    (sort (sort items) = sort items ↔ ∀ k, Undisturbed less (2 ^ k) (sort items)) ∧
    (sort (sort items) ≠ sort items → Smaller less (sort (sort items)) (sort items)) ∧
    ∃ n, sort (sort^[n] items) = sort^[n] items := by
  refine ⟨fun ties => ?_, sortBy_eq_self_iff less_isStrict _,
    (sortBy_notAfter less_isStrict _).resolve_left,
    exists_iterate_sortBy_fixed less_isStrict items⟩
  exact sortBy_of_ordered (sortBy_isStableSort less_isStrict ties).ordered

theorem sort_sort_numbers : TiesTransitive less [.float 2, .int 1, .int 2, .int 0] ∧
    sort (sort [.float 2, .int 1, .int 2, .int 0]) = sort [.float 2, .int 1, .int 2, .int 0] := by
  have hties : TiesTransitive less [.float 2, .int 1, .int 2, .int 0] := by decide
  exact ⟨hties, (sort_sort _).1 hties⟩

/-- The first pass leaves a two before a one, as nils keep them apart. -/
theorem sort_sort_ne : sort (sort [.int 2, .nil, .nil, .int 1, .int 0])
    ≠ sort [.int 2, .nil, .nil, .int 1, .int 0] := by
  have hfirst : sort [.int 2, .nil, .nil, .int 1, .int 0]
      = [.int 0, .int 2, .nil, .nil, .int 1] := by cbv
  have hsecond : sort [.int 0, .int 2, .nil, .nil, .int 1]
      = [.int 0, .int 1, .int 2, .nil, .nil] := by cbv
  rw [hfirst, hsecond]
  simp

end Value

end Stencil
