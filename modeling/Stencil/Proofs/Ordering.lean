import Mathlib
import Stencil.Proofs.Floats
import Stencil.Proofs.Sorting

/-!
# Values in order

Booleans, numbers, text and times are ordered among themselves, and all other pairs are ties. The
order is strict although integers are compared exactly with each other and by their nearest floats
with floats, as a greater integer has no lesser float. What sorting guarantees follows: for a list,
and for the elements of a list by their keys under a property.
-/
namespace Stencil

open Sorting

theorem Time.Moment.before_iff (t u : Time.Moment) :
    t.before u = true ↔
      toLex (t.day, toLex (t.second, t.nano)) < toLex (u.day, toLex (u.second, u.nano)) := by
  simp [before, Prod.Lex.toLex_lt_toLex]

namespace Value

/-- The pairs of canonical values that are ordered. -/
inductive Precedes : Value → Value → Prop
  | bools : Precedes (.bool false) (.bool true)
  | ints {m n : Int64} (h : m < n) : Precedes (.int m) (.int n)
  | intFloat {n : Int64} {x : Float} (h : Decimal.ofInt64 n < x) : Precedes (.int n) (.float x)
  | floatInt {x : Float} {n : Int64} (h : x < Decimal.ofInt64 n) : Precedes (.float x) (.int n)
  | floats {x y : Float} (h : x < y) : Precedes (.float x) (.float y)
  | strs {s t : String} (h : s < t) : Precedes (.str s) (.str t)
  | times {t u : Time.Moment} (h : t.before u = true) : Precedes (.time t) (.time u)

theorem less_iff (a b : Value) : less a b = true ↔ Precedes a.canonical b.canonical := by
  constructor
  · intro h
    unfold less at h
    split at h
    next x y hx hy =>
      rw [Bool.and_eq_true, Bool.not_eq_true'] at h
      rw [hx, hy, h.1, h.2]
      exact .bools
    next x y hx hy => exact hx ▸ hy ▸ .ints (of_decide_eq_true h)
    next x y hx hy => exact hx ▸ hy ▸ .intFloat (of_decide_eq_true h)
    next x y hx hy => exact hx ▸ hy ▸ .floatInt (of_decide_eq_true h)
    next x y hx hy => exact hx ▸ hy ▸ .floats (of_decide_eq_true h)
    next x y hx hy => exact hx ▸ hy ▸ .strs (of_decide_eq_true h)
    next x y hx hy => exact hx ▸ hy ▸ .times h
    next => cases h
  · intro h
    unfold less
    generalize a.canonical = v at h
    generalize b.canonical = w at h
    cases h with
    | bools => rfl
    | ints h => exact decide_eq_true h
    | intFloat h => exact decide_eq_true h
    | floatInt h => exact decide_eq_true h
    | floats h => exact decide_eq_true h
    | strs h => exact decide_eq_true h
    | times h => exact h

theorem Precedes.irrefl (v : Value) : ¬ Precedes v v := by
  intro h
  cases h with
  | ints h => exact Int64.lt_irrefl h
  | floats h => exact Decimal.not_lt_self _ h
  | strs h => exact lt_irrefl _ h
  | times h => exact lt_irrefl _ ((Time.Moment.before_iff _ _).mp h)

theorem Precedes.trans {u v w : Value} (h : Precedes u v) (h' : Precedes v w) : Precedes u w := by
  cases h with
  | bools => cases h'
  | ints h =>
    cases h' with
    | ints h' => exact .ints (Int64.lt_trans h h')
    | intFloat h' => exact .intFloat (Decimal.ofInt64_lt_of_le (Int64.le_of_lt h) h')
  | @intFloat m x h =>
    cases h' with
    | @floatInt _ n h' =>
      -- an integer that is not less would have a float that is not less
      refine .ints (Int64.not_le.mp fun hle => ?_)
      exact Decimal.not_lt_self x (Decimal.lt_of_lt_of_lt (Decimal.lt_ofInt64_of_le h' hle) h)
    | floats h' => exact .intFloat (Decimal.lt_of_lt_of_lt h h')
  | floatInt h =>
    cases h' with
    | ints h' => exact .floatInt (Decimal.lt_ofInt64_of_le h (Int64.le_of_lt h'))
    | intFloat h' => exact .floats (Decimal.lt_of_lt_of_lt h h')
  | floats h =>
    cases h' with
    | floatInt h' => exact .floatInt (Decimal.lt_of_lt_of_lt h h')
    | floats h' => exact .floats (Decimal.lt_of_lt_of_lt h h')
  | strs h =>
    cases h' with
    | strs h' => exact .strs (lt_trans h h')
  | times h =>
    cases h' with
    | times h' =>
      rw [Time.Moment.before_iff] at h h'
      exact .times ((Time.Moment.before_iff _ _).mpr (h.trans h'))

theorem less_isStrict : IsStrict less where
  irrefl v := by
    rw [← Bool.not_eq_true, less_iff]
    exact Precedes.irrefl v.canonical
  trans h h' := by
    rw [less_iff] at h h' ⊢
    exact h.trans h'

/-- Where the elements stand at places of a linear order, ties form classes. -/
theorem tiesTransitive_of_places {ι : Type} [LinearOrder ι] {items : List Value}
    (stands : Value → ι → Prop)
    (hless : ∀ {v w j k}, stands v j → stands w k → (less v w = true ↔ j < k))
    (h : ∀ v ∈ items, ∃ k, stands v k) : TiesTransitive less items := by
  have htied {v w j k} (hv : stands v j) (hw : stands w k) : tied less v w = true ↔ j = k := by
    rw [tied_iff, ← Bool.not_eq_true, ← Bool.not_eq_true, hless hv hw, hless hw hv, not_lt, not_lt]
    exact ⟨fun hle => le_antisymm hle.2 hle.1, fun heq => ⟨heq.ge, heq.le⟩⟩
  intro a ha b hb c hc hab hbc
  obtain ⟨i, hi⟩ := h a ha
  obtain ⟨j, hj⟩ := h b hb
  obtain ⟨k, hk⟩ := h c hc
  exact (htied hi hk).mpr (((htied hi hj).mp hab).trans ((htied hj hk).mp hbc))

/-- All text, all integers, or all times, up to the hooks of objects. -/
def OfOneKind (items : List Value) : Prop :=
  (∀ v ∈ items, ∃ s, v.canonical = .str s) ∨ (∀ v ∈ items, ∃ n, v.canonical = .int n) ∨
    ∀ v ∈ items, ∃ t, v.canonical = .time t

theorem OfOneKind.tiesTransitive {items : List Value} (h : OfOneKind items) :
    TiesTransitive less items := by
  rcases h with h | h | h
  · refine tiesTransitive_of_places (fun v s => v.canonical = .str s) ?_ h
    intro v w s t hv hw
    simp [less, hv, hw]
  · refine tiesTransitive_of_places (fun v i => ∃ n, v.canonical = .int n ∧ n.toInt = i) ?_ ?_
    · rintro v w _ _ ⟨m, hv, rfl⟩ ⟨n, hw, rfl⟩
      simp [less, hv, hw, Int64.lt_iff_toInt_lt]
    · exact fun v hv => (h v hv).elim fun n hn => ⟨_, n, hn, rfl⟩
  · refine tiesTransitive_of_places
      (fun v i => ∃ t, v.canonical = .time t ∧ toLex (t.day, toLex (t.second, t.nano)) = i) ?_ ?_
    · rintro v w _ _ ⟨t, hv, rfl⟩ ⟨u, hw, rfl⟩
      simp only [less, hv, hw]
      exact Time.Moment.before_iff t u
    · exact fun v hv => (h v hv).elim fun t ht => ⟨_, t, ht, rfl⟩

/-- Sorting rearranges a list so that nothing is less than its left neighbour, and what is tied with
every element keeps its order. Where ties form classes, as among values of one kind, the result is
the only stable arrangement in order. -/
theorem sort_arranges (items : List Value) :
    (sort items).Perm items ∧
    ((sort items).IsChain fun v w => less w v = false) ∧
    (sort items).filter (alone less items) = items.filter (alone less items) ∧
    (TiesTransitive less items → IsStableSort less items (sort items) ∧
      ∀ sorted, IsStableSort less items sorted → sorted = sort items) ∧
    (OfOneKind items → TiesTransitive less items) := by
  refine ⟨sortBy_perm items, sortBy_isChain less_isStrict items,
    sortBy_filter_alone less_isStrict items, fun ties => ?_, OfOneKind.tiesTransitive⟩
  have hsorted := sortBy_isStableSort less_isStrict ties
  exact ⟨hsorted, fun _ h => h.unique less_isStrict hsorted⟩

theorem sort_arranges_mixed : TiesTransitive less [.int 2, .float 1, .int 1] ∧
    sort [.int 2, .float 1, .int 1] = [.float 1, .int 1, .int 2] := by
  have hties : TiesTransitive less [.int 2, .float 1, .int 1] := by decide
  have hperm : ([.float 1, .int 1] ++ [.int 2] : List Value).Perm [.int 2, .float 1, .int 1] :=
    List.perm_append_comm
  have hstable : IsStableSort less [.int 2, .float 1, .int 1] [.float 1, .int 1, .int 2] := by
    refine ⟨hperm, by decide, ?_⟩
    simp only [List.forall_mem_cons]
    exact ⟨rfl, rfl, rfl, by simp⟩
  obtain ⟨-, -, -, hsorted, -⟩ := sort_arranges [.int 2, .float 1, .int 1]
  exact ⟨hties, ((hsorted hties).2 _ hstable).symm⟩

section Keys

variable (key : String) (ascending : Bool)

/-- The key of an element under a property. -/
def keyOf (v : Value) : Value := (v.property key).getD .nil

/-- The property is missing or nil. -/
def isKeyless (v : Value) : Bool := (keyOf key v).isNil

/-- The order of the keys in a direction. -/
def lessBy (v w : Value) : Bool :=
  if ascending then less (keyOf key v) (keyOf key w) else less (keyOf key w) (keyOf key v)

/-- The order of all elements, those without a key first. -/
def comesBefore (v w : Value) : Bool := keyBefore ascending (keyOf key v, v) (keyOf key w, w)

variable {key ascending}

theorem comesBefore_eq (v w : Value) : comesBefore key ascending v w
    = (!isKeyless key w && (isKeyless key v || lessBy key ascending v w)) := by
  unfold comesBefore keyBefore isKeyless lessBy
  cases (keyOf key v).isNil <;> cases (keyOf key w).isNil <;> simp

theorem sortByProperty_eq (items : List Value) :
    sortByProperty key ascending items = sortBy (comesBefore key ascending) items := by
  rw [sortByProperty, sortBy_map, List.map_map]
  exact List.map_id' _

theorem lessBy_isStrict : IsStrict (lessBy key ascending) where
  irrefl v := by simp [lessBy, less_isStrict.irrefl]
  trans := by
    intro u v w h h'
    cases ascending with
    | true => exact less_isStrict.trans h h'
    | false => exact less_isStrict.trans h' h

theorem comesBefore_isStrict : IsStrict (comesBefore key ascending) where
  irrefl v := by cases h : isKeyless key v <;> simp [comesBefore_eq, h, lessBy_isStrict.irrefl]
  trans := by
    intro u v w h h'
    simp only [comesBefore_eq, Bool.and_eq_true, Bool.or_eq_true, Bool.not_eq_true'] at h h' ⊢
    refine ⟨h'.1, h.2.imp_right fun huv => ?_⟩
    exact lessBy_isStrict.trans huv (h'.2.resolve_left (by simp [h.1]))

theorem tied_lessBy (v w : Value) :
    tied (lessBy key ascending) v w = tied less (keyOf key v) (keyOf key w) := by
  cases ascending with
  | true => rfl
  | false => exact (tied_comm _ _ : tied less (keyOf key w) (keyOf key v) = _)

theorem tied_comesBefore {v w : Value} : tied (comesBefore key ascending) v w = true ↔
    isKeyless key v = isKeyless key w ∧
      (isKeyless key v = false → tied less (keyOf key v) (keyOf key w) = true) := by
  have hkeys : tied less (keyOf key v) (keyOf key w) = tied (lessBy key ascending) v w :=
    (tied_lessBy v w).symm
  rw [hkeys, tied_iff, tied_iff, comesBefore_eq, comesBefore_eq]
  cases isKeyless key v <;> cases isKeyless key w <;> simp

theorem keyless_decides (items : List Value) :
    Decides (comesBefore key ascending) (isKeyless key · = true) items := by
  intro y _ a _ b _ hy h
  simp only [comesBefore_eq, hy, Bool.true_or, Bool.and_true] at h ⊢
  cases hb : isKeyless key b with
  | true => simp [h]
  | false => exact .inl rfl

theorem keyless_alike (items : List Value) :
    Alike (comesBefore key ascending) (isKeyless key · = true) items := by
  intro x _ y _ a _ hx hy h
  simpa [comesBefore_eq, hx, hy] using h

/-- The elements without a key come first and keep their order. -/
theorem sortByProperty_keyless (items : List Value) :
    items.filter (isKeyless key) ++ (sortByProperty key ascending items).filter (!isKeyless key ·)
      = sortByProperty key ascending items := by
  rw [sortByProperty_eq]
  have hstable : (sortBy (comesBefore key ascending) items).filter (isKeyless key)
      = items.filter (isKeyless key) :=
    sortBy_filter comesBefore_isStrict (keyless_decides items) (keyless_alike items)
  rw [← hstable]
  refine filter_append_filter ((sortBy_settles comesBefore_isStrict (keyless_decides items)).imp ?_)
  intro v w h hw
  simpa [comesBefore_eq, hw] using h hw

/-- Ties between keys make ties between elements. -/
theorem comesBefore_tiesTransitive {items : List Value}
    (ties : TiesTransitive less ((items.filter (!isKeyless key ·)).map (keyOf key))) :
    TiesTransitive (comesBefore key ascending) items := by
  have hkeys {v : Value} (hv : v ∈ items) (hkey : isKeyless key v = false) :
      keyOf key v ∈ (items.filter (!isKeyless key ·)).map (keyOf key) :=
    List.mem_map_of_mem (List.mem_filter.mpr ⟨hv, by simp [hkey]⟩)
  intro a ha b hb c hc hab hbc
  obtain ⟨hab, htab⟩ := tied_comesBefore.mp hab
  obtain ⟨hbc, htbc⟩ := tied_comesBefore.mp hbc
  refine tied_comesBefore.mpr ⟨hab.trans hbc, fun hka => ?_⟩
  have hkb := hab.symm.trans hka
  have hkc := hbc.symm.trans hkb
  exact ties _ (hkeys ha hka) _ (hkeys hb hkb) _ (hkeys hc hkc) (htab hka) (htbc hkb)

/-- The elements with a key are sorted by their keys where ties between these form classes. -/
theorem sortByProperty_isStableSort {items : List Value}
    (ties : TiesTransitive less ((items.filter (!isKeyless key ·)).map (keyOf key))) :
    IsStableSort (lessBy key ascending) (items.filter (!isKeyless key ·))
      ((sortByProperty key ascending items).filter (!isKeyless key ·)) := by
  rw [sortByProperty_eq]
  refine (sortBy_isStableSort comesBefore_isStrict (comesBefore_tiesTransitive ties)).filter ?_ ?_
  · intro v w hv hw
    rw [Bool.not_eq_true'] at hv hw
    simp [comesBefore_eq, hv, hw]
  · intro v w hv h
    rwa [← (tied_comesBefore.mp h).1]

/-- Sorting by a property puts the elements without a key first, as they stood, whatever the
direction and the other keys. Where ties between keys form classes, the rest is the only stable
arrangement of the other elements by their keys, in the direction that is asked for. -/
theorem sortByProperty_arranges (key : String) (ascending : Bool) (items : List Value) :
    (sortByProperty key ascending items).Perm items ∧
    ∃ rest, sortByProperty key ascending items = items.filter (isKeyless key) ++ rest ∧
      rest.Perm (items.filter (!isKeyless key ·)) ∧
      (TiesTransitive less ((items.filter (!isKeyless key ·)).map (keyOf key)) →
        IsStableSort (lessBy key ascending) (items.filter (!isKeyless key ·)) rest ∧
        ∀ sorted, IsStableSort (lessBy key ascending) (items.filter (!isKeyless key ·)) sorted →
          sorted = rest) := by
  have hperm : (sortByProperty key ascending items).Perm items := by
    rw [sortByProperty_eq]
    exact sortBy_perm items
  refine ⟨hperm, _, (sortByProperty_keyless items).symm, hperm.filter _, fun ties => ?_⟩
  have hsorted : IsStableSort (lessBy key ascending) _ _ := sortByProperty_isStableSort ties
  exact ⟨hsorted, fun _ h => h.unique lessBy_isStrict hsorted⟩

theorem sortByProperty_arranges_descending : TiesTransitive less [.int 1, .int 2] ∧
    sortByProperty "k" false
        [.map [("k", .int 1)], .nil, .map [("k", .int 2)], .map [("j", .int 3)]]
      = [.nil, .map [("j", .int 3)], .map [("k", .int 2)], .map [("k", .int 1)]] := by
  obtain ⟨-, rest, hwhole, -, hsorted⟩ := sortByProperty_arranges "k" false
    [.map [("k", .int 1)], .nil, .map [("k", .int 2)], .map [("j", .int 3)]]
  have hstable : IsStableSort (lessBy "k" false) [.map [("k", .int 1)], .map [("k", .int 2)]]
      [.map [("k", .int 2)], .map [("k", .int 1)]] := by
    refine ⟨.swap _ _ _, by decide, ?_⟩
    simp only [List.forall_mem_cons]
    exact ⟨rfl, rfl, by simp⟩
  have hties : TiesTransitive less [.int 1, .int 2] := by decide
  rw [hwhole, ← (hsorted hties).2 _ hstable]
  exact ⟨hties, rfl⟩

end Keys

end Value
end Stencil
