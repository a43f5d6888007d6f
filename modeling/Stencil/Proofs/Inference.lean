import Stencil.Proofs.Sequences

/-!
# Shapes inferred from values

A value in which no object has a hook is in the shape that is inferred for it. Lists are the one
place where inference and conversion go into a value: where the elements agree on a shape each of
them is converted to it, which is its own; otherwise they may be anything, and the list is passed on
as it is. So an item of the common shape is pushed onto a list as it is.
-/
namespace Stencil

namespace Value

mutual

/-- Whether neither a value is an object with a hook nor any in its lists and maps, at any depth. -/
def hookFree : Value → Bool
  | .list items => itemsHookFree items
  | .map entries => entriesHookFree entries
  | .object _ _ _ (some _) => false
  | _ => true

def itemsHookFree : List Value → Bool
  | [] => true
  | v :: items => v.hookFree && itemsHookFree items

def entriesHookFree : Bindings → Bool
  | [] => true
  | (_, v) :: entries => v.hookFree && entriesHookFree entries

end

theorem isHooked_of_hookFree {v : Value} (h : v.hookFree = true) : v.isHooked = false := by
  cases v with
  | object id name fields hook =>
    cases hook with
    | none => rfl
    | some w => simp only [hookFree, Bool.false_eq_true] at h
  | nil | bool | int | float | str | time | list | map => rfl

theorem sizeOf_canonical_le (v : Value) : sizeOf v.canonical ≤ sizeOf v := by
  cases v with
  | object id name fields hook =>
    cases hook with
    | none => exact le_rfl
    | some w =>
      simp only [canonical, object.sizeOf_spec, Option.some.sizeOf_spec]
      omega
  | nil | bool | int | float | str | time | list | map => exact le_rfl

/-- A hook of a hook is smaller still. -/
theorem canonical_canonical_eq_self_iff {v : Value} :
    v.canonical.canonical = v ↔ v.isHooked = false := by
  refine ⟨fun h => ?_, fun h => ?_⟩
  · cases v with
    | object id name fields hook =>
      cases hook with
      | none => rfl
      | some w =>
        have hle := sizeOf_canonical_le w
        have hsize := congrArg sizeOf h
        simp only [canonical_object, object.sizeOf_spec, Option.some.sizeOf_spec] at hsize
        omega
    | nil | bool | int | float | str | time | list | map => rfl
  · rw [canonical_eq_self_iff.mpr h, canonical_eq_self_iff.mpr h]

end Value

namespace Shape

/-! ### The common shape -/

mutual

theorem eq_of_same : ∀ {a b : Shape}, same a b = true → a = b
  | .list a, b, h => by
    cases b with
    | list b =>
      simp only [same] at h
      rw [eq_of_same h]
    | any | bool | int | float | number | string | time | map | record | optional =>
      simp [same] at h
  | .map k a, b, h => by
    cases b with
    | map l b =>
      simp only [same, Bool.and_eq_true] at h
      rw [eq_of_same h.1, eq_of_same h.2]
    | any | bool | int | float | number | string | time | list | record | optional =>
      simp [same] at h
  | .record as, b, h => by
    cases b with
    | record bs =>
      simp only [same] at h
      rw [eq_of_sameFields h]
    | any | bool | int | float | number | string | time | list | map | optional =>
      simp [same] at h
  | .optional a, b, h => by
    cases b with
    | optional b =>
      simp only [same] at h
      rw [eq_of_same h]
    | any | bool | int | float | number | string | time | list | map | record =>
      simp [same] at h
  | .any, b, h | .bool, b, h | .int, b, h | .float, b, h | .number, b, h | .string, b, h
  | .time, b, h => by cases b <;> first | rfl | simp [same] at h

theorem eq_of_sameFields : ∀ {as bs : List (String × Shape)}, sameFields as bs = true → as = bs
  | [], bs, h => by
    cases bs with
    | nil => rfl
    | cons => simp [sameFields] at h
  | (k, a) :: as, bs, h => by
    cases bs with
    | nil => simp [sameFields] at h
    | cons b bs =>
      obtain ⟨l, b⟩ := b
      simp only [sameFields, Bool.and_eq_true, decide_eq_true_eq] at h
      rw [h.1.1, eq_of_same h.1.2, eq_of_sameFields h.2]

end

/-- All agree on the common shape, or it is any. -/
theorem common_cases (shapes : List Shape) :
    common shapes = .any ∨ ∀ s ∈ shapes, s = common shapes := by
  cases shapes with
  | nil => exact .inl rfl
  | cons shape shapes =>
    by_cases hall : shapes.all (same · shape) = true
    · right
      rw [common, if_pos hall, List.forall_mem_cons]
      exact ⟨rfl, fun s hs => eq_of_same (List.all_eq_true.mp hall s hs)⟩
    · left
      rw [common, if_neg hall]

theorem ofItems_eq_map (items : List Value) : ofItems items = items.map of := by
  induction items with
  | nil => rfl
  | cons v items ih => rw [ofItems, ih, List.map_cons]

theorem ofElements_cases (items : List Value) :
    ofElements items = .any ∨ ∀ v ∈ items, of v = ofElements items := by
  have h := common_cases (ofItems items)
  rw [ofItems_eq_map, List.forall_mem_map, ← ofItems_eq_map] at h
  exact h

theorem ofElements_of_mixed {items : List Value}
    (h : items = [] ∨ ∃ v ∈ items, ∃ w ∈ items, of v ≠ of w) : ofElements items = .any := by
  rcases h with rfl | ⟨v, hv, w, hw, hne⟩
  · rfl
  · rcases ofElements_cases items with hany | hall
    · exact hany
    · exact absurd ((hall v hv).trans (hall w hw).symm) hne

/-! ### Conversion to the inferred shape -/

/-- A list keeps its elements if each is in the shape that is inferred for it. -/
theorem convert_of_list {items : List Value} (h : ∀ v ∈ items, (of v).convert v = .ok v) :
    (of (.list items)).convert (.list items) = .ok (.list items) := by
  have hof : of (.list items) = .list (ofElements items) := by rw [of, ofElements]
  rw [hof]
  cases hany : (ofElements items).isAny with
  | true => exact convert_list_of_any hany items
  | false =>
    have hcommon : ∀ v ∈ items, of v = ofElements items := by
      rcases ofElements_cases items with hcases | hall
      · rw [hcases] at hany
        cases hany
      · exact hall
    have hsame : items.mapM (convert (ofElements items)) = .ok items := by
      refine mapM_eq_ok.mpr (List.forall₂_same.mpr fun v hv => ?_)
      rw [← hcommon v hv]
      exact h v hv
    rw [convert_list_of_not_any hany, hsame]
    rfl

mutual

theorem convert_of : ∀ v : Value, v.hookFree = true → (of v).convert v = .ok v
  | .list items, h => by
    simp only [Value.hookFree] at h
    exact convert_of_list (convert_of_items items h)
  | .object _ _ _ (some _), h => by simp only [Value.hookFree, Bool.false_eq_true] at h
  | .object _ _ _ none, _ | .nil, _ | .bool _, _ | .int _, _ | .float _, _ | .str _, _
  | .time _, _ | .map _, _ => rfl

theorem convert_of_items : ∀ items : List Value, Value.itemsHookFree items = true →
    ∀ v ∈ items, (of v).convert v = .ok v
  | [], _ => by simp
  | v :: items, h => by
    simp only [Value.itemsHookFree, Bool.and_eq_true] at h
    rw [List.forall_mem_cons]
    exact ⟨convert_of v h.1, convert_of_items items h.2⟩

end

end Shape

/-! ### Pushing -/

namespace Filter

/-- What is appended is the converted item, of which the hook was taken already. -/
theorem push_of_convert {items : List Value} {item w : Value}
    (h : (Shape.ofElements items).convert item.canonical = .ok w) (named : Bindings) :
    push.call [.list items, item] named = .ok (.list (items ++ [w])) := by
  have hitem : Shape.convertItem item.canonical items = .ok w := by
    rw [Shape.convertItem, h]
    rfl
  have hrun : push.run [.list items, item.canonical] named = .ok (.list (items ++ [w])) := by
    change ((Shape.convertItem item.canonical items).mapError FilterFault.item >>= fun w =>
      Except.ok (Value.list (items ++ [w]))) = _
    rw [hitem]
    rfl
  exact call_of_run rfl rfl hrun

end Filter

/-- A value without hooks is in its inferred shape, and is pushed as it is onto a list whose elements
have that shape. Where the elements have no shape in common so is every value that is no object with
a hook. -/
theorem inferred_shape_fits :
    (∀ v : Value, v.hookFree = true → (Shape.of v).convert v = .ok v) ∧
    (∀ (items : List Value) (item : Value) (named : Bindings), item.hookFree = true →
      Shape.of item = Shape.ofElements items →
      Filter.push.call [.list items, item] named = .ok (.list (items ++ [item]))) ∧
    ∀ (items : List Value) (item : Value) (named : Bindings),
      (items = [] ∨ ∃ v ∈ items, ∃ w ∈ items, Shape.of v ≠ Shape.of w) →
      Filter.push.call [.list items, item] named =
        .ok (.list (items ++ [item.canonical.canonical])) ∧
      (Filter.push.call [.list items, item] named = .ok (.list (items ++ [item])) ↔
        item.isHooked = false) := by
  refine ⟨Shape.convert_of, fun items item named hfree hshape => ?_,
    fun items item named hmixed => ?_⟩
  · have hcanonical : item.canonical = item :=
      Value.canonical_eq_self_iff.mpr (Value.isHooked_of_hookFree hfree)
    apply Filter.push_of_convert
    rw [← hshape, hcanonical]
    exact Shape.convert_of item hfree
  · have hpush : Filter.push.call [.list items, item] named =
        .ok (.list (items ++ [item.canonical.canonical])) := by
      apply Filter.push_of_convert
      rw [Shape.ofElements_of_mixed hmixed, Shape.convert]
    refine ⟨hpush, ?_⟩
    rw [hpush, ← Value.canonical_canonical_eq_self_iff]
    simp

/-- Lists of numbers are rebuilt as they are, a number is pushed onto numbers, and a list with an
object in it onto a number and a text. -/
theorem inferred_shape_fits_lists :
    let rows : Value := .list [.list [.int 1], .list [.int 2, .int 3]]
    let page : Value := .list [.object 0 "object" [] (some (.int 1))]
    (Shape.of rows).convert rows = .ok rows ∧
      Filter.push.call [.list [.int 1], .int 2] [] = .ok (.list [.int 1, .int 2]) ∧
      Filter.push.call [.list [.int 1, .str "a"], page] [] =
        .ok (.list [.int 1, .str "a", page]) := by
  intro rows page
  obtain ⟨hfits, hcommon, hmixed⟩ := inferred_shape_fits
  refine ⟨hfits rows rfl, hcommon [.int 1] (.int 2) [] rfl rfl, ?_⟩
  refine (hmixed [.int 1, .str "a"] page [] (.inr ⟨.int 1, ?_, .str "a", ?_, ?_⟩)).2.mpr rfl
  · simp
  · simp
  · simp [Shape.of]

/-- An object with a hook is not pushed onto the empty list; its hook is. -/
theorem push_hooked :
    let page : Value := .object 0 "object" [] (some (.int 1))
    Filter.push.call [.list [], page] [] = .ok (.list [.int 1]) ∧
      ¬ ∀ (items : List Value) (item : Value) (named : Bindings),
        (items = [] ∨ ∃ v ∈ items, ∃ w ∈ items, Shape.of v ≠ Shape.of w) →
        Filter.push.call [.list items, item] named = .ok (.list (items ++ [item])) := by
  intro page
  have hpush : Filter.push.call [.list [], page] [] = .ok (.list [.int 1]) := rfl
  refine ⟨hpush, fun h => ?_⟩
  have hsame := h [] page [] (.inl rfl)
  rw [hpush] at hsame
  simp [page] at hsame

end Stencil
