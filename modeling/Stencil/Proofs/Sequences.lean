import Stencil.Filter.Standard
import Stencil.Proofs.Collections

/-!
# Maps as sequences

A filter on sequences takes a map for the list of its values. Each value is converted on the way, so
that an object with a hook is replaced by the hook, while a list is passed on as it is with the
objects in it. The filters answer the same for a map and for the list of its values unless one of
these is an object with a hook.
-/
namespace Stencil

open Value (canonical)

theorem Value.display_canonical (v : Value) : v.canonical.display = v.display := by
  cases v with
  | object id name fields hook => cases hook <;> rfl
  | nil | bool | int | float | str | time | list | map => rfl

theorem Value.map_canonical_eq_self_iff {values : List Value} :
    values.map canonical = values ↔ ∀ v ∈ values, v.isHooked = false := by
  induction values with
  | nil => simp
  | cons v values ih => simp [Value.canonical_eq_self_iff, ih]

namespace Shape

/-- Converted to anything, an object with a hook becomes the hook. -/
theorem convert_list_map_of_any {element : Shape} (h : element.isAny = true) (entries : Bindings) :
    convert (.list element) (.map entries) =
      .ok (.list ((entries.map Prod.snd).map canonical)) := by
  have hvalues : (entries.map Prod.snd).mapM (convert element) =
      .ok ((entries.map Prod.snd).map canonical) := by
    rw [mapM_eq_ok, List.forall₂_map_right_iff]
    exact List.forall₂_same.mpr fun v _ => convert_canonical_of_isAny h v
  rw [convert_list_map, hvalues]
  rfl

theorem convert_list_map_eq_iff (element : Shape) (entries : Bindings) :
    convert (.list element) (.map entries) =
        convert (.list element) (.list (entries.map Prod.snd)) ↔
      element.isAny = false ∨ ∀ v ∈ entries.map Prod.snd, v.isHooked = false := by
  cases helement : element.isAny with
  | false => simp [convert_list_map, convert_list_of_not_any helement]
  | true =>
    rw [convert_list_map_of_any helement, convert_list_of_any helement, Except.ok.injEq,
      Value.list.injEq, Value.map_canonical_eq_self_iff]
    simp

end Shape

namespace Filter

/-- With an argument for each parameter, a call gives what the function gives for the converted
arguments. -/
theorem call_of_run {f : Filter} {args converted : List Value} {named : Bindings} {v : Value}
    (hlength : args.length = f.params.length)
    (hargs : convertArgs f.name 0 f.params args = .ok converted)
    (hrun : f.run converted named = .ok v) : f.call args named = .ok v := by
  simp only [call, hlength, lt_self_iff_false, if_false, Nat.sub_self, List.replicate_zero,
    List.append_nil, hargs]
  change (f.run converted named).mapError _ = _
  rw [hrun]
  rfl

/-- A call whose input is converted already. -/
def callOn (f : Filter) (shapes : List Shape) (v : Value) (args : List Value) (named : Bindings) :
    Except Error Value := do
  if shapes.length < args.length then
    throw ⟨.filter f.name (.tooManyArguments shapes.length args.length), none⟩
  let filled := args ++ List.replicate (shapes.length - args.length) .nil
  let rest ← (convertArgs f.name 1 shapes filled).mapError (⟨.conversion ·, none⟩)
  (f.run (v :: rest) named).mapError (⟨.filter f.name ·, none⟩)

theorem call_eq_callOn {f : Filter} {shape : Shape} {shapes : List Shape}
    (hparams : f.params = shape :: shapes) {v w : Value} (hv : shape.convert v = .ok w)
    (args : List Value) (named : Bindings) :
    f.call (v :: args) named = f.callOn shapes w args named := by
  by_cases hmany : shapes.length < args.length
  · simp only [call, callOn, hparams, List.length_cons, Nat.add_lt_add_iff_right, hmany, if_true,
      Nat.add_sub_cancel]
    rfl
  · simp only [call, callOn, hparams, List.length_cons, Nat.add_lt_add_iff_right, hmany, if_false,
      Nat.add_sub_add_right, List.cons_append, convertArgs, hv]
    cases convertArgs f.name 1 shapes
      (args ++ List.replicate (shapes.length - args.length) .nil) with
    | error e => rfl
    | ok rest => rfl

theorem sequence_convert_list (items : List Value) :
    sequence.convert (.list items) = .ok (.list items) := rfl

theorem sequence_convert_map (entries : Bindings) :
    sequence.convert (.map entries) = .ok (.list ((entries.map Prod.snd).map canonical)) := by
  have hmap : sequence.convert (.map entries) = (Shape.list .any).convert (.map entries) := by
    rw [sequence, Shape.convert]
    rfl
  rw [hmap, Shape.convert_list_map_of_any rfl]

theorem call_map {f : Filter} {shapes : List Shape} (hparams : f.params = sequence :: shapes)
    (entries : Bindings) (args : List Value) (named : Bindings) :
    f.call (.map entries :: args) named =
      f.call (.list ((entries.map Prod.snd).map canonical) :: args) named := by
  rw [call_eq_callOn hparams (sequence_convert_map entries),
    call_eq_callOn hparams (sequence_convert_list _)]

/-- Joined, an object shows what its hook shows. -/
theorem join_canonical (items args : List Value) (named : Bindings) :
    join.call (.list (items.map canonical) :: args) named =
      join.call (.list items :: args) named := by
  have hrun (rest : List Value) : join.run (.list (items.map canonical) :: rest) named =
      join.run (.list items :: rest) named := by
    simp [join, listArg, arg, Function.comp_def, Value.display_canonical]
  have hjoin : join.params = sequence :: [.any] := rfl
  rw [call_eq_callOn hjoin (sequence_convert_list _),
    call_eq_callOn hjoin (sequence_convert_list _)]
  simp only [callOn, hrun]

/-- The filters whose input is a sequence. -/
def sequenceFilters : List Filter := [map, join, sort, first, last, compact, reverse, push]

theorem params_of_mem_sequenceFilters {f : Filter} (h : f ∈ sequenceFilters) :
    ∃ shapes, f.params = sequence :: shapes := by
  simp only [sequenceFilters, List.mem_cons, List.not_mem_nil, or_false] at h
  rcases h with rfl | rfl | rfl | rfl | rfl | rfl | rfl | rfl <;> exact ⟨_, rfl⟩

/-- What a map is to a filter on sequences: the list of its values, those with a hook by their
hooks. -/
theorem map_read_as_values (entries : Bindings) :
    let values := entries.map Prod.snd
    (∀ element : Shape,
      (Shape.list element).convert (.map entries) = (Shape.list element).convert (.list values) ↔
        element.isAny = false ∨ ∀ v ∈ values, v.isHooked = false) ∧
    (Shape.list .any).convert (.map entries) = .ok (.list (values.map canonical)) ∧
    (∀ f ∈ sequenceFilters, ∀ args named,
      f.call (.map entries :: args) named = f.call (.list (values.map canonical) :: args) named) ∧
    (∀ args named,
      join.call (.map entries :: args) named = join.call (.list values :: args) named) ∧
    ((∀ f ∈ sequenceFilters, ∀ args named,
      f.call (.map entries :: args) named = f.call (.list values :: args) named) ↔
        ∀ v ∈ values, v.isHooked = false) := by
  intro values
  have hcall {f : Filter} (hf : f ∈ sequenceFilters) (args : List Value) (named : Bindings) :
      f.call (.map entries :: args) named =
        f.call (.list (values.map canonical) :: args) named := by
    obtain ⟨shapes, hparams⟩ := params_of_mem_sequenceFilters hf
    exact call_map hparams entries args named
  refine ⟨fun element => Shape.convert_list_map_eq_iff element entries,
    Shape.convert_list_map_of_any rfl entries, fun f => hcall, fun args named => ?_, fun h => ?_,
    fun h f hf args named => ?_⟩
  · rw [hcall (by simp [sequenceFilters]), join_canonical]
  · -- a reversed list shows its elements themselves
    have hreverse := h reverse (by simp [sequenceFilters]) [] []
    rw [hcall (by simp [sequenceFilters])] at hreverse
    have hlists : (values.map canonical).reverse = values.reverse :=
      Value.list.inj (Except.ok.inj hreverse)
    exact Value.map_canonical_eq_self_iff.mp (List.reverse_injective hlists)
  · rw [hcall hf, Value.map_canonical_eq_self_iff.mpr h]

/-- A map of numbers is reversed as the list of them, and of an object the hook is looked into. -/
theorem map_read_as_values_of_two :
    let page : Value := .object 0 "object" [("x", .int 1)] (some (.map [("x", .int 2)]))
    reverse.call [.map [("a", .int 1), ("b", .int 2)]] [] = .ok (.list [.int 2, .int 1]) ∧
      map.call [.map [("a", page)], .str "x"] [] = .ok (.list [.int 2]) := by
  intro page
  have hnumbers := (map_read_as_values [("a", .int 1), ("b", .int 2)]).2.2.2.2
  have hpage := (map_read_as_values [("a", page)]).2.2.1
  constructor
  · rw [hnumbers.mpr (by simp [Value.isHooked]) reverse (by simp [sequenceFilters])]
    rfl
  · rw [hpage map (by simp [sequenceFilters])]
    rfl

/-- The fields of an object with a hook are found in a list of it, and not in a map. -/
theorem map_not_read_as_values :
    let page : Value := .object 0 "object" [("x", .int 1)] (some (.str "k"))
    map.call [.map [("a", page)], .str "x"] [] = .ok (.list [.nil]) ∧
      map.call [.list [page], .str "x"] [] = .ok (.list [.int 1]) ∧
      ¬ ∀ (entries : Bindings) (args : List Value) (named : Bindings),
        map.call (.map entries :: args) named =
          map.call (.list (entries.map Prod.snd) :: args) named := by
  intro page
  have hmap : map.call [.map [("a", page)], .str "x"] [] = .ok (.list [.nil]) := rfl
  have hlist : map.call [.list [page], .str "x"] [] = .ok (.list [.int 1]) := rfl
  refine ⟨hmap, hlist, fun h => ?_⟩
  have hsame := h [("a", page)] [.str "x"] []
  rw [hmap] at hsame
  exact absurd (hsame.trans hlist) (by simp)

end Filter

end Stencil
