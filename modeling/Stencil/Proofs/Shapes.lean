import Mathlib.Data.List.Forall2
import Mathlib.Tactic.Tauto
import Stencil.Filter.Basic
import Stencil.Proofs.Markup
import Stencil.Proofs.Tables

/-!
# Values of a shape

What a conversion gives has the shape that it was asked for, at every depth, so a function of a
filter gets one argument for each parameter and each of them in its shape. Where a record names a
field twice, the last shape counts.
-/
namespace Stencil

/-- What is read as a number is one. -/
theorem Value.toNumber?_eq_some {v w : Value} (h : v.toNumber? = some w) :
    (∃ n, w = .int n) ∨ ∃ x, w = .float x := by
  cases v with
  | int n => exact .inl ⟨n, (Option.some.inj h).symm⟩
  | float x => exact .inr ⟨x, (Option.some.inj h).symm⟩
  | bool b => exact .inl ⟨_, (Option.some.inj h).symm⟩
  | str s =>
    rcases Option.or_eq_some_iff.mp h with hint | ⟨-, hfloat⟩
    · obtain ⟨n, -, rfl⟩ := Option.map_eq_some_iff.mp hint
      exact .inl ⟨n, rfl⟩
    · obtain ⟨x, -, rfl⟩ := Option.map_eq_some_iff.mp hfloat
      exact .inr ⟨x, rfl⟩
  | nil | time | list | map | object => cases h

namespace Shape

mutual

/-- What the values of a shape look like. -/
def Conforms : Shape → Value → Prop
  | .any, _ => True
  | .bool, v => ∃ b, v = .bool b
  | .int, v => ∃ n, v = .int n
  | .float, v => ∃ x, v = .float x
  | .number, v => (∃ n, v = .int n) ∨ ∃ x, v = .float x
  | .string, v => ∃ s, v = .str s
  | .time, v => ∃ t, v = .time t
  | .list element, v => ∃ items, v = .list items ∧ ∀ item ∈ items, Conforms element item
  | .map _ value, v => ∃ entries, v = .map entries ∧ ∀ entry ∈ entries, Conforms value entry.2
  | .record fields, v => ∃ entries, v = .map entries ∧
      (∀ key, Table.contains key entries = true ↔ key ∈ Table.keys fields) ∧
      FieldsConform fields entries
  | .optional inner, v => v = .nil ∨ Conforms inner v

/-- Every field is there and has its shape. -/
def FieldsConform : List (String × Shape) → Bindings → Prop
  | [], _ => True
  | (name, shape) :: fields, entries =>
    (∃ v, Table.find? name entries = some v ∧ Conforms shape v) ∧ FieldsConform fields entries

end

mutual

/-- The shape whose records name a field once, where they named it last. -/
def settled : Shape → Shape
  | .list element => .list element.settled
  | .map key value => .map key.settled value.settled
  | .record fields => .record (settledFields fields)
  | .optional inner => .optional inner.settled
  | .any => .any
  | .bool => .bool
  | .int => .int
  | .float => .float
  | .number => .number
  | .string => .string
  | .time => .time

def settledFields : List (String × Shape) → List (String × Shape)
  | [] => []
  | (name, shape) :: fields =>
    if name ∈ Table.keys fields then settledFields fields
    else (name, shape.settled) :: settledFields fields

end

mutual

/-- No record names a field twice. -/
def DistinctFields : Shape → Prop
  | .list element => element.DistinctFields
  | .map key value => key.DistinctFields ∧ value.DistinctFields
  | .record fields => (Table.keys fields).Nodup ∧ EachDistinct fields
  | .optional inner => inner.DistinctFields
  | .any => True
  | .bool => True
  | .int => True
  | .float => True
  | .number => True
  | .string => True
  | .time => True

def EachDistinct : List (String × Shape) → Prop
  | [] => True
  | (_, shape) :: fields => shape.DistinctFields ∧ EachDistinct fields

end

mutual

theorem settled_of_distinct : ∀ shape : Shape, shape.DistinctFields → shape.settled = shape
  | .list element, h => by
    simp only [DistinctFields] at h
    simp only [settled, settled_of_distinct element h]
  | .map key value, h => by
    simp only [DistinctFields] at h
    simp only [settled, settled_of_distinct key h.1, settled_of_distinct value h.2]
  | .record fields, h => by
    simp only [DistinctFields] at h
    simp only [settled, settledFields_of_distinct fields h.1 h.2]
  | .optional inner, h => by
    simp only [DistinctFields] at h
    simp only [settled, settled_of_distinct inner h]
  | .any, _ | .bool, _ | .int, _ | .float, _ | .number, _ | .string, _ | .time, _ => by
    simp only [settled]

theorem settledFields_of_distinct : ∀ fields : List (String × Shape),
    (Table.keys fields).Nodup → EachDistinct fields → settledFields fields = fields
  | [], _, _ => by simp only [settledFields]
  | (name, shape) :: fields, hn, h => by
    obtain ⟨hname, hn⟩ := List.nodup_cons.mp hn
    simp only [EachDistinct] at h
    simp only [settledFields, settled_of_distinct shape h.1,
      settledFields_of_distinct fields hn h.2]
    exact if_neg hname

end

theorem mem_keys_settledFields (key : String) (fields : List (String × Shape)) :
    key ∈ Table.keys (settledFields fields) ↔ key ∈ Table.keys fields := by
  induction fields with
  | nil => simp only [settledFields]
  | cons field fields ih =>
    obtain ⟨name, shape⟩ := field
    simp only [settledFields]
    split
    · rename_i hname
      rw [ih]
      refine ⟨List.mem_cons_of_mem name, fun h => ?_⟩
      rcases List.mem_cons.mp h with rfl | h
      · exact hname
      · exact h
    · exact (List.mem_cons.trans (or_congr_right ih)).trans List.mem_cons.symm

theorem orMismatch_eq_ok {shape : Shape} {v w : Value} {found : Option Value} :
    orMismatch shape v found = .ok w ↔ found = some w := by
  cases found with
  | none => exact ⟨nofun, nofun⟩
  | some u => simp only [orMismatch, Except.ok.injEq, Option.some.injEq]

theorem convertFields_eq_ok {name : String} {shape : Shape} {fields : List (String × Shape)}
    {v : Value} {done out : Bindings} :
    convertFields ((name, shape) :: fields) v done = .ok out ↔
      ∃ w, convert shape ((v.property name).getD .nil) = .ok w ∧
        convertFields fields v (Table.insert name w done) = .ok out := by
  simp only [convertFields, bind_eq_ok, mapError_eq_ok]

theorem convertEntries_eq_ok {keyShape : Shape} {key value : Value → Except ConversionError Value}
    {k : String} {v : Value} {rest done out : Bindings} :
    convertEntries keyShape key value done ((k, v) :: rest) = .ok out ↔
      ∃ c w, key (.str k) = .ok c ∧ value v = .ok w ∧ Table.contains c.display done = false ∧
        convertEntries keyShape key value (Table.insert c.display w done) rest = .ok out := by
  simp only [convertEntries]
  cases hk : key (.str k) with
  | error e => simp [bind, Except.bind]
  | ok c =>
    cases hv : value v with
    | error e => simp [bind, Except.bind, Except.mapError]
    | ok w =>
      cases hd : Table.contains c.display done with
      | true => simp [bind, Except.bind, Except.mapError, hd]
      | false => simp [bind, Except.bind, Except.mapError, hd]

theorem conforms_of_isAny {shape : Shape} (h : shape.isAny = true) (v : Value) :
    shape.settled.Conforms v := by
  cases shape with
  | any => simp only [settled, Conforms]
  | bool | int | float | number | string | time | list | map | record | optional => cases h

/-- A field that is not named stays what it was. -/
theorem find?_convertFields {fields : List (String × Shape)} {v : Value} {done out : Bindings}
    (h : convertFields fields v done = .ok out) {key : String} (hkey : key ∉ Table.keys fields) :
    Table.find? key out = Table.find? key done := by
  induction fields generalizing done with
  | nil =>
    simp only [convertFields] at h
    cases h
    rfl
  | cons field fields ih =>
    obtain ⟨name, shape⟩ := field
    obtain ⟨w, -, h⟩ := convertFields_eq_ok.mp h
    obtain ⟨hne, hkey⟩ := not_or.mp (fun hmem => hkey (List.mem_cons.mpr hmem))
    rw [ih h hkey, Table.find?_insert_of_ne hne]

theorem contains_convertFields {fields : List (String × Shape)} {v : Value} {done out : Bindings}
    (h : convertFields fields v done = .ok out) (key : String) :
    Table.contains key out = true ↔ Table.contains key done = true ∨ key ∈ Table.keys fields := by
  induction fields generalizing done with
  | nil =>
    simp only [convertFields] at h
    cases h
    simp [Table.keys]
  | cons field fields ih =>
    obtain ⟨name, shape⟩ := field
    obtain ⟨w, -, h⟩ := convertFields_eq_ok.mp h
    have hkeys : key ∈ Table.keys ((name, shape) :: fields) ↔ key = name ∨ key ∈ Table.keys fields :=
      List.mem_cons
    rw [ih h, Table.contains_insert, hkeys]
    tauto

theorem convertEntries_forall {keyShape : Shape}
    {key value : Value → Except ConversionError Value} {P : String × Value → Prop}
    {rest done out : Bindings} (h : convertEntries keyShape key value done rest = .ok out)
    (hdone : ∀ e ∈ done, P e) (hrest : ∀ e ∈ rest, ∀ c w, key (.str e.1) = .ok c →
      value e.2 = .ok w → P (c.display, w)) : ∀ e ∈ out, P e := by
  induction rest generalizing done with
  | nil =>
    simp only [convertEntries] at h
    cases h
    exact hdone
  | cons entry rest ih =>
    obtain ⟨k, v⟩ := entry
    obtain ⟨c, w, hc, hw, -, h⟩ := convertEntries_eq_ok.mp h
    refine ih h (fun e he => ?_) fun e he => hrest e (List.mem_cons_of_mem _ he)
    rcases Table.mem_of_mem_insert he with rfl | he
    · exact hrest (k, v) List.mem_cons_self c w hc hw
    · exact hdone e he

mutual

theorem conforms_of_convert : ∀ (shape : Shape) {v w : Value}, convert shape v = .ok w →
    shape.settled.Conforms w
  | .any, _, _, _ => by simp only [settled, Conforms]
  | .bool, v, w, h => by
    simp only [convert] at h
    cases h
    simp only [settled, Conforms]
    exact ⟨_, rfl⟩
  | .int, v, w, h => by
    simp only [convert, orMismatch_eq_ok, Option.map_eq_some_iff] at h
    obtain ⟨n, -, rfl⟩ := h
    simp only [settled, Conforms]
    exact ⟨n, rfl⟩
  | .float, v, w, h => by
    simp only [convert, orMismatch_eq_ok, Option.map_eq_some_iff] at h
    obtain ⟨x, -, rfl⟩ := h
    simp only [settled, Conforms]
    exact ⟨x, rfl⟩
  | .number, v, w, h => by
    simp only [convert, orMismatch_eq_ok] at h
    simp only [settled, Conforms]
    exact v.canonical.toNumber?_eq_some h
  | .string, v, w, h => by
    simp only [convert] at h
    cases h
    simp only [settled, Conforms]
    exact ⟨_, rfl⟩
  | .time, v, w, h => by
    simp only [convert, map_eq_ok] at h
    obtain ⟨t, -, rfl⟩ := h
    simp only [settled, Conforms]
    exact ⟨t, rfl⟩
  | .list element, v, w, h => by
    simp only [settled, Conforms]
    have hitems {vs ws : List Value} (hvs : vs.mapM (convert element) = .ok ws) :
        ∀ item ∈ ws, element.settled.Conforms item := by
      intro item hitem
      obtain ⟨u, -, hu⟩ := exists_of_mem_mapM hvs hitem
      exact conforms_of_convert element hu
    simp only [convert] at h
    split at h
    · split at h
      · rename_i hany
        cases h
        exact ⟨_, rfl, fun item _ => conforms_of_isAny hany item⟩
      · obtain ⟨ws, hws, rfl⟩ := map_eq_ok.mp h
        exact ⟨ws, rfl, hitems hws⟩
    · obtain ⟨ws, hws, rfl⟩ := map_eq_ok.mp h
      exact ⟨ws, rfl, hitems hws⟩
    · cases h
  | .map key value, v, w, h => by
    simp only [settled, Conforms]
    simp only [convert] at h
    split at h
    · split at h
      · rename_i hany
        cases h
        rw [Bool.and_eq_true] at hany
        exact ⟨_, rfl, fun entry _ => conforms_of_isAny hany.2 entry.2⟩
      · obtain ⟨out, hout, rfl⟩ := map_eq_ok.mp h
        refine ⟨out, rfl, convertEntries_forall (P := fun e => value.settled.Conforms e.2) hout
          (fun _ hmem => (List.not_mem_nil hmem).elim) fun _ _ _ _ _ hw => ?_⟩
        exact conforms_of_convert value hw
    · cases h
  | .record fields, v, w, h => by
    simp only [settled, Conforms]
    have hfields {u : Value} {out : Bindings} (hout : convertFields fields u [] = .ok out) :
        (∀ key, Table.contains key out = true ↔ key ∈ Table.keys (settledFields fields)) ∧
          FieldsConform (settledFields fields) out := by
      refine ⟨fun key => ?_, convertFields_conforms fields hout⟩
      rw [contains_convertFields hout, mem_keys_settledFields]
      simp [Table.contains]
    simp only [convert] at h
    split at h
    · obtain ⟨out, hout, rfl⟩ := map_eq_ok.mp h
      exact ⟨out, rfl, hfields hout⟩
    · obtain ⟨out, hout, rfl⟩ := map_eq_ok.mp h
      exact ⟨out, rfl, hfields hout⟩
    · cases h
  | .optional inner, v, w, h => by
    simp only [convert] at h
    simp only [settled, Conforms]
    split at h
    · cases h
      exact .inl rfl
    · exact .inr (conforms_of_convert inner h)

theorem convertFields_conforms : ∀ (fields : List (String × Shape)) {v : Value}
    {done out : Bindings}, convertFields fields v done = .ok out →
    FieldsConform (settledFields fields) out
  | [], _, _, _, _ => by simp only [settledFields, FieldsConform]
  | (name, shape) :: fields, v, done, out, h => by
    obtain ⟨w, hw, h⟩ := convertFields_eq_ok.mp h
    have hrest := convertFields_conforms fields h
    simp only [settledFields]
    split
    · exact hrest
    · rename_i hname
      simp only [FieldsConform]
      refine ⟨⟨w, ?_, conforms_of_convert shape hw⟩, hrest⟩
      rw [find?_convertFields h hname, Table.find?_insert_self]

end

end Shape

theorem Filter.conforms_of_convertArgs {filter : String} {position : Nat} {shapes : List Shape}
    {args ws : List Value} (hlength : args.length = shapes.length)
    (h : convertArgs filter position shapes args = .ok ws) :
    List.Forall₂ (fun shape w => shape.settled.Conforms w) shapes ws := by
  induction shapes generalizing position args ws with
  | nil =>
    cases h
    exact .nil
  | cons shape shapes ih =>
    cases args with
    | nil => cases hlength
    | cons v args =>
      simp only [convertArgs, bind_eq_ok, mapError_eq_ok] at h
      obtain ⟨w, hw, rest, hrest, h⟩ := h
      cases h
      exact .cons (Shape.conforms_of_convert shape hw) (ih (Nat.succ.inj hlength) hrest)

/-- A call either fails whatever the function of the filter is, or passes it converted arguments. -/
theorem Filter.call_cases (f : Filter) (args : List Value) (named : Bindings) :
    (∃ converted, List.Forall₂ (fun shape w => shape.settled.Conforms w) f.params converted ∧
      ∀ run, { f with run }.call args named =
        (run converted named).mapError (⟨.filter f.name ·, none⟩)) ∨
    ∃ e, ∀ run, { f with run }.call args named = .error e := by
  by_cases hmany : f.params.length < args.length
  · refine .inr ⟨⟨.filter f.name (.tooManyArguments (f.params.length - 1) (args.length - 1)), none⟩,
      fun run => ?_⟩
    simp only [call, if_pos hmany]
    rfl
  · have hlength : (args ++ List.replicate (f.params.length - args.length) Value.nil).length =
        f.params.length := by
      rw [List.length_append, List.length_replicate]
      omega
    cases hconvert : convertArgs f.name 0 f.params
        (args ++ List.replicate (f.params.length - args.length) .nil) with
    | error e =>
      refine .inr ⟨⟨.conversion e, none⟩, fun run => ?_⟩
      simp only [call, if_neg hmany, hconvert]
      rfl
    | ok converted =>
      refine .inl ⟨converted, conforms_of_convertArgs hlength hconvert, fun run => ?_⟩
      simp only [call, if_neg hmany, hconvert]
      rfl

/-- What a conversion gives has the shape asked for, the last one of a name that a record repeats.
The function of a filter gets one argument in the shape of each parameter, or nothing. -/
theorem convert_conforms :
    (∀ (shape : Shape) (v w : Value), shape.convert v = .ok w →
      shape.settled.Conforms w ∧ (shape.DistinctFields → shape.Conforms w)) ∧
    ∀ (f : Filter) (args : List Value) (named : Bindings),
      (∃ converted, converted.length = f.params.length ∧
        List.Forall₂ (fun shape w => shape.settled.Conforms w) f.params converted ∧
        ∀ run, { f with run }.call args named =
          (run converted named).mapError (⟨.filter f.name ·, none⟩)) ∨
      ∃ e, ∀ run, { f with run }.call args named = .error e := by
  refine ⟨fun shape v w h => ?_, fun f args named => ?_⟩
  · have hsettled := shape.conforms_of_convert h
    refine ⟨hsettled, fun hdistinct => ?_⟩
    rwa [shape.settled_of_distinct hdistinct] at hsettled
  · rcases f.call_cases args named with ⟨converted, hall, hcall⟩ | hfail
    · exact .inl ⟨converted, hall.length_eq.symm, hall, hcall⟩
    · exact .inr hfail

/-- Texts become the integers that a list is asked for. -/
theorem convert_conforms_list :
    (Shape.list .int).settled.Conforms (.list [.int 1, .int (-2)]) ∧
      (Shape.list .int).Conforms (.list [.int 1, .int (-2)]) := by
  have h := convert_conforms.1 (.list .int) (.list [.str "1", .str "-2"]) _ rfl
  exact ⟨h.1, h.2 (by simp only [Shape.DistinctFields])⟩

/-- A record that names a field twice gives it the second shape only. -/
theorem convert_repeated_field :
    let shape : Shape := .record [("a", .int), ("a", .string)]
    shape.convert (.map [("a", .int 1)]) = .ok (.map [("a", .str "1")]) ∧
      ¬ shape.Conforms (.map [("a", .str "1")]) := by
  intro shape
  refine ⟨rfl, fun h => ?_⟩
  simp only [shape, Shape.Conforms, Shape.FieldsConform] at h
  obtain ⟨entries, hentries, -, ⟨v, hv, n, rfl⟩, -⟩ := h
  cases hentries
  cases hv

end Stencil
