import Mathlib
import Stencil.Proofs.Shapes
import Stencil.Proofs.Shortest

/-!
# Converting twice

A converted value is not changed by the same conversion. The keys of a map are texts before and after
a conversion, so what matters for them is that the text of a converted key converts to a key of the
same text: for integers this is so, for floats and times it rests on what reading makes of the texts
that they are displayed as.
-/
namespace Stencil

namespace Value

/-- Where a value occurs in another one: it is that value, or an element, a member, a field or the
hook of one that occurs there. -/
inductive Within (v : Value) : Value → Prop where
  | refl : Within v v
  | item {items : List Value} {w : Value} : w ∈ items → Within v w → Within v (.list items)
  | entry {entries : Bindings} {e : String × Value} :
    e ∈ entries → Within v e.2 → Within v (.map entries)
  | field {id : Nat} {name : String} {fields : Bindings} {hook : Option Value} {e : String × Value} :
    e ∈ fields → Within v e.2 → Within v (.object id name fields hook)
  | hook {id : Nat} {name : String} {fields : Bindings} {w : Value} :
    Within v w → Within v (.object id name fields (some w))

/-- A text that states a float or a time comes back from what that is displayed as. -/
structure ReadsBack (key : String) : Prop where
  float : ∀ x, Decimal.readFloat? key = some x → Decimal.readFloat? (Decimal.display x) = some x
  time : ∀ t, readTime key = .ok t → ∃ u, readTime t.display = .ok u ∧ u.display = t.display

/-- The hook of an object is no object, and the keys of maps come back from what they are displayed
as, at any depth. -/
structure Faithful (x : Value) : Prop where
  hooks : ∀ {id name fields v}, Within (.object id name fields (some v)) x → v.isObject = false
  keys : ∀ {entries}, Within (.map entries) x → ∀ entry ∈ entries, ReadsBack entry.1

namespace Faithful

theorem nil : Faithful .nil := ⟨nofun, nofun⟩

theorem int (n : Int64) : Faithful (.int n) := ⟨nofun, nofun⟩

theorem ofNat (n : Nat) : Faithful (ofNat n) := by
  simp only [Value.ofNat]
  split
  · exact int _
  · exact int _

variable {x : Value}

theorem item {items : List Value} (h : Faithful (.list items)) (hx : x ∈ items) : x.Faithful :=
  ⟨fun hw => h.hooks (.item hx hw), fun hw => h.keys (.item hx hw)⟩

theorem entry {entries : Bindings} (h : Faithful (.map entries)) {e : String × Value}
    (he : e ∈ entries) : e.2.Faithful :=
  ⟨fun hw => h.hooks (.entry he hw), fun hw => h.keys (.entry he hw)⟩

theorem field {id : Nat} {name : String} {fields : Bindings} {hook : Option Value}
    (h : Faithful (.object id name fields hook)) {e : String × Value} (he : e ∈ fields) :
    e.2.Faithful :=
  ⟨fun hw => h.hooks (.field he hw), fun hw => h.keys (.field he hw)⟩

theorem hook {id : Nat} {name : String} {fields : Bindings}
    (h : Faithful (.object id name fields (some x))) : x.Faithful :=
  ⟨fun hw => h.hooks (.hook hw), fun hw => h.keys (.hook hw)⟩

theorem canonical (h : x.Faithful) : x.canonical.Faithful := by
  cases x with
  | object id name fields hook =>
    cases hook with
    | none => exact h
    | some v => exact h.hook
  | nil | bool | int | float | str | time | list | map => exact h

theorem canonical_canonical (h : x.Faithful) : x.canonical.canonical = x.canonical := by
  cases x with
  | object id name fields hook =>
    cases hook with
    | none => rfl
    | some v =>
      have hv : v.isObject = false := h.hooks .refl
      cases v with
      | object => cases hv
      | nil | bool | int | float | str | time | list | map => rfl
  | nil | bool | int | float | str | time | list | map => rfl

theorem property {key : String} : ∀ {x : Value}, x.Faithful → ∀ v ∈ x.property key, v.Faithful
  | .map entries, h, v, hv => by
    simp only [Value.property] at hv
    split at hv
    · rename_i found hfound
      cases hv
      exact h.entry (Table.mem_of_find? hfound)
    · split at hv
      · cases hv
        exact ofNat _
      · cases hv
  | .list items, h, v, hv => by
    simp only [Value.property] at hv
    split at hv
    · cases hv
      exact ofNat _
    · split at hv
      · exact h.item (List.mem_of_head? hv)
      · split at hv
        · exact h.item (List.mem_of_getLast? hv)
        · cases hv
  | .str s, h, v, hv => by
    simp only [Value.property] at hv
    split at hv
    · cases hv
      exact ofNat _
    · cases hv
  | .object id name fields (some hook), h, v, hv => by
    simp only [Value.property] at hv
    rcases Option.or_eq_some_iff.mp hv with hfound | ⟨-, hv⟩
    · exact h.field (Table.mem_of_find? hfound)
    · exact h.hook.property v hv
  | .object id name fields none, h, v, hv => by
    simp only [Value.property] at hv
    exact h.field (Table.mem_of_find? hv)

end Faithful

end Value

namespace Shape

open Value (Faithful ReadsBack)

/-- The text of a converted key converts to a key of the same text. -/
theorem convert_key_again : ∀ (shape : Shape) {key : String} {c : Value}, ReadsBack key →
    convert shape (.str key) = .ok c →
    ∃ c', convert shape (.str c.display) = .ok c' ∧ c'.display = c.display
  | .any, key, c, _, h => by
    simp only [convert, Value.canonical] at h
    cases h
    exact ⟨_, rfl, rfl⟩
  | .bool, key, c, _, h => by
    simp only [convert, Value.canonical, Value.isTruthy] at h
    cases h
    exact ⟨_, rfl, rfl⟩
  | .int, key, c, _, h => by
    simp only [convert, Value.canonical, Value.toInt?, orMismatch_eq_ok, Option.map_eq_some_iff] at h
    obtain ⟨n, -, rfl⟩ := h
    refine ⟨.int n, ?_, rfl⟩
    simp only [convert, Value.canonical, Value.toInt?, Value.display, Decimal.readInt64?_intText]
    rfl
  | .float, key, c, hkey, h => by
    simp only [convert, Value.canonical, Value.toFloat?, orMismatch_eq_ok,
      Option.map_eq_some_iff] at h
    obtain ⟨x, hx, rfl⟩ := h
    refine ⟨.float x, ?_, rfl⟩
    simp only [convert, Value.canonical, Value.toFloat?, Value.display, hkey.float x hx]
    rfl
  | .number, key, c, hkey, h => by
    simp only [convert, Value.canonical, Value.toNumber?, orMismatch_eq_ok] at h
    rcases Option.or_eq_some_iff.mp h with hint | ⟨-, hfloat⟩
    · obtain ⟨n, -, rfl⟩ := Option.map_eq_some_iff.mp hint
      refine ⟨.int n, ?_, rfl⟩
      simp only [convert, Value.canonical, Value.toNumber?, Value.display,
        Decimal.readInt64?_intText]
      rfl
    · obtain ⟨x, hx, rfl⟩ := Option.map_eq_some_iff.mp hfloat
      simp only [convert, Value.canonical, Value.toNumber?, Value.display, hkey.float x hx]
      -- a whole float may be displayed as an integer, and is one when it is read again
      cases hn : Decimal.readInt64? (Decimal.display x) with
      | none => exact ⟨.float x, rfl, rfl⟩
      | some n => exact ⟨.int n, rfl, Decimal.display_of_readInt64? hn⟩
  | .string, key, c, _, h => by
    simp only [convert, Value.canonical] at h
    cases h
    exact ⟨_, rfl, rfl⟩
  | .time, key, c, hkey, h => by
    simp only [convert, Value.canonical, Value.toTime, map_eq_ok] at h
    obtain ⟨t, ht, rfl⟩ := h
    obtain ⟨u, hu, hdisplay⟩ := hkey.time t ht
    refine ⟨.time u, ?_, ?_⟩
    · simp only [convert, Value.canonical, Value.toTime, Value.display, hu]
      rfl
    · simp only [Value.display, hdisplay]
  | .list element, key, c, _, h => by
    simp only [convert, Value.canonical] at h
    cases h
  | .map k v, key, c, _, h => by
    simp only [convert, Value.canonical] at h
    cases h
  | .record fields, key, c, _, h => by
    simp only [convert, Value.canonical] at h
    cases h
  | .optional inner, key, c, hkey, h => by
    simp only [convert, Value.canonical, Value.isNil, Bool.false_eq_true, if_false] at h
    obtain ⟨c', hc, hdisplay⟩ := convert_key_again inner hkey h
    refine ⟨c', ?_, hdisplay⟩
    simp only [convert, Value.canonical, Value.isNil, Bool.false_eq_true, if_false, hc]

theorem convertEntries_sorted {keyShape : Shape}
    {key value : Value → Except ConversionError Value} {rest done out : Bindings}
    (h : convertEntries keyShape key value done rest = .ok out) (hdone : Table.Sorted done) :
    Table.Sorted out := by
  induction rest generalizing done with
  | nil =>
    simp only [convertEntries] at h
    cases h
    exact hdone
  | cons entry rest ih =>
    obtain ⟨k, v⟩ := entry
    obtain ⟨c, w, -, -, -, h⟩ := convertEntries_eq_ok.mp h
    exact ih h (hdone.insert c.display w)

/-- Entries in order that convert to themselves are put together as they are. -/
theorem convertEntries_self {keyShape : Shape} {key value : Value → Except ConversionError Value}
    {rest done : Bindings} (hsorted : Table.Sorted (done ++ rest))
    (hrest : ∀ e ∈ rest, (∃ c, key (.str e.1) = .ok c ∧ c.display = e.1) ∧ value e.2 = .ok e.2) :
    convertEntries keyShape key value done rest = .ok (done ++ rest) := by
  induction rest generalizing done with
  | nil =>
    simp only [convertEntries, List.append_nil]
  | cons entry rest ih =>
    obtain ⟨k, v⟩ := entry
    obtain ⟨⟨c, hc, hdisplay⟩, hv⟩ := hrest (k, v) List.mem_cons_self
    have hlt : ∀ l ∈ Table.keys done, l < k := by
      intro l hl
      rw [Table.Sorted, Table.keys, List.map_append, List.pairwise_append] at hsorted
      exact hsorted.2.2 l hl k List.mem_cons_self
    have hnew : Table.contains c.display done = false := by
      rw [hdisplay, Bool.eq_false_iff]
      exact fun hmem => lt_irrefl k (hlt k (Table.contains_iff_mem_keys.mp hmem))
    refine convertEntries_eq_ok.mpr ⟨c, v, hc, hv, hnew, ?_⟩
    rw [hdisplay, Table.insert_of_forall_lt hlt, List.append_cons done (k, v) rest]
    refine ih ?_ fun e he => hrest e (List.mem_cons_of_mem _ he)
    rwa [← List.append_cons done (k, v) rest]

/-- What a conversion gives is no object that stands for something else. -/
theorem canonical_of_convert : ∀ (shape : Shape) {v w : Value}, v.Faithful →
    convert shape v = .ok w → w.canonical = w
  | .any, v, w, hv, h => by
    simp only [convert] at h
    cases h
    exact hv.canonical_canonical
  | .optional inner, v, w, hv, h => by
    simp only [convert] at h
    split at h
    · cases h
      rfl
    · exact canonical_of_convert inner hv.canonical h
  | .number, v, w, _, h => by
    have hw := conforms_of_convert .number h
    simp only [settled, Conforms] at hw
    rcases hw with ⟨n, rfl⟩ | ⟨x, rfl⟩
    · rfl
    · rfl
  | .bool, v, w, _, h | .int, v, w, _, h | .float, v, w, _, h | .string, v, w, _, h
  | .time, v, w, _, h => by
    have hw := conforms_of_convert _ h
    simp only [settled, Conforms] at hw
    obtain ⟨_, rfl⟩ := hw
    rfl
  | .list _, v, w, _, h | .map _ _, v, w, _, h | .record _, v, w, _, h => by
    have hw := conforms_of_convert _ h
    simp only [settled, Conforms] at hw
    obtain ⟨_, rfl, _⟩ := hw
    rfl

mutual

theorem convert_again : ∀ (shape : Shape) {v w : Value}, shape.DistinctFields → v.Faithful →
    convert shape v = .ok w → convert shape w = .ok w
  | .any, v, w, _, hv, h => by
    have hw := canonical_of_convert .any hv h
    simp only [convert, hw]
  | .bool, v, w, _, _, h => by
    simp only [convert] at h
    cases h
    rfl
  | .int, v, w, _, _, h => by
    simp only [convert, orMismatch_eq_ok, Option.map_eq_some_iff] at h
    obtain ⟨n, -, rfl⟩ := h
    rfl
  | .float, v, w, _, _, h => by
    simp only [convert, orMismatch_eq_ok, Option.map_eq_some_iff] at h
    obtain ⟨x, -, rfl⟩ := h
    rfl
  | .number, v, w, _, _, h => by
    simp only [convert, orMismatch_eq_ok] at h
    rcases Value.toNumber?_eq_some h with ⟨n, rfl⟩ | ⟨x, rfl⟩
    · rfl
    · rfl
  | .string, v, w, _, _, h => by
    simp only [convert] at h
    cases h
    rfl
  | .time, v, w, _, _, h => by
    simp only [convert, map_eq_ok] at h
    obtain ⟨t, -, rfl⟩ := h
    rfl
  | .list element, v, w, hd, hv, h => by
    simp only [DistinctFields] at hd
    have hcanonical := hv.canonical
    have hitems {vs ws : List Value} (hvs : ∀ u ∈ vs, u.Faithful)
        (hws : vs.mapM (convert element) = .ok ws) :
        convert (.list element) (.list ws) = .ok (.list ws) := by
      have hagain : ws.mapM (convert element) = .ok ws := by
        refine mapM_eq_ok.mpr (List.forall₂_same.mpr fun w hw => ?_)
        obtain ⟨u, hu, huw⟩ := exists_of_mem_mapM hws hw
        exact convert_again element hd (hvs u hu) huw
      simp only [convert, Value.canonical, hagain]
      split
      · rfl
      · rfl
    simp only [convert] at h
    split at h
    · rename_i items hlist
      rw [hlist] at hcanonical
      split at h
      · rename_i hany
        cases h
        simp only [convert, Value.canonical, hany, if_true]
      · obtain ⟨ws, hws, rfl⟩ := map_eq_ok.mp h
        exact hitems (fun u hu => hcanonical.item hu) hws
    · rename_i entries hmap
      rw [hmap] at hcanonical
      obtain ⟨ws, hws, rfl⟩ := map_eq_ok.mp h
      refine hitems (fun u hu => ?_) hws
      obtain ⟨e, he, rfl⟩ := List.mem_map.mp hu
      exact hcanonical.entry he
    · cases h
  | .map key value, v, w, hd, hv, h => by
    simp only [DistinctFields] at hd
    have hcanonical := hv.canonical
    simp only [convert] at h
    split at h
    · rename_i entries hmap
      rw [hmap] at hcanonical
      split at h
      · rename_i hany
        cases h
        simp only [convert, Value.canonical, hany, if_true]
      · rename_i hany
        obtain ⟨out, hout, rfl⟩ := map_eq_ok.mp h
        have hself : convertEntries key (convert key) (convert value) [] out = .ok out := by
          refine convertEntries_self (convertEntries_sorted hout .nil) ?_
          refine convertEntries_forall (P := fun e =>
            (∃ c, convert key (.str e.1) = .ok c ∧ c.display = e.1) ∧
              convert value e.2 = .ok e.2) hout nofun fun e he c u hc hu => ?_
          exact ⟨convert_key_again key (hcanonical.keys .refl e he) hc,
            convert_again value hd.2 (hcanonical.entry he) hu⟩
        simp only [convert, Value.canonical, hany, Bool.false_eq_true, if_false, hself]
        rfl
    · cases h
  | .record fields, v, w, hd, hv, h => by
    simp only [DistinctFields] at hd
    have hcanonical := hv.canonical
    have hfields {u : Value} (hu : u.Faithful) {out : Bindings}
        (hout : convertFields fields u [] = .ok out) : convert (.record fields) (.map out) =
          .ok (.map out) := by
      simp only [convert, Value.canonical, convertFields_again fields hd.1 hd.2 hu hout]
      rfl
    simp only [convert] at h
    split at h
    · rename_i entries hmap
      rw [hmap] at hcanonical
      obtain ⟨out, hout, rfl⟩ := map_eq_ok.mp h
      exact hfields hcanonical hout
    · rename_i id name own hook hobject
      rw [hobject] at hcanonical
      obtain ⟨out, hout, rfl⟩ := map_eq_ok.mp h
      exact hfields hcanonical hout
    · cases h
  | .optional inner, v, w, hd, hv, h => by
    simp only [DistinctFields] at hd
    have hw := canonical_of_convert (.optional inner) hv h
    simp only [convert] at h ⊢
    rw [hw]
    split at h
    · cases h
      rfl
    · split
      · rename_i hnil
        cases w with
        | nil => rfl
        | bool | int | float | str | time | list | map | object => cases hnil
      · exact convert_again inner hd hv.canonical h

theorem convertFields_again : ∀ (fields : List (String × Shape)) {v : Value}
    {done out : Bindings}, (Table.keys fields).Nodup → EachDistinct fields → v.Faithful →
    convertFields fields v done = .ok out → convertFields fields (.map out) done = .ok out
  | [], _, _, _, _, _, _, h => by
    simp only [convertFields] at h ⊢
    exact h
  | (name, shape) :: fields, v, done, out, hn, hd, hv, h => by
    obtain ⟨hname, hn⟩ := List.nodup_cons.mp hn
    simp only [EachDistinct] at hd
    obtain ⟨w, hw, h⟩ := convertFields_eq_ok.mp h
    have hfield : Table.find? name out = some w := by
      rw [find?_convertFields h hname, Table.find?_insert_self]
    have hproperty : (Value.map out).property name = some w := by
      simp only [Value.property, hfield]
    have hu : ((v.property name).getD .nil).Faithful := by
      cases hp : v.property name with
      | none => exact .nil
      | some u => exact hv.property u hp
    refine convertFields_eq_ok.mpr ⟨w, ?_, convertFields_again fields hn hd.2 hv h⟩
    rw [hproperty]
    exact convert_again shape hd.1 hu hw

end

end Shape

/-- Converting a value that was converted changes nothing, where no hook is an object, records name
each field once, and keys come back from what they are displayed as. -/
theorem convert_idempotent {shape : Shape} {x y : Value} (hshape : shape.DistinctFields)
    (hhooks : ∀ id name fields v, Value.Within (.object id name fields (some v)) x →
      v.isObject = false)
    (hkeys : ∀ entries, Value.Within (.map entries) x → ∀ e ∈ entries, Value.ReadsBack e.1)
    (h : shape.convert x = .ok y) : shape.convert y = .ok y :=
  shape.convert_again hshape ⟨hhooks _ _ _ _, hkeys _⟩ h

theorem Value.readTime_of_read? {s : String} {t : Time.Moment}
    (htrim : Text.trim s.toList = s.toList) (hnow : s.toList ≠ "now".toList)
    (htoday : s.toList ≠ "today".toList) (h : Time.Moment.read? s.toList = some t) :
    readTime s = .ok t := by
  simp only [readTime, htrim, h, hnow, htoday, decide_false, Bool.or_self, Bool.false_eq_true,
    if_false]

/-- An object that stands for a map from a date to a list, as a map from times to integers. -/
theorem convert_idempotent_dates :
    let shape : Shape := .map .time (.list .int)
    let x : Value := .object 0 "page" [] (some (.map [("2024-01-02", .list [.str "1", .bool true])]))
    let y : Value := .map [("2024-01-02 00:00:00 +0000", .list [.int 1, .int 1])]
    shape.convert x = .ok y ∧ shape.convert y = .ok y := by
  intro shape x y
  let t : Time.Moment := ⟨19724, 0, 0, 0⟩
  have hread : Value.readTime "2024-01-02" = .ok t :=
    Value.readTime_of_read? (by decide +kernel) (by decide) (by decide) (by decide +kernel)
  have hagain : Value.readTime "2024-01-02 00:00:00 +0000" = .ok t :=
    Value.readTime_of_read? (by decide +kernel) (by decide) (by decide) (by decide +kernel)
  have hdisplay : t.display = "2024-01-02 00:00:00 +0000" := by decide +kernel
  have hkey : Value.ReadsBack "2024-01-02" := by
    refine ⟨fun f hf => ?_, fun u hu => ⟨t, ?_, ?_⟩⟩
    · rw [show Decimal.readFloat? "2024-01-02" = none by decide] at hf
      cases hf
    · obtain rfl : t = u := Except.ok.inj (hread.symm.trans hu)
      rw [hdisplay, hagain]
    · obtain rfl : t = u := Except.ok.inj (hread.symm.trans hu)
      rfl
  have hx : shape.convert x = .ok y := by
    have htime : Shape.time.convert (.str "2024-01-02") = .ok (.time t) := by
      simp only [Shape.convert, Value.canonical, Value.toTime, hread]
      rfl
    have hentries : Shape.convertEntries .time Shape.time.convert (Shape.list .int).convert []
        [("2024-01-02", .list [.str "1", .bool true])] =
        .ok (Table.insert t.display (.list [.int 1, .int 1]) []) :=
      Shape.convertEntries_eq_ok.mpr ⟨.time t, .list [.int 1, .int 1], htime, rfl, rfl, rfl⟩
    calc shape.convert x
        = (Shape.convertEntries .time Shape.time.convert (Shape.list .int).convert []
            [("2024-01-02", .list [.str "1", .bool true])]).map .map := by rw [Shape.convert]; rfl
      _ = .ok y := by rw [hentries, hdisplay]; rfl
  refine ⟨hx, convert_idempotent ?_ ?_ ?_ hx⟩
  · simp only [shape, Shape.DistinctFields, and_self]
  · intro id name fields v hv
    simp only [x] at hv
    cases hv with
    | refl => rfl
    | field he => cases he
    | hook hv =>
      cases hv with
      | entry he hv =>
        rw [List.mem_singleton.mp he] at hv
        cases hv with
        | item hi hv => rcases List.mem_pair.mp hi with rfl | rfl <;> cases hv
  · intro entries hentries e he
    simp only [x] at hentries
    cases hentries with
    | field he => cases he
    | hook hv =>
      cases hv with
      | refl =>
        rw [List.mem_singleton.mp he]
        exact hkey
      | entry he hv =>
        rw [List.mem_singleton.mp he] at hv
        cases hv with
        | item hi hv => rcases List.mem_pair.mp hi with rfl | rfl <;> cases hv

end Stencil
