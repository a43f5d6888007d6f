import Mathlib.Data.List.Nodup
import Stencil.Proofs.Reconversion
import Stencil.Proofs.StandIns

/-!
# Conversion of collections

A list or a map is converted as a whole or not at all, and none of its elements is lost. Collections
whose elements may be anything are passed on as they are; where no element is an object with a hook,
that is what converting the elements one by one gives.
-/
namespace Stencil

namespace Shape

/-- The text that a key becomes. -/
def keyText (key : Shape) (k : String) : Except ConversionError String :=
  (key.convert (.str k)).map Value.display

/-- What an entry of a map becomes. -/
def Becomes (key value : Shape) (entry image : String × Value) : Prop :=
  key.keyText entry.1 = .ok image.1 ∧ value.convert entry.2 = .ok image.2

/-- All items are converted, each in its place, or none is. -/
structure ConvertsEach (element : Shape) (items : List Value)
    (result : Except ConversionError Value) : Prop where
  succeeds : (∃ out, result = .ok out) ↔ ∀ v ∈ items, ∃ w, element.convert v = .ok w
  images : ∀ out, result = .ok out → ∃ ws, out = .list ws ∧ ws.length = items.length ∧
    ∀ (i : Nat) (h : i < items.length) (h' : i < ws.length), element.convert items[i] = .ok ws[i]

/-- All entries are converted, to as many others, or none is. -/
structure ConvertsEntries (key value : Shape) (entries : Bindings)
    (result : Except ConversionError Value) : Prop where
  succeeds : (∃ out, result = .ok out) ↔
    (∀ k ∈ Table.keys entries, ∃ text, key.keyText k = .ok text) ∧
      (∀ e ∈ entries, ∃ w, value.convert e.2 = .ok w) ∧
      ∀ k ∈ Table.keys entries, ∀ l ∈ Table.keys entries, key.keyText k = key.keyText l → k = l
  images : ∀ out, result = .ok out → ∃ members, out = .map members ∧ Table.Sorted members ∧
    members.length = entries.length ∧ (∀ m ∈ members, ∃! e, e ∈ entries ∧ Becomes key value e m) ∧
    ∀ e ∈ entries, ∃ m ∈ members, Becomes key value e m

theorem convert_of_acceptsKeys {key : Shape} (h : key.acceptsKeys = true) (k : String) :
    key.convert (.str k) = .ok (.str k) := by
  cases key with
  | any | string => rfl
  | bool | int | float | number | time | list | map | record | optional => cases h

theorem convert_canonical_of_isAny {shape : Shape} (h : shape.isAny = true) (v : Value) :
    shape.convert v = .ok v.canonical := by
  cases shape with
  | any => simp only [convert]
  | bool | int | float | number | string | time | list | map | record | optional => cases h

theorem convert_of_isAny {shape : Shape} (h : shape.isAny = true) {v : Value}
    (hv : v.isHooked = false) : shape.convert v = .ok v := by
  rw [convert_canonical_of_isAny h, Value.canonical_eq_self_iff.mpr hv]

section

variable {element : Shape} {items : List Value}

theorem convert_list_map (element : Shape) (entries : Bindings) :
    convert (.list element) (.map entries) =
      ((entries.map Prod.snd).mapM (convert element)).map .list := by
  simp only [convert, Value.canonical]

theorem convert_list_of_not_any (h : element.isAny = false) (items : List Value) :
    convert (.list element) (.list items) = (items.mapM (convert element)).map .list := by
  simp only [convert, Value.canonical, h, Bool.false_eq_true, if_false]

theorem convert_list_of_any (h : element.isAny = true) (items : List Value) :
    convert (.list element) (.list items) = .ok (.list items) := by
  simp only [convert, Value.canonical, h, if_true]

/-- A list that is passed on as it is has each of its elements converted. -/
theorem convert_list_of_unhooked (h : ∀ v ∈ items, v.isHooked = false) :
    convert (.list element) (.list items) = (items.mapM (convert element)).map .list := by
  cases hany : element.isAny with
  | false => exact convert_list_of_not_any hany items
  | true =>
    have hsame : items.mapM (convert element) = .ok items :=
      mapM_eq_ok.mpr (List.forall₂_same.mpr fun v hv => convert_of_isAny hany (h v hv))
    rw [convert_list_of_any hany, hsame]
    rfl

theorem convertsEach_mapM :
    ConvertsEach element items ((items.mapM (convert element)).map .list) := by
  constructor
  · rw [← exists_forall₂_iff]
    simp only [map_eq_ok, mapM_eq_ok]
    constructor
    · rintro ⟨_, ws, hws, -⟩
      exact ⟨ws, hws⟩
    · rintro ⟨ws, hws⟩
      exact ⟨_, ws, hws, rfl⟩
  · intro out hout
    obtain ⟨ws, hws, rfl⟩ := map_eq_ok.mp hout
    obtain ⟨hlength, hget⟩ := List.forall₂_iff_get.mp (mapM_eq_ok.mp hws)
    exact ⟨ws, rfl, hlength.symm, hget⟩

end

section

variable {key value : Shape} {entries done images out : Bindings}

/-- A map that is passed on as it is has each of its entries converted. -/
theorem convert_map_of_unhooked (hentries : Table.Sorted entries)
    (h : ∀ e ∈ entries, e.2.isHooked = false) :
    convert (.map key value) (.map entries) =
      (convertEntries key (convert key) (convert value) [] entries).map .map := by
  simp only [convert, Value.canonical]
  split
  · rename_i hany
    rw [Bool.and_eq_true] at hany
    have hsame : convertEntries key (convert key) (convert value) [] entries = .ok entries := by
      refine convertEntries_self (by simpa using hentries) fun e he => ?_
      exact ⟨⟨_, convert_of_acceptsKeys hany.1 e.1, rfl⟩, convert_of_isAny hany.2 (h e he)⟩
    rw [hsame]
    rfl
  · rfl

theorem convertEntries_becomes {e : String × Value} :
    convertEntries key (convert key) (convert value) done (e :: entries) = .ok out ↔
      ∃ m, Becomes key value e m ∧ m.1 ∉ Table.keys done ∧
        convertEntries key (convert key) (convert value) (Table.insert m.1 m.2 done) entries =
          .ok out := by
  rw [convertEntries_eq_ok]
  simp only [Becomes, keyText, map_eq_ok, Table.contains_eq_false_iff]
  constructor
  · rintro ⟨c, w, hc, hw, hnew, h⟩
    exact ⟨(c.display, w), ⟨⟨c, hc, rfl⟩, hw⟩, hnew, h⟩
  · rintro ⟨⟨_, w⟩, ⟨⟨c, hc, rfl⟩, hw⟩, hnew, h⟩
    exact ⟨c, w, hc, hw, hnew, h⟩

theorem insert_append_perm {m : String × Value} (hnew : m.1 ∉ Table.keys done) :
    (Table.insert m.1 m.2 done ++ images).Perm (done ++ m :: images) :=
  ((Table.insert_perm hnew m.2).append_right images).trans List.perm_middle.symm

/-- What is put together are the images of the entries. -/
theorem exists_images
    (h : convertEntries key (convert key) (convert value) done entries = .ok out) :
    ∃ images, List.Forall₂ (Becomes key value) entries images ∧ out.Perm (done ++ images) := by
  induction entries generalizing done with
  | nil =>
    simp only [convertEntries, Except.ok.injEq] at h
    exact ⟨[], .nil, by simp [h]⟩
  | cons e entries ih =>
    obtain ⟨m, hm, hnew, h⟩ := convertEntries_becomes.mp h
    obtain ⟨images, himages, hperm⟩ := ih h
    exact ⟨m :: images, .cons hm himages, hperm.trans (insert_append_perm hnew)⟩

/-- Images with keys of their own can be put together. -/
theorem convertEntries_of_images (himages : List.Forall₂ (Becomes key value) entries images)
    (hkeys : (Table.keys (done ++ images)).Nodup) :
    ∃ out, convertEntries key (convert key) (convert value) done entries = .ok out := by
  induction himages generalizing done with
  | nil => exact ⟨done, rfl⟩
  | @cons e m entries images hm _ ih =>
    have hnew : m.1 ∉ Table.keys done := by
      simp only [Table.keys, List.map_append, List.map_cons, List.nodup_append] at hkeys
      intro hmem
      exact hkeys.2.2 _ hmem _ List.mem_cons_self rfl
    have hlater : (Table.keys (Table.insert m.1 m.2 done ++ images)).Nodup :=
      ((insert_append_perm hnew).map Prod.fst).nodup_iff.mpr hkeys
    obtain ⟨out, hout⟩ := ih hlater
    exact ⟨out, convertEntries_becomes.mpr ⟨m, hm, hnew, hout⟩⟩

theorem keyTexts_of_images (himages : List.Forall₂ (Becomes key value) entries images) :
    (Table.keys entries).map key.keyText = (Table.keys images).map .ok := by
  induction himages with
  | nil => rfl
  | cons hm _ ih =>
    simp only [Table.keys, List.map_cons, List.cons.injEq] at ih ⊢
    exact ⟨hm.1, ih⟩

/-- The keys of the images differ when no two keys become the same text. -/
theorem nodup_keys_iff (hentries : Table.Sorted entries)
    (himages : List.Forall₂ (Becomes key value) entries images) :
    (Table.keys images).Nodup ↔ ∀ k ∈ Table.keys entries, ∀ l ∈ Table.keys entries,
      key.keyText k = key.keyText l → k = l := by
  have hok : Function.Injective (Except.ok : String → Except ConversionError String) :=
    fun _ _ => Except.ok.inj
  rw [← List.nodup_map_iff_inj_on hentries.nodup_keys, keyTexts_of_images himages,
    List.nodup_map_iff hok]

theorem exists_images_iff :
    (∃ images, List.Forall₂ (Becomes key value) entries images) ↔
      (∀ k ∈ Table.keys entries, ∃ text, key.keyText k = .ok text) ∧
        ∀ e ∈ entries, ∃ w, value.convert e.2 = .ok w := by
  rw [exists_forall₂_iff]
  simp only [Becomes, Table.keys, List.forall_mem_map, Prod.exists, exists_and_left,
    exists_and_right, ← forall_and]

theorem convertsEntries (hentries : Table.Sorted entries) :
    ConvertsEntries key value entries
      ((convertEntries key (convert key) (convert value) [] entries).map .map) := by
  constructor
  · rw [← and_assoc, ← exists_images_iff]
    simp only [map_eq_ok]
    constructor
    · rintro ⟨_, out, hout, -⟩
      obtain ⟨images, himages, hperm⟩ := exists_images hout
      have hkeys : (Table.keys images).Nodup :=
        (hperm.map Prod.fst).nodup_iff.mp (convertEntries_sorted hout .nil).nodup_keys
      exact ⟨⟨images, himages⟩, (nodup_keys_iff hentries himages).mp hkeys⟩
    · rintro ⟨⟨images, himages⟩, hdistinct⟩
      have hkeys : (Table.keys images).Nodup := (nodup_keys_iff hentries himages).mpr hdistinct
      obtain ⟨out, hout⟩ : ∃ out, convertEntries key (convert key) (convert value) [] entries =
        .ok out := convertEntries_of_images himages hkeys
      exact ⟨_, out, hout, rfl⟩
  · intro _ hresult
    obtain ⟨out, hout, rfl⟩ := map_eq_ok.mp hresult
    obtain ⟨images, himages, hperm⟩ := exists_images hout
    rw [List.nil_append] at hperm
    have hsorted : Table.Sorted out := convertEntries_sorted hout .nil
    have hdistinct := (nodup_keys_iff hentries himages).mp
      ((hperm.map Prod.fst).nodup_iff.mp hsorted.nodup_keys)
    refine ⟨out, rfl, hsorted, hperm.length_eq.trans himages.length_eq.symm, fun m hm => ?_,
      fun e he => ?_⟩
    · obtain ⟨e, he, hem⟩ := exists_of_mem_forall₂ himages (hperm.mem_iff.mp hm)
      refine ⟨e, ⟨he, hem⟩, ?_⟩
      rintro f ⟨hf, hfm⟩
      -- two entries with one image have keys of one text, hence one key
      have hkey : f.1 = e.1 := hdistinct f.1 (List.mem_map_of_mem hf) e.1 (List.mem_map_of_mem he)
        (hfm.1.trans hem.1.symm)
      exact List.inj_on_of_nodup_map hentries.nodup_keys hf he hkey
    · obtain ⟨m, hm, hem⟩ := exists_of_mem_forall₂ himages.flip he
      exact ⟨m, hperm.mem_iff.mpr hm, hem⟩

end

/-- A list is converted by converting each of its elements, a map to a list by converting its
values, and a map to a map by converting its keys, which may not come together, and its values. -/
theorem convert_collections :
    (∀ (element : Shape) (items : List Value), (∀ v ∈ items, v.isHooked = false) →
      ConvertsEach element items (convert (.list element) (.list items))) ∧
    (∀ (element : Shape) (entries : Bindings),
      ConvertsEach element (entries.map Prod.snd) (convert (.list element) (.map entries))) ∧
    ∀ (key value : Shape) (entries : Bindings), Table.Sorted entries →
      (∀ e ∈ entries, e.2.isHooked = false) →
      ConvertsEntries key value entries (convert (.map key value) (.map entries)) := by
  refine ⟨fun element items h => ?_, fun element entries => ?_, fun key value entries hs h => ?_⟩
  · rw [convert_list_of_unhooked h]
    exact convertsEach_mapM
  · rw [convert_list_map]
    exact convertsEach_mapM
  · rw [convert_map_of_unhooked hs h]
    exact convertsEntries hs

/-- Texts become integers, in a map those of the keys too. The keys 01 and 1 are the same integer,
so a map with both has no form with integers for keys. -/
theorem convert_collections_integers :
    (∃ out, convert (.list .int) (.list [.str "1", .bool true]) = .ok out) ∧
      (∃ members, convert (.map .int .any) (.map [("01", .nil), ("2", .nil)]) = .ok (.map members) ∧
        members.length = 2) ∧
      ¬ ∃ out, convert (.map .int .any) (.map [("01", .nil), ("1", .nil)]) = .ok out := by
  obtain ⟨hlists, -, hmaps⟩ := convert_collections
  have hlist := hlists .int [.str "1", .bool true] (by simp [Value.isHooked])
  have hapart := hmaps .int .any [("01", .nil), ("2", .nil)] (by decide) (by simp [Value.isHooked])
  have hjoined := hmaps .int .any [("01", .nil), ("1", .nil)] (by decide) (by simp [Value.isHooked])
  refine ⟨hlist.succeeds.mpr ?_, ?_, fun h => ?_⟩
  · simp only [List.forall_mem_cons, List.not_mem_nil, false_imp_iff, implies_true, and_true]
    exact ⟨⟨.int 1, rfl⟩, .int 1, rfl⟩
  · obtain ⟨members, hmembers, -, hlength, -⟩ := hapart.images (.map [("1", .nil), ("2", .nil)]) rfl
    exact ⟨members, hmembers ▸ rfl, hlength⟩
  · have hkey : "01" = "1" := (hjoined.succeeds.mp h).2.2 "01" (by decide) "1" (by decide) rfl
    exact absurd hkey (by decide)

end Shape

end Stencil
