import Mathlib.Data.String.Basic
import Stencil.Table

/-!
# Order of tables

A table that is built by insertions has its keys in increasing order, so each of them once.
-/
namespace Stencil

namespace Table

variable {α : Type}

/-- The keys are in increasing order. -/
def Sorted (table : List (String × α)) : Prop := (keys table).Pairwise (· < ·)

instance (table : List (String × α)) : Decidable (Sorted table) :=
  inferInstanceAs (Decidable ((keys table).Pairwise (· < ·)))

theorem keys_insert (key : String) (value : α) (table : List (String × α)) :
    ∀ k, k ∈ keys (insert key value table) ↔ k = key ∨ k ∈ keys table := by
  intro k
  induction table with
  | nil => simp [insert, keys]
  | cons entry table ih =>
    obtain ⟨l, v⟩ := entry
    simp only [keys] at ih
    simp only [insert]
    split
    · rename_i hkey
      simp [keys, hkey]
    · split
      · simp [keys]
      · simp [keys, ih, or_left_comm]

theorem Sorted.insert {table : List (String × α)} (h : Sorted table) (key : String) (value : α) :
    Sorted (insert key value table) := by
  induction table with
  | nil => exact List.pairwise_singleton _ _
  | cons entry table ih =>
    obtain ⟨l, v⟩ := entry
    obtain ⟨hl, htable⟩ := List.pairwise_cons.mp h
    simp only [Table.insert]
    split
    · rename_i hkey
      subst hkey
      exact List.pairwise_cons.mpr ⟨hl, htable⟩
    · split
      · rename_i hlt
        refine List.pairwise_cons.mpr ⟨fun k hk => ?_, h⟩
        rcases List.mem_cons.mp hk with rfl | hk
        · exact hlt
        · exact lt_trans hlt (hl k hk)
      · rename_i hne hnlt
        refine List.pairwise_cons.mpr ⟨fun k hk => ?_, ih htable⟩
        rcases (keys_insert key value table k).mp hk with rfl | hk
        · exact lt_of_le_of_ne (not_lt.mp hnlt) (Ne.symm hne)
        · exact hl k hk

/-- What comes after all keys is put at the end. -/
theorem insert_of_forall_lt {key : String} {table : List (String × α)}
    (h : ∀ k ∈ keys table, k < key) (value : α) :
    insert key value table = table ++ [(key, value)] := by
  induction table with
  | nil => rfl
  | cons entry table ih =>
    obtain ⟨l, v⟩ := entry
    have hl : l < key := h l List.mem_cons_self
    simp only [insert, if_neg hl.ne', if_neg hl.asymm, List.cons_append,
      ih fun k hk => h k (List.mem_cons_of_mem l hk)]

theorem contains_iff_mem_keys {key : String} {table : List (String × α)} :
    contains key table = true ↔ key ∈ keys table := by
  induction table with
  | nil => simp [contains, keys]
  | cons entry table ih =>
    obtain ⟨l, v⟩ := entry
    simp only [contains, keys] at ih
    simp only [contains, find?, keys, List.map_cons, List.mem_cons, ← ih]
    split
    · rename_i hkey
      simp [hkey]
    · rename_i hkey
      simp [Ne.symm hkey]

theorem contains_eq_false_iff {key : String} {table : List (String × α)} :
    contains key table = false ↔ key ∉ keys table := by
  rw [Bool.eq_false_iff, ne_eq, contains_iff_mem_keys]

theorem Sorted.nodup_keys {table : List (String × α)} (h : Sorted table) : (keys table).Nodup :=
  h.imp ne_of_lt

/-- Under a new key nothing is replaced. -/
theorem insert_perm {key : String} {table : List (String × α)} (h : key ∉ keys table) (value : α) :
    (insert key value table).Perm ((key, value) :: table) := by
  induction table with
  | nil => rfl
  | cons entry table ih =>
    obtain ⟨l, v⟩ := entry
    simp only [keys, List.map_cons, List.mem_cons, not_or] at h
    simp only [insert, if_neg h.1]
    split
    · rfl
    · exact ((ih h.2).cons (l, v)).trans (List.Perm.swap (key, value) (l, v) table)

theorem Sorted.find?_eq_some {key : String} {value : α} {table : List (String × α)}
    (h : Sorted table) :
    find? key table = some value ↔ (key, value) ∈ table := by
  refine ⟨mem_of_find?, fun hmem => ?_⟩
  induction table with
  | nil => cases hmem
  | cons entry table ih =>
    obtain ⟨l, v⟩ := entry
    obtain ⟨hl, htable⟩ := List.pairwise_cons.mp h
    rcases List.mem_cons.mp hmem with hfirst | hlater
    · cases hfirst
      simp [find?]
    · have hne : l ≠ key := (hl key (List.mem_map_of_mem hlater)).ne
      rw [find?, if_neg hne, ih htable hlater]

theorem find?_insert (key other : String) (value : α) (table : List (String × α)) :
    find? other (insert key value table) =
      if other = key then some value else find? other table := by
  split
  · rename_i h
    rw [h, find?_insert_self]
  · rename_i h
    exact find?_insert_of_ne h value table

theorem contains_insert (key other : String) (value : α) (table : List (String × α)) :
    contains other (insert key value table) = true ↔ other = key ∨ contains other table = true := by
  by_cases h : other = key
  · subst h
    simp [contains, find?_insert_self]
  · simp [contains, find?_insert_of_ne h, h]

variable {β : Type}

/-- The same keys with other values. -/
def mapValues (f : α → β) (table : List (String × α)) : List (String × β) :=
  table.map fun entry => (entry.1, f entry.2)

theorem find?_mapValues (f : α → β) (key : String) (table : List (String × α)) :
    find? key (mapValues f table) = (find? key table).map f := by
  induction table with
  | nil => rfl
  | cons entry table ih =>
    simp only [mapValues] at ih
    simp only [mapValues, List.map_cons, find?, ih]
    split <;> rfl

theorem insert_mapValues (f : α → β) (key : String) (value : α) (table : List (String × α)) :
    insert key (f value) (mapValues f table) = mapValues f (insert key value table) := by
  induction table with
  | nil => rfl
  | cons entry table ih =>
    simp only [mapValues] at ih
    simp only [mapValues, List.map_cons, insert, ih]
    split
    · rfl
    · split <;> rfl

end Table

end Stencil
