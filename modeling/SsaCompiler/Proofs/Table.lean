import Mathlib.Data.List.Basic
import SsaCompiler.Table

/-!
# Tables as finite maps

What a key stands for after an insertion (`get?_insert`), where a new key goes (`entries_insert`),
and how the entries of a table whose keys are all different answer for their keys
(`find?_of_mem`).
-/

namespace SsaCompiler

open List

namespace Table

variable {κ α : Type} [DecidableEq κ]
variable {key : κ} {entries : List (κ × α)} {table : Table κ α} {value : α} {other : κ}

theorem find?_put :
    find? other (put key value entries) = if other = key then some value else find? other entries := by
  induction entries with
  | nil =>
    by_cases h : other = key
    · simp [put, find?, h]
    · simp [put, find?, h, Ne.symm h]
  | cons entry rest ih =>
    obtain ⟨k, v⟩ := entry
    by_cases hk : k = key
    · subst hk
      by_cases h : other = k
      · simp [put, find?, h]
      · simp [put, find?, h, Ne.symm h]
    · by_cases ho : k = other
      · subst ho; simp [put, find?, hk]
      · simp [put, find?, hk, ho, ih]

theorem get?_insert : (table.insert key value).get? other = if other = key then some value else table.get? other :=
  find?_put

@[simp] theorem get?_insert_self : (table.insert key value).get? key = some value := by simp [get?_insert]

theorem get?_insert_of_ne (table : Table κ α) (h : other ≠ key) (value : α) :
    (table.insert key value).get? other = table.get? other := by simp [get?_insert, h]

@[simp] theorem get?_empty : (empty : Table κ α).get? key = none := rfl

theorem find?_eq_none_iff : find? key entries = none ↔ key ∉ entries.map (·.1) := by
  induction entries with
  | nil => simp [find?]
  | cons entry rest ih =>
    obtain ⟨k, v⟩ := entry
    by_cases h : k = key
    · simp [find?, h]
    · simp [find?, h, ih, Ne.symm h]

theorem put_eq_append (h : find? key entries = none) : put key value entries = entries ++ [(key, value)] := by
  induction entries with
  | nil => rfl
  | cons entry rest ih =>
    obtain ⟨k, v⟩ := entry
    by_cases hk : k = key
    · simp [find?, hk] at h
    · simp only [find?, hk] at h
      simp [put, hk, ih h]

theorem entries_insert (h : table.get? key = none) :
    (table.insert key value).entries = table.entries ++ [(key, value)] :=
  put_eq_append h

theorem keys_put (h : find? key entries ≠ none) : (put key value entries).map (·.1) = entries.map (·.1) := by
  induction entries with
  | nil => simp [find?] at h
  | cons entry rest ih =>
    obtain ⟨k, v⟩ := entry
    by_cases hk : k = key
    · simp [put, hk]
    · simp only [find?, hk] at h
      simp [put, hk, ih h]

theorem mem_of_find? (h : find? key entries = some value) : (key, value) ∈ entries := by
  induction entries with
  | nil => simp [find?] at h
  | cons entry rest ih =>
    obtain ⟨k, v⟩ := entry
    by_cases hk : k = key
    · simp only [find?, hk, if_true, Option.some.injEq] at h
      simp [hk, h]
    · simp only [find?, hk] at h
      exact .tail _ (ih h)

/-- Among entries with different keys each one is the answer for its key. -/
theorem find?_of_mem (hn : (entries.map (·.1)).Nodup) (h : (key, value) ∈ entries) :
    find? key entries = some value := by
  induction entries with
  | nil => simp at h
  | cons entry rest ih =>
    obtain ⟨k, v⟩ := entry
    simp only [map_cons, nodup_cons] at hn
    rcases mem_cons.mp h with h | h
    · simp only [Prod.mk.injEq] at h
      simp [find?, h.1, h.2]
    · have hne : k ≠ key := by
        rintro rfl
        exact hn.1 (mem_map_of_mem (f := (·.1)) h)
      simp [find?, hne, ih hn.2 h]

theorem find?_append (key : κ) (entries more : List (κ × α)) :
    find? key (entries ++ more) = (find? key entries).or (find? key more) := by
  induction entries with
  | nil => rfl
  | cons entry rest ih =>
    obtain ⟨k, v⟩ := entry
    by_cases hk : k = key
    · simp [find?, hk]
    · simp [find?, hk, ih]

theorem get?_truncate {count : Nat} (h : key ∈ (table.truncate count).keys) :
    (table.truncate count).get? key = table.get? key := by
  have hne : find? key (table.entries.take count) ≠ none := fun hnone => find?_eq_none_iff.mp hnone h
  obtain ⟨value, hv⟩ := Option.ne_none_iff_exists'.mp hne
  have happend := find?_append key (table.entries.take count) (table.entries.drop count)
  rw [take_append_drop, hv] at happend
  exact hv.trans happend.symm

theorem contains_eq_true_iff : table.contains key = true ↔ ∃ value, table.get? key = some value := by
  simp [contains, Option.isSome_iff_exists]

theorem contains_of_mem_keys (h : key ∈ table.keys) : table.contains key = true := by
  rw [contains_eq_true_iff, ← Option.isSome_iff_exists, Option.isSome_iff_ne_none]
  exact fun hnone => find?_eq_none_iff.mp hnone h

end Table

end SsaCompiler
