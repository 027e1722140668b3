import Mathlib.Data.List.AList

/-!
# Key-value tables

Finite maps with one entry a key, as Mathlib's `AList` with a constant value
type. What is added here is insertion that leaves an existing entry alone, the
erase-while-iterating loop, and how the entries, as a list, change under each
operation.
-/

namespace Lib

abbrev Table (κ α : Type*) := AList fun _ : κ => α

namespace Table

variable {κ α : Type*} [DecidableEq κ] {t : Table κ α} {k k' : κ} {a b : α}

/-- Inserts only an absent key; the flag says whether it did. -/
def emplace (k : κ) (a : α) (t : Table κ α) : Table κ α × Bool :=
  if k ∈ t then (t, false) else (t.insert k a, true)

/-- Keeps the entries the test accepts. -/
def retain (p : κ → α → Bool) (t : Table κ α) : Table κ α :=
  ⟨t.entries.filter fun e => p e.1 e.2, t.nodupKeys.sublist List.filter_sublist⟩

def values (t : Table κ α) : List α := t.entries.map (·.2)

theorem mem_iff_lookup : k ∈ t ↔ ∃ a, t.lookup k = some a := by
  rw [← AList.lookup_isSome, Option.isSome_iff_exists]

omit [DecidableEq κ] in
theorem eq_empty_iff : t = ∅ ↔ t.keys = [] := by
  rw [AList.keys, List.keys, List.map_eq_nil_iff]
  exact ⟨fun h => congrArg AList.entries h, fun h => AList.ext h⟩

theorem lookup_insert_eq (t : Table κ α) (k k' : κ) (a : α) :
    (t.insert k a).lookup k' = if k' = k then some a else t.lookup k' := by
  split
  · next h => subst h; exact AList.lookup_insert t
  · next h => exact AList.lookup_insert_ne h

theorem lookup_erase_eq (t : Table κ α) (k k' : κ) :
    (t.erase k).lookup k' = if k' = k then none else t.lookup k' := by
  split
  · next h => subst h; exact AList.lookup_erase k' t
  · next h => exact AList.lookup_erase_ne h

theorem emplace_of_notMem (h : k ∉ t) : emplace k a t = (t.insert k a, true) := if_neg h

theorem emplace_of_mem (h : k ∈ t) : emplace k a t = (t, false) := if_pos h

omit [DecidableEq κ] in
theorem entries_retain (p : κ → α → Bool) (t : Table κ α) :
    (t.retain p).entries = t.entries.filter fun e => p e.1 e.2 := rfl

theorem lookup_retain (p : κ → α → Bool) (t : Table κ α) (k : κ) :
    (t.retain p).lookup k = (t.lookup k).filter (p k) := by
  apply Option.ext
  intro a
  rw [← Option.mem_def, ← Option.mem_def, AList.mem_lookup_iff, entries_retain, List.mem_filter,
    ← AList.mem_lookup_iff]
  simp [Option.filter_eq_some_iff]

theorem mem_values : a ∈ t.values ↔ ∃ k, t.lookup k = some a := by
  simp only [values, List.mem_map]
  constructor
  · rintro ⟨⟨k, b⟩, he, rfl⟩
    exact ⟨k, AList.mem_lookup_iff.mpr he⟩
  · rintro ⟨k, hk⟩
    exact ⟨⟨k, a⟩, AList.mem_lookup_iff.mp hk, rfl⟩

theorem entries_insert (h : k ∉ t) : (t.insert k a).entries = ⟨k, a⟩ :: t.entries :=
  AList.entries_insert_of_notMem h

/-- Erasing a present key takes out exactly its entry. -/
theorem entries_erase (h : t.lookup k = some a) :
    t.entries.Perm (⟨k, a⟩ :: (t.erase k).entries) := by
  have hmem : (⟨k, a⟩ : Sigma fun _ : κ => α) ∈ t.entries := AList.mem_lookup_iff.mp h
  obtain ⟨b, l₁, l₂, -, he, hk⟩ := List.exists_of_kerase (List.mem_keys_of_mem hmem)
  have hb : t.lookup k = some b := AList.mem_lookup_iff.mpr (by rw [he]; simp)
  obtain rfl : b = a := Option.some.inj (hb.symm.trans h)
  show t.entries.Perm (⟨k, b⟩ :: List.kerase k t.entries)
  rw [hk, he]
  exact List.perm_middle

theorem values_insert (h : k ∉ t) : values (t.insert k a) = a :: values t := by
  simp only [values, entries_insert h, List.map_cons]

theorem values_erase (h : t.lookup k = some a) :
    (values t).Perm (a :: values (t.erase k)) :=
  List.Perm.map (fun e : Sigma fun _ : κ => α => e.2) (entries_erase h)

theorem keys_insert (h : k ∉ t) : (t.insert k a).keys = k :: t.keys := by
  rw [AList.keys_insert, List.erase_of_not_mem (mt AList.mem_keys.mpr h)]

theorem keys_erase (h : k ∈ t) : t.keys.Perm (k :: (t.erase k).keys) := by
  rw [AList.keys_erase]
  exact List.perm_cons_erase (AList.mem_keys.mp h)

end Table

end Lib
