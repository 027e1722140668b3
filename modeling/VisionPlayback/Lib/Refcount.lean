import VisionPlayback.Lib.Table

/-!
# Reference counts kept in a table

A table that counts the holders of each key and drops an entry whose count is
no longer positive. It is exact for a list of holders when it has the number of
holders under every key that has one, and nothing under the others.
-/

namespace Lib.Refcount

open Table

variable {κ α : Type*} [DecidableEq κ]

def acquire (k : κ) (t : Table κ Int) : Table κ Int := t.insert k ((t.lookup k).getD 0 + 1)

def release (k : κ) (t : Table κ Int) : Table κ Int :=
  match t.lookup k with
  | none => t
  | some count => if count - 1 ≤ 0 then t.erase k else t.insert k (count - 1)

/-- How many holders hold a key. -/
def holders (key : α → κ) (l : List α) (k : κ) : Nat := l.countP fun a => decide (key a = k)

def Exact (key : α → κ) (l : List α) (t : Table κ Int) : Prop :=
  ∀ k, t.lookup k = if holders key l k = 0 then none else some (holders key l k : Int)

variable {key : α → κ} {l l' : List α} {t : Table κ Int} {a : α} {k : κ}

theorem holders_cons (key : α → κ) (a : α) (l : List α) (k : κ) :
    holders key (a :: l) k = holders key l k + if key a = k then 1 else 0 := by
  simp [holders, List.countP_cons]

theorem exact_empty (key : α → κ) : Exact key [] ∅ := by
  intro k
  simp [holders]

theorem Exact.acquire (h : Exact key l t) (a : α) :
    Exact key (a :: l) (acquire (key a) t) := by
  intro k
  rw [Refcount.acquire, lookup_insert_eq, holders_cons]
  by_cases hk : k = key a
  · rw [if_pos hk, hk, h (key a), if_pos rfl, if_neg (Nat.succ_ne_zero _)]
    by_cases h0 : holders key l (key a) = 0
    · simp [h0]
    · simp [h0]
  · rw [if_neg hk, if_neg (Ne.symm hk), Nat.add_zero]
    exact h k

/-- A release takes one holder out. -/
theorem Exact.release (h : Exact key l t) (hp : l.Perm (a :: l')) :
    Exact key l' (release (key a) t) := by
  have hcount : ∀ k, holders key l k = holders key l' k + if key a = k then 1 else 0 := by
    intro k
    rw [← holders_cons]
    exact hp.countP_eq _
  have ha : t.lookup (key a) = some ((holders key l' (key a) : Int) + 1) := by
    rw [h (key a), hcount (key a), if_pos rfl, if_neg (Nat.succ_ne_zero _)]
    simp
  intro k
  unfold Refcount.release
  rw [ha]
  dsimp only
  by_cases hlast : holders key l' (key a) = 0
  · rw [if_pos (by omega), lookup_erase_eq]
    by_cases hk : k = key a
    · rw [if_pos hk, hk, if_pos hlast]
    · rw [if_neg hk, h k, hcount k, if_neg (Ne.symm hk), Nat.add_zero]
  · rw [if_neg (by omega), lookup_insert_eq]
    by_cases hk : k = key a
    · rw [if_pos hk, hk, if_neg hlast, Int.add_sub_cancel]
    · rw [if_neg hk, h k, hcount k, if_neg (Ne.symm hk), Nat.add_zero]

theorem Exact.mem_iff (h : Exact key l t) : k ∈ t ↔ ∃ a ∈ l, key a = k := by
  rw [mem_iff_lookup, h k]
  have hpos : holders key l k ≠ 0 ↔ ∃ a ∈ l, key a = k := by
    rw [← Nat.pos_iff_ne_zero, holders, List.countP_pos_iff]
    simp
  rw [← hpos]
  by_cases h0 : holders key l k = 0
  · simp [h0]
  · simp [h0]

end Lib.Refcount
