import Mathlib.Data.List.Perm.Basic
import VisionPlayback.Lib.Table

/-!
# Tickets for the entries of a table

Work that is kept under a key in a table, and carried elsewhere by tickets with
the same keys: messages, workers, entries of another table. The books balance
when every entry has exactly one ticket and every ticket has its entry.
-/

namespace Lib

/-- What a selective list makes of its head. -/
theorem filterMap_cons_toList {α β : Type*} (f : α → Option β) (a : α) (l : List α) :
    (a :: l).filterMap f = (f a).toList ++ l.filterMap f := by
  cases h : f a <;> simp [h]

namespace Ledger

variable {κ α : Type*}

def Balanced (tickets : List κ) (t : Table κ α) : Prop := tickets.Perm t.keys

variable {l l' : List κ} {t : Table κ α} {k : κ}

theorem balanced_empty : Balanced [] (∅ : Table κ α) := List.Perm.refl _

/-- Tickets may change hands. -/
theorem Balanced.moved (h : Balanced l t) (hp : l.Perm l') : Balanced l' t := hp.symm.trans h

theorem Balanced.mem_iff (h : Balanced l t) : k ∈ l ↔ k ∈ t := by
  rw [AList.mem_keys]
  exact List.Perm.mem_iff h

theorem Balanced.nodup (h : Balanced l t) : l.Nodup :=
  (List.Perm.nodup_iff h).mpr t.keys_nodup

variable [DecidableEq κ]

theorem Balanced.count_eq (h : Balanced l t) (k : κ) : l.count k = if k ∈ t then 1 else 0 := by
  by_cases hk : k ∈ t
  · rw [if_pos hk]
    exact List.count_eq_one_of_mem h.nodup (h.mem_iff.mpr hk)
  · rw [if_neg hk]
    exact List.count_eq_zero_of_not_mem (mt h.mem_iff.mp hk)

/-- New work gets one new ticket. -/
theorem Balanced.issue (h : Balanced l t) (hk : k ∉ t) (a : α) :
    Balanced (k :: l) (t.insert k a) := by
  unfold Balanced
  rw [Table.keys_insert hk]
  exact List.Perm.cons k h

/-- Work is closed together with its ticket. -/
theorem Balanced.settle (h : Balanced l t) (hp : l.Perm (k :: l')) : Balanced l' (t.erase k) := by
  have hk : k ∈ t := h.mem_iff.mp (hp.mem_iff.mpr List.mem_cons_self)
  have hkeys : (k :: l').Perm (k :: (t.erase k).keys) :=
    (hp.symm.trans h).trans (Table.keys_erase hk)
  exact hkeys.cons_inv

end Ledger

end Lib
