import VisionPlayback.Lib.Lease
import VisionPlayback.Lib.Ledger

/-!
# Tokens in the hands of objects

Objects in a table hold a token each, or none. The log of the issuer is in order when the
live tokens are those that the objects hold; an object then holds its token alone.
-/

namespace Lib

open Lease

variable {κ α τ : Type*} [DecidableEq κ] [DecidableEq τ]

/-- What the objects of a table hold. -/
def held (hold : α → Option τ) (t : Table κ α) : List τ := t.values.filterMap hold

structure InHands (hold : α → Option τ) (log : List (Event τ)) (t : Table κ α) : Prop where
  sound : Sound [] log
  live : (after [] log).Perm (held hold t)

variable {hold : α → Option τ} {log : List (Event τ)} {t : Table κ α} {k k' : κ} {a b : α} {x : τ}

omit [DecidableEq τ] in
/-- The object at a key, and the others. -/
theorem held_at (h : t.lookup k = some a) :
    (held hold t).Perm ((hold a).toList ++ held hold (t.erase k)) := by
  rw [held, held, ← filterMap_cons_toList]
  exact (Table.values_erase h).filterMap hold

omit [DecidableEq τ] in
theorem held_insert (t : Table κ α) (k : κ) (a : α) :
    held hold (t.insert k a) = (hold a).toList ++ held hold (t.erase k) := by
  rw [held, held, ← filterMap_cons_toList]
  rfl

namespace InHands

omit [DecidableEq κ] in
theorem start : InHands hold [] (∅ : Table κ α) where
  sound := trivial
  live := List.Perm.refl _

omit [DecidableEq κ] in
theorem nodup (h : InHands hold log t) : (after [] log).Nodup :=
  nodup_after List.nodup_nil h.sound

theorem mem (h : InHands hold log t) (hk : t.lookup k = some a) (hx : hold a = some x) :
    x ∈ after [] log :=
  h.live.mem_iff.mpr (List.mem_filterMap.mpr ⟨a, Table.mem_values.mpr ⟨k, hk⟩, hx⟩)

/-- Nobody else holds the token. -/
theorem unique (h : InHands hold log t) (hk : t.lookup k = some a) (hx : hold a = some x)
    (hk' : t.lookup k' = some b) (hx' : hold b = some x) : k' = k := by
  by_contra hne
  have hnodup := (h.live.trans (held_at hk)).nodup_iff.mp h.nodup
  rw [hx] at hnodup
  have hothers : x ∉ held hold (t.erase k) := (List.nodup_cons.mp hnodup).1
  have hother : (t.erase k).lookup k' = some b := by rw [Table.lookup_erase_eq, if_neg hne, hk']
  exact hothers (List.mem_filterMap.mpr ⟨b, Table.mem_values.mpr ⟨k', hother⟩, hx'⟩)

/-- A new object comes with empty hands. -/
theorem enter (h : InHands hold log t) (hk : k ∉ t) (ha : hold a = none) :
    InHands hold log (t.insert k a) := by
  refine ⟨h.sound, h.live.trans ?_⟩
  have hinsert : held hold (t.insert k a) = held hold t := by
    rw [held, held, Table.values_insert hk, List.filterMap_cons_none ha]
  rw [hinsert]

/-- An object holds on to what it has, if it has anything. -/
theorem keep (h : InHands hold log t) (hk : t.lookup k = some a) (hb : hold b = hold a) :
    InHands hold log (t.insert k b) := by
  refine ⟨h.sound, (h.live.trans (held_at hk)).trans ?_⟩
  rw [held_insert, hb]

theorem acquire (h : InHands hold log t) (hk : t.lookup k = some a) (ha : hold a = none)
    (hb : hold b = some x) (hx : x ∉ after [] log) :
    InHands hold (log ++ [.grant x]) (t.insert k b) := by
  constructor
  · rw [sound_append]
    exact ⟨h.sound, hx, trivial⟩
  · rw [after_append, held_insert, hb]
    have hold' := h.live.trans (held_at hk)
    rw [ha] at hold'
    exact hold'.cons x

theorem release (h : InHands hold log t) (hk : t.lookup k = some a) (ha : hold a = some x)
    (hb : hold b = none) : InHands hold (log ++ [.revoke x]) (t.insert k b) := by
  constructor
  · rw [sound_append]
    exact ⟨h.sound, h.mem hk ha, trivial⟩
  · rw [after_append, held_insert, hb]
    have hold' := (h.live.trans (held_at hk)).erase x
    rw [ha] at hold'
    exact hold'.trans (by rw [Option.toList_some, List.singleton_append, List.erase_cons_head]; rfl)

end InHands

end Lib
