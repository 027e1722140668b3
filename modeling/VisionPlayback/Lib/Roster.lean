import VisionPlayback.Lib.Table

/-!
# A list of those at work

Objects are kept in a table under the numbers of their owners, and each of them is
at work or not. A roster lists the owners of those that are.
-/

namespace Lib

/-- `num` numbers the owners, and `live` says which objects are at work. -/
structure Roster {κ ω σ : Type*} [DecidableEq κ] (num : ω → κ) (live : σ → Prop) (l : List ω)
    (t : Table κ (ω × σ)) : Prop where
  nodup : l.Nodup
  named : ∀ k w o, t.lookup k = some (w, o) → num w = k
  mem_iff : ∀ w, w ∈ l ↔ ∃ o, t.lookup (num w) = some (w, o) ∧ live o

namespace Roster

variable {κ ω σ : Type*} [DecidableEq κ] {num : ω → κ} {live : σ → Prop} {l l' : List ω}
  {t : Table κ (ω × σ)} {k : κ} {w : ω} {o o' : σ}

theorem empty : Roster num live [] (∅ : Table κ (ω × σ)) where
  nodup := List.nodup_nil
  named k w o h := by cases h
  mem_iff w := by simp

theorem mem_of_live (h : Roster num live l t) (hk : t.lookup k = some (w, o)) (ho : live o) :
    w ∈ l := by
  refine (h.mem_iff w).mpr ⟨o, ?_, ho⟩
  rw [h.named k w o hk]
  exact hk

/-- A new object goes to work. -/
theorem enter (h : Roster num live l t) (hk : num w ∉ t) (ho : live o) :
    Roster num live (l ++ [w]) (t.insert (num w) (w, o)) where
  nodup := by
    refine List.nodup_append.mpr ⟨h.nodup, List.nodup_singleton w, fun v hv v' hv' he => ?_⟩
    rw [List.mem_singleton.mp hv'] at he
    obtain ⟨o', ho', -⟩ := (h.mem_iff v).mp hv
    rw [he] at ho'
    exact hk (Table.mem_iff_lookup.mpr ⟨_, ho'⟩)
  named k v p hp := by
    rw [Table.lookup_insert_eq] at hp
    split at hp
    · next hkey =>
      obtain ⟨rfl, -⟩ := Prod.mk.inj (Option.some.inj hp)
      exact hkey.symm
    · exact h.named k v p hp
  mem_iff v := by
    rw [List.mem_append, List.mem_singleton, h.mem_iff v, Table.lookup_insert_eq]
    by_cases hv : num v = num w
    · have hnone : t.lookup (num v) = none := by
        rw [hv]
        exact AList.lookup_eq_none.mpr hk
      rw [if_pos hv, hnone]
      constructor
      · intro hor
        rcases hor with ⟨_, hn, -⟩ | rfl
        · cases hn
        · exact ⟨o, rfl, ho⟩
      · intro ⟨p, hp, _⟩
        exact Or.inr (Prod.mk.inj (Option.some.inj hp)).1.symm
    · rw [if_neg hv]
      constructor
      · intro hor
        rcases hor with hor | rfl
        · exact hor
        · exact absurd rfl hv
      · exact Or.inl

/-- An object changes; whether it is at work decides whether its owner stays. -/
theorem update (h : Roster num live l t) (hk : t.lookup k = some (w, o)) (hnodup : l'.Nodup)
    (hw : w ∈ l' ↔ live o') (hrest : ∀ v, v ≠ w → (v ∈ l' ↔ v ∈ l)) :
    Roster num live l' (t.insert k (w, o')) where
  nodup := hnodup
  named k' v p hp := by
    rw [Table.lookup_insert_eq] at hp
    split at hp
    · next hkey =>
      obtain ⟨rfl, -⟩ := Prod.mk.inj (Option.some.inj hp)
      rw [hkey]
      exact h.named k w o hk
    · exact h.named k' v p hp
  mem_iff v := by
    have hnum := h.named k w o hk
    rw [Table.lookup_insert_eq]
    by_cases hv : v = w
    · rw [hv, if_pos hnum, hw]
      constructor
      · exact fun ho' => ⟨o', rfl, ho'⟩
      · intro ⟨p, hp, hlive⟩
        rw [(Prod.mk.inj (Option.some.inj hp)).2]
        exact hlive
    · rw [hrest v hv, h.mem_iff v]
      by_cases hn : num v = k
      · -- the entry of that number is another owner's
        rw [if_pos hn, hn, hk]
        constructor
        · intro ⟨p, hp, _⟩
          exact absurd (Prod.mk.inj (Option.some.inj hp)).1.symm hv
        · intro ⟨p, hp, _⟩
          exact absurd (Prod.mk.inj (Option.some.inj hp)).1.symm hv
      · rw [if_neg hn]

theorem stay (h : Roster num live l t) (hk : t.lookup k = some (w, o))
    (hlive : live o' ↔ live o) : Roster num live l (t.insert k (w, o')) := by
  refine h.update hk h.nodup ?_ fun _ _ => Iff.rfl
  rw [hlive, h.mem_iff w, h.named k w o hk, hk]
  constructor
  · intro ⟨p, hp, hl⟩
    rw [(Prod.mk.inj (Option.some.inj hp)).2]
    exact hl
  · exact fun hl => ⟨o, rfl, hl⟩

/-- An object stops working. -/
theorem leave [DecidableEq ω] (h : Roster num live l t) (hk : t.lookup k = some (w, o))
    (hdead : ¬ live o') : Roster num live (l.erase w) (t.insert k (w, o')) := by
  refine h.update hk (h.nodup.erase w) ?_ fun v hv => ?_
  · rw [h.nodup.mem_erase_iff]
    exact iff_of_false (fun hw => hw.1 rfl) hdead
  · rw [h.nodup.mem_erase_iff]
    exact and_iff_right hv

end Roster

end Lib
