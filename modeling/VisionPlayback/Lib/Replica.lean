import VisionPlayback.Lib.Table

/-!
# A table kept up to date by messages

What a reader will know of each key once it has heard the updates that are still
in flight, oldest first. Sending appends to the updates, and delivery moves the
oldest one into the reader's table.
-/

namespace Lib.Replica

variable {κ α : Type*} [DecidableEq κ] {us vs : List (κ × α)} {known : κ → Option α} {k : κ} {a : α}

def hear (us : List (κ × α)) (known : κ → Option α) : κ → Option α :=
  us.foldl (fun known u => Function.update known u.1 (some u.2)) known

theorem hear_append (us vs : List (κ × α)) (known : κ → Option α) :
    hear (us ++ vs) known = hear vs (hear us known) := List.foldl_append

theorem hear_cons (u : κ × α) (us : List (κ × α)) (known : κ → Option α) :
    hear (u :: us) known = hear us (Function.update known u.1 (some u.2)) := rfl

/-- Delivery of the oldest update does not change what will be known. -/
theorem hear_insert (t : Table κ α) (k : κ) (a : α) (us : List (κ × α)) :
    hear us (t.insert k a).lookup = hear ((k, a) :: us) t.lookup := by
  have h : (t.insert k a).lookup = Function.update t.lookup k (some a) := by
    funext k'
    rw [Table.lookup_insert_eq, Function.update_apply]
  rw [h, hear_cons]

/-- What is known of a key was known before, or is in flight. -/
theorem mem_or_of_hear (h : hear us known k = some a) : known k = some a ∨ (k, a) ∈ us := by
  induction us generalizing known with
  | nil => exact Or.inl h
  | cons u us ih =>
    rw [hear_cons] at h
    rcases ih h with hk | hk
    · by_cases hu : k = u.1
      · subst hu
        rw [Function.update_self] at hk
        obtain rfl := Option.some.inj hk
        exact Or.inr List.mem_cons_self
      · rw [Function.update_of_ne hu] at hk
        exact Or.inl hk
    · exact Or.inr (List.mem_cons_of_mem _ hk)

/-- What is known of a key is never forgotten. -/
theorem hear_ne_none (h : known k ≠ none ∨ ∃ a, (k, a) ∈ us) : hear us known k ≠ none := by
  induction us generalizing known with
  | nil =>
    rcases h with h | ⟨a, ha⟩
    · exact h
    · cases ha
  | cons u us ih =>
    rw [hear_cons]
    apply ih
    by_cases hu : k = u.1
    · rw [hu, Function.update_self]
      exact Or.inl nofun
    · rw [Function.update_of_ne hu]
      refine h.imp_right fun ⟨a, ha⟩ => ⟨a, ?_⟩
      rcases List.mem_cons.mp ha with ha | ha
      · exact absurd (congrArg Prod.fst ha) hu
      · exact ha

end Lib.Replica
