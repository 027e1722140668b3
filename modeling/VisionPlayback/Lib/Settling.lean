import VisionPlayback.Lib.Transition

/-!
# Systems that come to rest

Some actions only use up work that is already in the system. A weight that every
one of them lowers, and that no other action of a run raises, bounds how often
they occur; and so a run can always be carried on by them until none is possible.
-/

namespace Lib.System

variable {σ α : Type*} {L : System σ α} {quiet drains : α → Bool} {I : σ → Prop}
  {weight : σ → Nat}

/-- From the states of `I` the quiet actions keep `I` and do not raise the weight, and
those that drain lower it. -/
structure Settles (L : System σ α) (quiet drains : α → Bool) (I : σ → Prop)
    (weight : σ → Nat) : Prop where
  keeps : ∀ a s s', quiet a = true → I s → L.step a s = some s' → I s'
  le : ∀ a s s', quiet a = true → I s → L.step a s = some s' → weight s' ≤ weight s
  lt : ∀ a s s', drains a = true → I s → L.step a s = some s' → weight s' < weight s
  quiet_of_drains : ∀ a, drains a = true → quiet a = true

/-- No action that drains is possible. -/
def Stuck (L : System σ α) (drains : α → Bool) (s : σ) : Prop :=
  ∀ a, drains a = true → L.step a s = none

namespace Settles

variable {init s : σ} {tr : List (Transition σ α)}

theorem run (hw : Settles L quiet drains I weight) (h0 : I init) (h : L.Run init tr s)
    (hc : ∀ t ∈ tr, quiet t.action = true) :
    I s ∧ (tr.countP fun t => drains t.action) + weight s ≤ weight init := by
  induction h with
  | nil => exact ⟨h0, by simp⟩
  | @next tr s s' a hr hs ih =>
    rw [List.forall_mem_cons] at hc
    obtain ⟨hi, hle⟩ := ih hc.2
    refine ⟨hw.keeps a s s' hc.1 hi hs, ?_⟩
    rw [List.countP_cons]
    have hstep := hw.le a s s' hc.1 hi hs
    cases hd : drains a with
    | false =>
      rw [if_neg (by simp)]
      omega
    | true =>
      have hlt := hw.lt a s s' hd hi hs
      rw [if_pos rfl]
      omega

/-- A run can be carried on by actions that drain until it is stuck. -/
theorem carry_on (hw : Settles L quiet drains I weight) (h : L.Run init tr s) (hi : I s) :
    ∃ newer s', L.Run init (newer ++ tr) s' ∧ (∀ t ∈ newer, drains t.action = true) ∧
      L.Stuck drains s' ∧ I s' := by
  -- by induction on the weight that is left
  induction hn : weight s using Nat.strongRecOn generalizing s tr with
  | ind n ih =>
    by_cases hstuck : L.Stuck drains s
    · exact ⟨[], s, h, List.forall_mem_nil _, hstuck, hi⟩
    · obtain ⟨a, hne⟩ := Classical.not_forall.mp hstuck
      obtain ⟨ha, hne⟩ := Classical.not_imp.mp hne
      obtain ⟨s', hs⟩ := Option.ne_none_iff_exists'.mp hne
      have hlt : weight s' < n := hn ▸ hw.lt a s s' ha hi hs
      have hi' : I s' := hw.keeps a s s' (hw.quiet_of_drains a ha) hi hs
      obtain ⟨newer, s'', hr, hall, hend⟩ := ih _ hlt (h.next hs) hi' rfl
      refine ⟨newer ++ [⟨s, a, s'⟩], s'', ?_, ?_, hend⟩
      · simpa using hr
      · intro t ht
        rcases List.mem_append.mp ht with ht | ht
        · exact hall t ht
        · rw [List.mem_singleton.mp ht]
          exact ha

end Settles

end Lib.System
