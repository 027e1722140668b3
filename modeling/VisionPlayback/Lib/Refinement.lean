import VisionPlayback.Lib.Transition

/-!
# Refinement by a relation

A concrete system refines an abstract one if related states stay related: every
concrete step from them is an abstract step that shows the same, or none where it shows
nothing. The abstract state may be taken to be reachable, so that its invariants may be
used; and only the concrete steps that meet a condition need to be matched.
-/

namespace Lib.System

variable {σ τ α β ω : Type*} {L : System σ α} {M : System τ β} {R : σ → τ → Prop}
  {C : Transition σ α → Prop} {obs : α → Option ω} {obs' : β → Option ω} {init : σ} {init' : τ}

/-- What a run shows of its actions, newest first. -/
def shown (obs : α → Option ω) (tr : List (Transition σ α)) : List ω :=
  tr.filterMap fun t => obs t.action

theorem shown_cons (obs : α → Option ω) (t : Transition σ α) (tr : List (Transition σ α)) :
    shown obs (t :: tr) = (obs t.action).toList ++ shown obs tr := by
  rw [shown, List.filterMap_cons]
  cases obs t.action <;> rfl

structure Refinement (L : System σ α) (M : System τ β) (R : σ → τ → Prop)
    (C : Transition σ α → Prop) (obs : α → Option ω) (obs' : β → Option ω) (init : σ)
    (init' : τ) : Prop where
  start : R init init'
  step : ∀ t s, M.Reachable init' s → R t.pre s → L.step t.action t.pre = some t.post → C t →
    (obs t.action = none ∧ R t.post s) ∨
      ∃ b s', obs' b = obs t.action ∧ M.step b s = some s' ∧ R t.post s'

/-- A run has an abstract one that shows the same. -/
theorem Refinement.run {tr : List (Transition σ α)} {s : σ}
    (href : Refinement L M R C obs obs' init init') (h : L.Run init tr s) (hc : ∀ t ∈ tr, C t) :
    ∃ tr' s', M.Run init' tr' s' ∧ shown obs' tr' = shown obs tr ∧ R s s' := by
  induction h with
  | nil => exact ⟨[], init', .nil, rfl, href.start⟩
  | @next tr s s₁ a hr hs ih =>
    rw [List.forall_mem_cons] at hc
    obtain ⟨tr', s', hrun, hshown, hrel⟩ := ih hc.2
    rcases href.step ⟨s, a, s₁⟩ s' hrun.reachable hrel hs hc.1 with
      ⟨hnone, hsame⟩ | ⟨b, s'', hobs, hb, hrel'⟩
    · refine ⟨tr', s', hrun, ?_, hsame⟩
      rw [shown_cons, hnone, hshown]
      rfl
    · refine ⟨⟨s', b, s''⟩ :: tr', s'', hrun.next hb, ?_, hrel'⟩
      rw [shown_cons, shown_cons, hobs, hshown]

/-- The states of a run have related states that the abstract system reaches. -/
theorem Refinement.reach {tr : List (Transition σ α)} {s : σ}
    (href : Refinement L M R C obs obs' init init') (h : L.Run init tr s) (hc : ∀ t ∈ tr, C t) :
    ∃ s', M.Reachable init' s' ∧ R s s' := by
  obtain ⟨tr', s', hrun, -, hrel⟩ := href.run h hc
  exact ⟨s', hrun.reachable, hrel⟩

end Lib.System
