import VisionPlayback.Lib.Transition

/-!
# Attribution

Whatever a state shows at the end of a run it has shown from the start, or the last step
that changed it has brought it about.
-/

namespace Lib.System

variable {σ α β : Type*} {L : System σ α} {init s : σ} {tr : List (Transition σ α)}

/-- The last step that `view` has changed in, with the steps before and after it. -/
structure LastChange (view : σ → β) (tr newer : List (Transition σ α)) (t : Transition σ α)
    (older : List (Transition σ α)) : Prop where
  split : tr = newer ++ t :: older
  since : ∀ u ∈ newer, view u.post = view u.pre

/-- Where every step that changes `view` has a cause, so has what the run leaves. -/
theorem Run.attribute (view : σ → β) {Cause : List (Transition σ α) → Transition σ α → β → Prop}
    (h : L.Run init tr s) (hstep : ∀ newer t older, tr = newer ++ t :: older →
      view t.post = view t.pre ∨ Cause older t (view t.post)) :
    view s = view init ∨
      ∃ newer t older, LastChange view tr newer t older ∧ Cause older t (view s) := by
  induction h with
  | nil => exact Or.inl rfl
  | @next tr s s' a hr hs ih =>
    rcases hstep [] ⟨s, a, s'⟩ tr rfl with hsame | hcause
    · have hsame : view s' = view s := hsame
      have hrest := ih fun newer t older he => hstep (⟨s, a, s'⟩ :: newer) t older (by rw [he]; rfl)
      rw [hsame]
      refine hrest.imp_right fun ⟨newer, t, older, hlast, hcause⟩ => ?_
      refine ⟨⟨s, a, s'⟩ :: newer, t, older, ⟨?_, ?_⟩, hcause⟩
      · rw [hlast.split, List.cons_append]
      · exact List.forall_mem_cons.mpr ⟨hsame, hlast.since⟩
    · exact Or.inr ⟨[], ⟨s, a, s'⟩, tr, ⟨rfl, List.forall_mem_nil _⟩, hcause⟩

/-- What no step changes is what it was all along. -/
theorem Run.unchanged (view : σ → β) (h : L.Run init tr s)
    (hstep : ∀ t ∈ tr, view t.post = view t.pre) : ∀ t ∈ tr, view t.post = view init := by
  refine fun t ht => ((h.invariant_of (I := fun s => view s = view init)
    (C := fun t => view t.post = view t.pre) hstep rfl ?_).2 t ht).2
  intro t hpre _ hkeep
  exact hkeep.trans hpre

end Lib.System
