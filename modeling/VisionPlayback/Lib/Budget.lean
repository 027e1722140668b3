import Mathlib.Algebra.Ring.Nat
import VisionPlayback.Lib.Transition

/-!
# Budgets of a run

A state holds some credit; a step may take in more and spends some of it. Where every
step can pay for what it spends, so can every run.
-/

namespace Lib.System

variable {σ α : Type*} {L : System σ α} {init s : σ} {tr : List (Transition σ α)}
  {credit : σ → Nat} {spent gained : Transition σ α → Nat}

/-- The step pays for what it spends. -/
def Pays (credit : σ → Nat) (spent gained : Transition σ α → Nat) (t : Transition σ α) : Prop :=
  credit t.post + spent t ≤ credit t.pre + gained t

theorem Run.budget (h : L.Run init tr s) (hpays : ∀ t ∈ tr, Pays credit spent gained t) :
    credit s + (tr.map spent).sum ≤ credit init + (tr.map gained).sum := by
  induction h with
  | nil => exact Nat.le_refl _
  | @next tr s s' a hr hs ih =>
    rw [List.forall_mem_cons] at hpays
    have hstep : credit s' + spent ⟨s, a, s'⟩ ≤ credit s + gained ⟨s, a, s'⟩ := hpays.1
    have hrest := ih hpays.2
    rw [List.map_cons, List.sum_cons, List.map_cons, List.sum_cons]
    omega

end Lib.System
