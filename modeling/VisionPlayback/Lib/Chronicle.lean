import Mathlib.Logic.Function.Basic
import Mathlib.Tactic.Tauto

/-!
# A record of the latest run of each key

Runs start for a key, end with an outcome, and the end waits until it is
handled; a restart cuts runs off. The record of the latest outcomes agrees with
what is running, what has ended unhandled, and what the runs have left behind.
-/

namespace Lib

/-- How the latest run of a key stands. -/
inductive Outcome
  | running | succeeded | failed | interrupted
  deriving DecidableEq

def Outcome.ended (ok : Bool) : Outcome := if ok then .succeeded else .failed

/-- The record of the latest runs, against what is running, what has ended and
is not yet handled, and what has left a file. -/
structure Chronicle {κ : Type*} (last : κ → Option Outcome) (running : κ → Prop)
    (ended : κ → Bool → Prop) (present : κ → Prop) : Prop where
  live : ∀ k, last k = some .running → running k
  known : ∀ k, running k ∨ present k → last k ≠ none
  posted : ∀ k ok, ended k ok → last k = some (Outcome.ended ok)

namespace Chronicle

variable {κ : Type*} {last : κ → Option Outcome} {running running' : κ → Prop}
  {ended ended' : κ → Bool → Prop} {present present' : κ → Prop} {key : κ}

theorem empty : Chronicle (fun _ : κ => none) (fun _ => False) (fun _ _ => False)
    (fun _ => False) where
  live _ h := nomatch h
  known _ h := h.elim False.elim False.elim
  posted _ _ h := h.elim

theorem frame (h : Chronicle last running ended present) (hr : ∀ k, running' k ↔ running k)
    (he : ∀ k ok, ended' k ok → ended k ok) (hp : ∀ k, present' k → present k ∨ running k) :
    Chronicle last running' ended' present' where
  live k hk := (hr k).mpr (h.live k hk)
  known k hk := by
    apply h.known k
    rcases hk with hk | hk
    · exact Or.inl ((hr k).mp hk)
    · exact (hp k hk).symm
  posted k ok hk := h.posted k ok (he k ok hk)

section

variable [DecidableEq κ]

/-- A run starts, for a key without an unhandled end. -/
theorem launch (h : Chronicle last running ended present)
    (hr : ∀ k, running' k ↔ running k ∨ k = key) (he : ∀ k ok, ended' k ok → ended k ok)
    (hnone : ∀ ok, ¬ ended' key ok) (hp : ∀ k, present' k → present k ∨ k = key) :
    Chronicle (Function.update last key (some .running)) running' ended' present' where
  live k hk := by
    rw [hr k]
    by_cases hkey : k = key
    · exact Or.inr hkey
    · rw [Function.update_of_ne hkey] at hk
      exact Or.inl (h.live k hk)
  known k hk := by
    by_cases hkey : k = key
    · rw [hkey, Function.update_self]
      exact nofun
    · rw [Function.update_of_ne hkey]
      rw [hr k] at hk
      have hp' := hp k
      exact h.known k (by tauto)
  posted k ok hk := by
    by_cases hkey : k = key
    · subst hkey
      exact absurd hk (hnone ok)
    · rw [Function.update_of_ne hkey]
      exact h.posted k ok (he k ok hk)

/-- A run ends, and its end is posted. -/
theorem exit {ok : Bool} (h : Chronicle last running ended present) (hkey : running key)
    (hr : ∀ k, running' k → running k) (hr' : ∀ k, k ≠ key → running k → running' k)
    (he : ∀ k b, ended' k b → ended k b ∨ k = key ∧ b = ok) (hnone : ∀ b, ¬ ended key b)
    (hp : ∀ k, present' k → present k) :
    Chronicle (Function.update last key (some (Outcome.ended ok))) running' ended' present' where
  live k hk := by
    by_cases hk' : k = key
    · rw [hk', Function.update_self] at hk
      cases ok <;> cases hk
    · rw [Function.update_of_ne hk'] at hk
      exact hr' k hk' (h.live k hk)
  known k hk := by
    by_cases hk' : k = key
    · rw [hk', Function.update_self]
      exact nofun
    · rw [Function.update_of_ne hk']
      exact h.known k (hk.imp (hr k) (hp k))
  posted k b hk := by
    rcases he k b hk with hk | ⟨rfl, rfl⟩
    · by_cases hk' : k = key
      · subst hk'
        exact absurd hk (hnone b)
      · rw [Function.update_of_ne hk']
        exact h.posted k b hk
    · rw [Function.update_self]

variable {ω : Type*} {ws : List ω} {f : ω → κ} {w : ω}

/-- `launch` where what runs is a list of workers. -/
theorem launch_worker (h : Chronicle last (fun k => ∃ v ∈ ws, f v = k) ended present)
    (he : ∀ k ok, ended' k ok → ended k ok) (hnone : ∀ ok, ¬ ended' (f w) ok)
    (hp : ∀ k, present' k → present k ∨ k = f w) :
    Chronicle (Function.update last (f w) (some .running)) (fun k => ∃ v ∈ ws ++ [w], f v = k)
      ended' present' := by
  refine h.launch (fun k => ?_) he hnone hp
  simp only [List.mem_append, List.mem_singleton, or_and_right, exists_or, exists_eq_left]
  rw [eq_comm (a := f w)]

/-- `exit` where what runs is a list of workers. -/
theorem exit_worker [DecidableEq ω] {ok : Bool}
    (h : Chronicle last (fun k => ∃ v ∈ ws, f v = k) ended present) (hw : w ∈ ws)
    (he : ∀ k b, ended' k b → ended k b ∨ k = f w ∧ b = ok) (hnone : ∀ b, ¬ ended (f w) b) :
    Chronicle (Function.update last (f w) (some (Outcome.ended ok)))
      (fun k => ∃ v ∈ ws.erase w, f v = k) ended' present := by
  refine h.exit ⟨w, hw, rfl⟩ (fun k => ?_) (fun k hk => ?_) he hnone fun _ hp => hp
  · intro ⟨v, hv, hkey⟩
    exact ⟨v, List.mem_of_mem_erase hv, hkey⟩
  · intro ⟨v, hv, hkey⟩
    have hne : v ≠ w := fun he => hk (by rw [← hkey, he])
    exact ⟨v, (List.mem_erase_of_ne hne).mpr hv, hkey⟩

end

/-- A restart cuts off what is running and loses the ends that were not handled. -/
theorem restart [DecidablePred running] (h : Chronicle last running ended present) :
    Chronicle (fun k => if running k then some .interrupted else last k) (fun _ => False)
      (fun _ _ => False) present where
  live k hk := by
    by_cases hrun : running k
    · rw [if_pos hrun] at hk
      cases hk
    · rw [if_neg hrun] at hk
      exact hrun (h.live k hk)
  known k hk := by
    by_cases hrun : running k
    · rw [if_pos hrun]
      exact nofun
    · rw [if_neg hrun]
      exact h.known k (hk.imp False.elim id)
  posted _ _ hk := hk.elim

end Chronicle

end Lib
