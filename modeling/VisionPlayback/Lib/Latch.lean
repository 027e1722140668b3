import Mathlib.Data.List.Basic

/-!
# Latches

An object that takes events one at a time. Some events come with an answer: the
first of them sets the object off, and nothing changes it from then on.
-/

namespace Lib

structure Latch (σ ε ρ : Type*) where
  on : ε → σ → σ
  answer? : ε → Option ρ
  Waiting : σ → Prop
  Done : ρ → σ → Prop
  wait : ∀ {e s}, Waiting s → answer? e = none → Waiting (on e s)
  fire : ∀ {e s r}, Waiting s → answer? e = some r → Done r (on e s)
  stay : ∀ {r s} e, Done r s → on e s = s

namespace Latch

variable {σ ε ρ : Type*} (L : Latch σ ε ρ)

def run (es : List ε) (s : σ) : σ := es.foldl (fun s e => L.on e s) s

variable {L} {s : σ} {r : ρ}

/-- What is done stays as it is. -/
theorem run_of_done (h : L.Done r s) (es : List ε) : L.run es s = s := by
  induction es with
  | nil => rfl
  | cons e es ih =>
    show L.run es (L.on e s) = s
    rw [L.stay e h, ih]

theorem waiting_run (h : L.Waiting s) {es : List ε} (hnone : es.findSome? L.answer? = none) :
    L.Waiting (L.run es s) := by
  induction es generalizing s with
  | nil => exact h
  | cons e es ih =>
    rw [List.findSome?_cons] at hnone
    cases he : L.answer? e with
    | none =>
      rw [he] at hnone
      exact ih (L.wait h he) hnone
    | some a =>
      rw [he] at hnone
      cases hnone

/-- The first answer is the one that counts. -/
theorem done_run (h : L.Waiting s) {es : List ε} (hsome : es.findSome? L.answer? = some r) :
    L.Done r (L.run es s) := by
  induction es generalizing s with
  | nil => cases hsome
  | cons e es ih =>
    rw [List.findSome?_cons] at hsome
    cases he : L.answer? e with
    | none =>
      rw [he] at hsome
      exact ih (L.wait h he) hsome
    | some a =>
      rw [he] at hsome
      obtain rfl := Option.some.inj hsome
      have hdone := L.fire h he
      show L.Done a (L.run es (L.on e s))
      rwa [run_of_done hdone]

end Latch

end Lib
