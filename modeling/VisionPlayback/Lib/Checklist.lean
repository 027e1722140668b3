import Mathlib.Data.List.Basic

/-!
# Checks made in order

A list of checks of which the first that fails is reported, made with a strict
and with a lenient test.
-/

namespace Lib.Checklist

variable {φ : Type*} {lenient strict : φ → Bool} {checks : List φ}

/-- The first check that fails. -/
def firstFailing (test : φ → Bool) (checks : List φ) : Option φ := checks.find? fun f => !test f

theorem firstFailing_eq_some {test : φ → Bool} {f : φ} :
    firstFailing test checks = some f ↔ test f = false ∧
      ∃ before after, checks = before ++ f :: after ∧ ∀ g ∈ before, test g = true := by
  simp only [firstFailing, List.find?_eq_some_iff_append, Bool.not_eq_true', Bool.not_not]

theorem firstFailing_eq_none {test : φ → Bool} :
    firstFailing test checks = none ↔ ∀ f ∈ checks, test f = true := by
  simp [firstFailing, List.find?_eq_none]

theorem firstFailing_cons (test : φ → Bool) (f : φ) (checks : List φ) :
    firstFailing test (f :: checks) = if test f then firstFailing test checks else some f := by
  unfold firstFailing
  rw [List.find?_cons]
  cases test f <;> rfl

/-- The places of a list are the first one and those of the rest. -/
theorem forall_place_cons {P : List φ → φ → Prop} {a : φ} {l : List φ} :
    (∀ before f after, a :: l = before ++ f :: after → P before f) ↔
      P [] a ∧ ∀ before f after, l = before ++ f :: after → P (a :: before) f := by
  constructor
  · intro h
    refine ⟨h [] a l rfl, fun before f after hl => h (a :: before) f after ?_⟩
    rw [hl, List.cons_append]
  · rintro ⟨hfirst, hrest⟩ before f after hsplit
    cases before with
    | nil =>
      obtain ⟨rfl, -⟩ := List.cons.inj hsplit
      exact hfirst
    | cons b before =>
      obtain ⟨rfl, hl⟩ := List.cons.inj hsplit
      exact hrest before f after hl

/-- The lenient test reports the same as the strict one exactly when no check fails the
strict test alone after checks that pass the lenient one. -/
theorem firstFailing_eq_iff (h : ∀ f ∈ checks, strict f = true → lenient f = true) :
    firstFailing lenient checks = firstFailing strict checks ↔
      ∀ before f after, checks = before ++ f :: after → (∀ g ∈ before, lenient g = true) →
        lenient f = true → strict f = true := by
  induction checks with
  | nil => simp [firstFailing]
  | cons a checks ih =>
    have ih := ih fun f hf => h f (List.mem_cons_of_mem a hf)
    have ha := h a List.mem_cons_self
    rw [firstFailing_cons, firstFailing_cons,
      forall_place_cons (P := fun before f =>
        (∀ g ∈ before, lenient g = true) → lenient f = true → strict f = true)]
    simp only [List.forall_mem_cons]
    cases hl : lenient a with
    | false =>
      -- both report the first check
      cases hs : strict a with
      | false => simp
      | true => rw [ha hs] at hl; cases hl
    | true =>
      cases hs : strict a with
      | true => simpa using ih
      | false =>
        -- a check that fails the strict test alone is never reported by the lenient one
        simp only [Bool.false_eq_true, if_true, if_false, List.not_mem_nil, false_implies,
          implies_true, forall_const, false_and, iff_false]
        intro heq
        rw [(firstFailing_eq_some.mp heq).1] at hl
        cases hl

end Lib.Checklist
