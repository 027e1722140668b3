import Mathlib.Data.List.GetD

/-!
# Comparison by accumulation

Two lists are compared without an early exit: every place adds its difference to an
accumulator that can only fill up, the shorter list is padded, and the lengths go
into the accumulator as well.
-/

namespace Lib.Accumulate

variable {α β ι : Type*}

/-- An accumulator that is clear at the end was clear at the start, and nothing has been
added to it. -/
theorem foldl_iff (clear : β → Prop) (nothing : ι → Prop) {add : β → ι → β}
    (h : ∀ b i, clear (add b i) ↔ clear b ∧ nothing i) (is : List ι) (b : β) :
    clear (is.foldl add b) ↔ clear b ∧ ∀ i ∈ is, nothing i := by
  induction is generalizing b with
  | nil => simp
  | cons i is ih => rw [List.foldl_cons, ih, h, List.forall_mem_cons, and_assoc]

/-- Padded lists agree at every place of the longer one only if they differ in length or
not at all. -/
theorem eq_iff_getD {x y : List α} (pad : α) : x = y ↔
    x.length = y.length ∧ ∀ i ∈ List.range (max x.length y.length), x.getD i pad = y.getD i pad := by
  constructor
  · rintro rfl
    exact ⟨rfl, fun _ _ => rfl⟩
  · rintro ⟨hlen, hall⟩
    refine List.ext_getElem hlen fun i hx hy => ?_
    have hi := hall i (List.mem_range.mpr (Nat.lt_of_lt_of_le hx (Nat.le_max_left _ _)))
    rwa [List.getD_eq_getElem _ _ hx, List.getD_eq_getElem _ _ hy] at hi

end Lib.Accumulate
