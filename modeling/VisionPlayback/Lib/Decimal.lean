import Mathlib.Data.List.Basic
import Mathlib.Data.List.Induction
import Mathlib.Data.UInt

/-!
# Decimal numerals of fixed width

Numbers padded with zeros on the left, and back. A number that does not fit its
width is printed whole, so the width is kept only below the power of ten. Numerals hold
no separator, so a text that ends in one can be split at the last separator.
-/

namespace Lib.Decimal

def pad (width n : ℕ) : List Char :=
  List.replicate (width - (Nat.toDigits 10 n).length) '0' ++ Nat.toDigits 10 n

theorem value_pad (width n : ℕ) : Nat.ofDigitChars 10 (pad width n) 0 = n := by
  rw [pad, Nat.ofDigitChars_append, Nat.ofDigitChars_replicate_zero, Nat.mul_zero,
    Nat.ofDigitChars_ten_toDigits]

theorem pad_inj {width n m : ℕ} (h : pad width n = pad width m) : n = m := by
  rw [← value_pad width n, h, value_pad]

theorem toDigits_inj {n m : ℕ} (h : Nat.toDigits 10 n = Nat.toDigits 10 m) : n = m := by
  rw [← Nat.ofDigitChars_ten_toDigits (n := n), h, Nat.ofDigitChars_ten_toDigits]

theorem length_pad {width n : ℕ} (hw : 0 < width) (h : n < 10 ^ width) :
    (pad width n).length = width := by
  have hle := (Nat.length_toDigits_le_iff (by decide) hw).mpr h
  rw [pad, List.length_append, List.length_replicate]
  omega

theorem isDigit_of_mem_toDigits {n : ℕ} {c : Char} (h : c ∈ Nat.toDigits 10 n) :
    c.isDigit = true :=
  Nat.isDigit_of_mem_toDigits (by decide) (by decide) h

theorem toNat_of_isDigit {c : Char} (h : c.isDigit = true) : 48 ≤ c.toNat ∧ c.toNat ≤ 57 := by
  simp only [Char.isDigit, Bool.and_eq_true, decide_eq_true_eq] at h
  exact h

theorem digitChar_of_isDigit {c : Char} (h : c.isDigit = true) :
    Nat.digitChar (c.toNat - 48) = c := by
  obtain ⟨hlo, hhi⟩ := toNat_of_isDigit h
  apply Char.toNat_inj.mp
  have hcases : c.toNat - 48 < 10 := by omega
  rw [Nat.toNat_digitChar_of_lt_ten hcases]
  omega

/-- One more digit on the right is one more place. -/
theorem pad_succ {width n d : ℕ} (hw : 0 < width) (hd : d < 10) :
    pad (width + 1) (10 * n + d) = pad width n ++ [Nat.digitChar d] := by
  by_cases hn : n = 0
  · subst hn
    have hzero : pad width 0 = List.replicate width '0' := by
      rw [pad, Nat.toDigits_zero, List.length_singleton, ← List.replicate_one,
        List.replicate_append_replicate]
      congr 1
      omega
    rw [hzero, Nat.mul_zero, Nat.zero_add, pad, Nat.toDigits_of_lt_base hd]
    rfl
  · have hdigits : Nat.toDigits 10 (10 * n + d) = Nat.toDigits 10 n ++ [Nat.digitChar d] := by
      rw [← Nat.toDigits_append_toDigits (by decide) (Nat.pos_of_ne_zero hn) hd,
        Nat.toDigits_of_lt_base hd]
    rw [pad, pad, hdigits, List.length_append, List.length_singleton, List.append_assoc]
    congr 2
    omega

/-- Digits are the numeral of their value, at their own width. -/
theorem pad_value {l : List Char} (hne : l ≠ []) (h : ∀ c ∈ l, c.isDigit = true) :
    pad l.length (Nat.ofDigitChars 10 l 0) = l := by
  induction l using List.reverseRecOn with
  | nil => exact absurd rfl hne
  | append_singleton l c ih =>
    have hc : c.isDigit = true := h c (List.mem_append_right _ (List.mem_singleton_self c))
    obtain ⟨hlo, hhi⟩ := toNat_of_isDigit hc
    have hvalue : Nat.ofDigitChars 10 (l ++ [c]) 0 =
        10 * Nat.ofDigitChars 10 l 0 + (c.toNat - 48) := by
      rw [Nat.ofDigitChars_append, Nat.ofDigitChars_cons, Nat.ofDigitChars_nil]
      rfl
    rw [hvalue, List.length_append, List.length_singleton]
    by_cases hl : l = []
    · subst hl
      have hlt : c.toNat - 48 < 10 := by omega
      show pad 1 (10 * 0 + (c.toNat - 48)) = [c]
      rw [Nat.mul_zero, Nat.zero_add, pad, Nat.toDigits_of_lt_base hlt, digitChar_of_isDigit hc]
      rfl
    · rw [pad_succ (List.length_pos_iff.mpr hl) (by omega), digitChar_of_isDigit hc,
        ih hl fun c hc => h c (List.mem_append_left _ hc)]

/-! ## Numerals in a text with separators -/

theorem isDigit_of_mem_toString {n : ℕ} {c : Char} (h : c ∈ (toString n).toList) :
    c.isDigit = true := by
  rw [Nat.toString_eq_repr, Nat.toList_repr] at h
  exact isDigit_of_mem_toDigits h

theorem toString_inj {n m : ℕ} (h : toString n = toString m) : n = m := by
  have hlist := congrArg String.toList h
  rw [Nat.toString_eq_repr, Nat.toString_eq_repr, Nat.toList_repr, Nat.toList_repr] at hlist
  exact toDigits_inj hlist

theorem toList_intToString (i : ℤ) :
    (toString i).toList = if 0 ≤ i then (toString i.toNat).toList
      else '-' :: (toString (-i).toNat).toList := by
  rw [Int.toString_eq_repr, Int.repr_eq_if]
  split
  · rfl
  · rw [String.toList_append]
    rfl

theorem mem_intToString {i : ℤ} {c : Char} (h : c ∈ (toString i).toList) :
    c = '-' ∨ c.isDigit = true := by
  rw [toList_intToString] at h
  split at h
  · exact Or.inr (isDigit_of_mem_toString h)
  · rcases List.mem_cons.mp h with rfl | h
    · exact Or.inl rfl
    · exact Or.inr (isDigit_of_mem_toString h)

theorem intToString_inj {i j : ℤ} (h : toString i = toString j) : i = j := by
  have hlist := congrArg String.toList h
  rw [toList_intToString, toList_intToString] at hlist
  have hminus : ∀ n : ℕ, ∀ l, (toString n).toList ≠ '-' :: l := by
    intro n l he
    have := isDigit_of_mem_toString (he ▸ List.mem_cons_self)
    revert this
    decide
  split at hlist
  · split at hlist
    · have := toString_inj (String.toList_inj.mp hlist)
      omega
    · exact absurd hlist (hminus _ _)
  · split at hlist
    · exact absurd hlist.symm (hminus _ _)
    · have := toString_inj (String.toList_inj.mp (List.cons.inj hlist).2)
      omega

/-- Two texts are equal up to the last place of a character only if they are equal
before and after it. -/
theorem append_cons_inj_of_last {α : Type*} {x x' z z' : List α} {a : α}
    (h : x ++ a :: z = x' ++ a :: z') (hz : a ∉ z) (hz' : a ∉ z') : x = x' ∧ z = z' := by
  rcases List.append_eq_append_iff.mp h with ⟨l, rfl, hl⟩ | ⟨l, rfl, hl⟩
  · cases l with
    | nil =>
      obtain ⟨-, rfl⟩ := List.cons.inj hl
      exact ⟨(List.append_nil x).symm, rfl⟩
    | cons b l =>
      obtain ⟨-, rfl⟩ := List.cons.inj hl
      exact absurd (List.mem_append_right _ List.mem_cons_self) hz
  · cases l with
    | nil =>
      obtain ⟨-, rfl⟩ := List.cons.inj hl
      exact ⟨List.append_nil x', rfl⟩
    | cons b l =>
      obtain ⟨-, rfl⟩ := List.cons.inj hl
      exact absurd (List.mem_append_right _ List.mem_cons_self) hz'

/-- And likewise at the first place of the character. -/
theorem append_cons_inj_of_first {α : Type*} {x x' z z' : List α} {a : α}
    (h : x ++ a :: z = x' ++ a :: z') (hx : a ∉ x) (hx' : a ∉ x') : x = x' ∧ z = z' := by
  have hrev := congrArg List.reverse h
  simp only [List.reverse_append, List.reverse_cons, List.append_assoc,
    List.singleton_append] at hrev
  obtain ⟨hz, hx⟩ := append_cons_inj_of_last hrev (mt List.mem_reverse.mp hx)
    (mt List.mem_reverse.mp hx')
  exact ⟨List.reverse_injective hx, List.reverse_injective hz⟩

end Lib.Decimal
