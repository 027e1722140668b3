import VisionPlayback.Http.Listener
import VisionPlayback.Lib.Accumulate

/-!
# The API key

The comparison in constant time decides equality: no difference that it has gathered on
its way is lost again.
-/

namespace VisionPlayback

open Lib Lib.Accumulate

namespace Listener

/-- The lengths leave a bit in the accumulator unless they are the same. -/
theorem xorLengths_eq_zero {m n : ℕ} (hm : m < 2 ^ 32) (hn : n < 2 ^ 32) :
    UInt32.ofNat (m ^^^ n) = 0 ↔ m = n := by
  have hlt : m ^^^ n < 2 ^ 32 := Nat.xor_lt_two_pow hm hn
  rw [← UInt32.toNat_inj, UInt32.toNat_ofNat_of_lt' hlt]
  show m ^^^ n = 0 ↔ m = n
  constructor
  · intro h
    calc m = (m ^^^ n) ^^^ n := by rw [Nat.xor_assoc, Nat.xor_self, Nat.xor_zero]
      _ = n := by rw [h, Nat.zero_xor]
  · rintro rfl
    exact Nat.xor_self m

theorem toUInt32_xor_eq_zero {a b : UInt8} : a.toUInt32 ^^^ b.toUInt32 = 0 ↔ a = b := by
  rw [UInt32.xor_eq_zero_iff]
  constructor
  · intro h
    have hnat := congrArg UInt32.toNat h
    rw [UInt8.toNat_toUInt32, UInt8.toNat_toUInt32] at hnat
    exact UInt8.toNat_inj.mp hnat
  · rintro rfl
    rfl

/-- **The check decides equality**, for keys of any bytes whose lengths fit 32 bits. -/
theorem validateApiKey_iff {expectedKey providedKey : Bytes}
    (he : expectedKey.length < 2 ^ 32) (hp : providedKey.length < 2 ^ 32) :
    validateApiKey expectedKey providedKey = true ↔ expectedKey = providedKey := by
  have hadd : ∀ (diff : UInt32) (i : ℕ),
      diff ||| ((expectedKey.getD i 0).toUInt32 ^^^ (providedKey.getD i 0).toUInt32) = 0 ↔
        diff = 0 ∧ expectedKey.getD i 0 = providedKey.getD i 0 := by
    intro diff i
    rw [UInt32.or_eq_zero_iff, toUInt32_xor_eq_zero]
  unfold validateApiKey
  rw [beq_iff_eq, foldl_iff (· = 0) (fun i => expectedKey.getD i 0 = providedKey.getD i 0) hadd,
    xorLengths_eq_zero he hp, ← eq_iff_getD]

/-- A key and the key followed by a NUL byte. -/
theorem validateApiKey_iff_nul :
    validateApiKey (utf8 "key") (utf8 "key" ++ [0]) = true ↔ utf8 "key" = utf8 "key" ++ [0] :=
  validateApiKey_iff (by decide) (by decide)

end Listener

end VisionPlayback
