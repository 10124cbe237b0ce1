import Mathlib.Algebra.Group.Nat.Defs
import Mathlib.Tactic.Common

/-!
`InterlockedIncrement` and `InterlockedDecrement` on the 32-bit counters of the library.
-/

namespace WanNet

def inc32 (x : Nat) : Nat := (x + 1) % 2 ^ 32

def dec32 (x : Nat) : Nat := (2 ^ 32 - 1 + x) % 2 ^ 32

theorem inc32_lt (x : Nat) : inc32 x < 2 ^ 32 := Nat.mod_lt _ (Nat.two_pow_pos 32)

theorem dec32_lt (x : Nat) : dec32 x < 2 ^ 32 := Nat.mod_lt _ (Nat.two_pow_pos 32)

theorem dec32_inc32 (word : x < 2 ^ 32) : dec32 (inc32 x) = x := by
  unfold inc32 dec32
  omega

theorem inc32_eq (room : x + 1 < 2 ^ 32) : inc32 x = x + 1 := Nat.mod_eq_of_lt room

theorem dec32_eq (pos : 0 < x) (word : x < 2 ^ 32) : dec32 x = x - 1 := by
  unfold dec32
  omega

end WanNet
