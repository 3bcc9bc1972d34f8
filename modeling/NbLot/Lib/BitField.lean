import Mathlib.Data.Nat.Bitwise

/-!
# Fields of a word

`field x s k` is the number in the `k` bits of `x` from bit `s` on. Masks, shifts and disjoint
unions are turned into division, remainder and addition.
-/
namespace NbLot.Lib.BitField

def field (x s k : Nat) : Nat := x / 2 ^ s % 2 ^ k

theorem and_mask_shiftRight (x s k : Nat) : (x &&& (2 ^ k - 1) <<< s) >>> s = field x s k := by
  rw [Nat.shiftRight_and_distrib, Nat.shiftLeft_shiftRight, Nat.and_two_pow_sub_one_eq_mod,
    Nat.shiftRight_eq_div_pow, field]

theorem field_and {x m s k : Nat} (h : field m s k = 2 ^ k - 1) : field (x &&& m) s k = field x s k := by
  unfold field at *
  rw [Nat.and_div_two_pow, Nat.and_mod_two_pow, h, Nat.and_two_pow_sub_one_eq_mod, Nat.mod_mod]

theorem or_shiftLeft {x s : Nat} (h : x < 2 ^ s) (b : Nat) : x ||| b <<< s = x + b * 2 ^ s := by
  rw [Nat.lor_comm, ← Nat.shiftLeft_add_eq_or_of_lt h, Nat.shiftLeft_eq, Nat.add_comm]

end NbLot.Lib.BitField
