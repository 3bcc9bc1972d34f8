import Mathlib.Data.Nat.Bitwise

/-!
# Word memory and 32-bit arithmetic

Memory is a function from addresses to 32-bit words. `set_same` and `set_of_ne` read
back a store, `set_comm` reorders two; the arithmetic lemmas turn 32-bit operations into plain ones where the
operands are small enough.
-/
namespace NbLot.Lib

abbrev Words := Nat → Nat

def Words.set (m : Words) (a v : Nat) : Words := fun b => if b = a then v else m b

variable {m : Words} (x : Nat)

@[simp] theorem Words.set_same {a v : Nat} : m.set a v a = v := if_pos rfl

theorem Words.set_of_ne {a v b : Nat} (h : b ≠ a) : m.set a v b = m b := if_neg h

theorem Words.set_comm (a b : Nat) {v w : Nat} (h : a ≠ b) :
    (m.set a v).set b w = (m.set b w).set a v := by
  funext x
  unfold Words.set
  by_cases hb : x = b
  · rw [if_pos hb, if_neg (by omega), if_pos hb]
  · rw [if_neg hb, if_neg hb]

theorem Words.set_undo (m : Words) (a v w : Nat) (h : m a = v) : (m.set a w).set a v = m := by
  funext b
  by_cases hb : b = a
  · rw [hb, Words.set_same, h]
  · rw [Words.set_of_ne hb, Words.set_of_ne hb]

def add32 (a b : Nat) : Nat := (a + b) % 2 ^ 32

def sub32 (a b : Nat) : Nat := (a + 2 ^ 32 - b) % 2 ^ 32

/-- `x & ~mask`. -/
def clear32 (x mask : Nat) : Nat := x &&& (0xffffffff ^^^ mask)

theorem add32_of_lt {a b : Nat} (h : a + b < 2 ^ 32) : add32 a b = a + b := Nat.mod_eq_of_lt h

theorem sub32_of_le {a b : Nat} (hle : b ≤ a) (ha : a < 2 ^ 32) : sub32 a b = a - b := by
  unfold sub32
  omega

theorem or_top (h : x < 2 ^ 31) : x ||| 2 ^ 31 = x + 2 ^ 31 := by
  have hor := Nat.two_pow_add_eq_or_of_lt h 1
  rw [Nat.mul_one, Nat.lor_comm] at hor
  omega

theorem and_top_of_lt (h : x < 2 ^ 31) : x &&& 2 ^ 31 = 0 := by
  rw [Nat.and_two_pow, Nat.testBit_lt_two_pow h]
  rfl

theorem add_top_and_top (h : x < 2 ^ 31) : (x + 2 ^ 31) &&& 2 ^ 31 = 2 ^ 31 := by
  rw [Nat.and_two_pow, Nat.add_comm, Nat.testBit_two_pow_add_eq, Nat.testBit_lt_two_pow h]
  rfl

theorem clear32_top : clear32 x (2 ^ 31) = x % 2 ^ 31 := by
  unfold clear32
  rw [show 0xffffffff ^^^ 2 ^ 31 = 2 ^ 31 - 1 from rfl, Nat.and_two_pow_sub_one_eq_mod]

/-- Clearing the low `k` bits rounds down to a multiple of `2 ^ k`. -/
theorem clear32_mask {x : Nat} (k : Nat) (hx : x < 2 ^ 32) :
    clear32 x (2 ^ k - 1) = 2 ^ k * (x / 2 ^ k) := by
  unfold clear32
  rw [show 0xffffffff = 2 ^ 32 - 1 from rfl, Nat.and_xor_distrib_left,
    Nat.and_two_pow_sub_one_eq_mod, Nat.and_two_pow_sub_one_eq_mod, Nat.mod_eq_of_lt hx]
  apply Nat.eq_of_testBit_eq
  intro j
  rw [Nat.testBit_xor, Nat.testBit_two_pow_mul, Nat.testBit_div_two_pow]
  by_cases hj : j < k
  · simp [hj]
  · have hshift : j - k + k = j := by omega
    simp [hj, hshift]
    omega

theorem clear32_round_up (x k : Nat) (h : x + 2 ^ k ≤ 2 ^ 32) :
    x ≤ clear32 (add32 x (2 ^ k - 1)) (2 ^ k - 1) ∧
      clear32 (add32 x (2 ^ k - 1)) (2 ^ k - 1) < x + 2 ^ k ∧
      2 ^ k ∣ clear32 (add32 x (2 ^ k - 1)) (2 ^ k - 1) := by
  have hpos : 0 < 2 ^ k := Nat.two_pow_pos k
  rw [add32_of_lt (by omega), clear32_mask k (by omega)]
  have hdiv := Nat.div_add_mod (x + (2 ^ k - 1)) (2 ^ k)
  exact ⟨by omega, by omega, Nat.dvd_mul_right _ _⟩

end NbLot.Lib
