import Mathlib.Algebra.Group.Nat.Defs
import Mathlib.Data.Fin.Basic
import Mathlib.Data.List.TakeWhile

/-!
# Decimal texts

Source: apps/examples/NB_Iot/NB_Iot.c:369-398 (`myatoi`).

`myatoi` works on the bytes of a C string, with an `int` of 32 bits.
-/
namespace NbLot.Source.Modem
open List Function

/-- `*str >= '0' && *str <= '9'`. -/
def isDigit (c : UInt8) : Bool := c ≥ 48 ∧ c ≤ 57

def myatoiLoop : Int → List UInt8 → Int
  | s, [] => s
  | s, c :: str =>
    if isDigit c then
      let s := (s * 10 + c.toNat - 48).bmod (2 ^ 32)
      if s < 0 then 2147483647 else myatoiLoop s str
    else s

def myatoi (str : List UInt8) : Int :=
  let str := str.dropWhile (· = 32)
  let flag : Bool := str.head? = some 45
  let str := if str.head? = some 45 ∨ str.head? = some 43 then str.tail else str
  (myatoiLoop 0 str * if flag then -1 else 1).bmod (2 ^ 32)

/-- The digits continue the number `v`. -/
def decimal (v : Nat) (digits : List UInt8) : Nat := digits.foldl (fun v c => v * 10 + (c.toNat - 48)) v

/-- The accumulator is the number modulo 2^32 until that is 2^31 or more, and saturates there. -/
theorem myatoiLoop_eq (str : List UInt8) : ∀ v : Nat, v % 2 ^ 32 < 2 ^ 31 →
    ((∃ p, p <+: str.takeWhile isDigit ∧ 2 ^ 31 ≤ decimal v p % 2 ^ 32) ∧
      myatoiLoop (v % 2 ^ 32 : Nat) str = 2147483647) ∨
    ((∀ p, p <+: str.takeWhile isDigit → decimal v p % 2 ^ 32 < 2 ^ 31) ∧
      myatoiLoop (v % 2 ^ 32 : Nat) str = (decimal v (str.takeWhile isDigit) % 2 ^ 32 : Nat)) := by
  induction str with
  | nil =>
    intro v hv
    refine .inr ⟨fun p hp => ?_, rfl⟩
    rw [prefix_nil.mp hp]
    exact hv
  | cons c str ih =>
    intro v hv
    rw [takeWhile_cons, myatoiLoop]
    by_cases hdigit : isDigit c
    · have hvalue : 48 ≤ c.toNat := (of_decide_eq_true hdigit).1
      generalize hnext : v * 10 + (c.toNat - 48) = next
      have hacc : (((v % 2 ^ 32 : Nat) : Int) * 10 + c.toNat - 48).bmod (2 ^ 32) =
          if next % 2 ^ 32 < 2 ^ 31 then ((next % 2 ^ 32 : Nat) : Int) else next % 2 ^ 32 - 2 ^ 32 := by
        rw [Int.bmod_def]
        split_ifs
        all_goals omega
      simp only [if_pos hdigit, hacc]
      by_cases hfits : next % 2 ^ 32 < 2 ^ 31
      · rw [if_pos hfits]
        subst hnext
        rcases ih _ hfits with ⟨⟨p, hp, hbig⟩, hend⟩ | ⟨hsmall, hend⟩
        · exact .inl ⟨⟨c :: p, cons_prefix_cons.mpr ⟨rfl, hp⟩, hbig⟩, hend⟩
        · refine .inr ⟨fun p hp => ?_, hend⟩
          cases p with
          | nil => exact hv
          | cons d p =>
            obtain ⟨rfl, hrest⟩ := cons_prefix_cons.mp hp
            exact hsmall p hrest
      · have hbig : 2 ^ 31 ≤ decimal v [c] % 2 ^ 32 := by
          rw [decimal, foldl_cons, foldl_nil]
          omega
        rw [if_pos (by omega)]
        exact .inl ⟨⟨[c], prefix_append [c] _, hbig⟩, rfl⟩
    · rw [if_neg hdigit, if_neg hdigit]
      refine .inr ⟨fun p hp => ?_, rfl⟩
      rw [prefix_nil.mp hp]
      exact hv

end NbLot.Source.Modem
