import NbLot.Source.Modem.Numerals

/-!
# Decimal texts of the modem

`myatoi` is to saturate. It looks at the sign of its accumulator after each digit. A number past 2^32 can wrap to a positive
`int` again, and is then not noticed: the result is right exactly when the number fits, when the number of
some of its first digits wraps to a negative `int`, or when it wraps to the greatest one
(`myatoi_saturates_iff`).

Source: apps/examples/NB_Iot/NB_Iot.c:369-398.
-/
namespace NbLot.Guarantees.ModemNumerals

open Source.Modem List

/-- The digits behind any spaces and a sign, and whether the sign is a minus. -/
def numeral (str : List UInt8) : Bool × List UInt8 :=
  match str.dropWhile (· = 32) with
  | 45 :: digits => (true, digits.takeWhile isDigit)
  | 43 :: digits => (false, digits.takeWhile isDigit)
  | digits => (false, digits.takeWhile isDigit)

theorem myatoi_eq (str : List UInt8) : ∃ text, (numeral str).2 = text.takeWhile isDigit ∧
    myatoi str = (myatoiLoop 0 text * if (numeral str).1 then -1 else 1).bmod (2 ^ 32) := by
  unfold myatoi numeral
  generalize str.dropWhile (· = 32) = text
  simp only
  split
  · exact ⟨_, rfl, rfl⟩
  · exact ⟨_, rfl, rfl⟩
  · next hminus hplus =>
    have hhead : text.head? ≠ some 45 ∧ text.head? ≠ some 43 := by
      cases text with
      | nil => decide
      | cons c rest =>
        rw [head?_cons, ne_eq, ne_eq, Option.some.injEq, Option.some.injEq]
        exact ⟨fun h => hminus rest (by rw [h]), fun h => hplus rest (by rw [h])⟩
    refine ⟨text, rfl, ?_⟩
    rw [if_neg (not_or.mpr hhead), decide_eq_false hhead.1]

theorem decimal_le {digits : List UInt8} : ∀ v, v ≤ decimal v digits := by
  induction digits with
  | nil => exact Nat.le_refl
  | cons c digits ih =>
    intro v
    have hrest := ih (v * 10 + (c.toNat - 48))
    exact Nat.le_trans (by omega) hrest

theorem decimal_prefix {p digits : List UInt8} (h : p <+: digits) : decimal 0 p ≤ decimal 0 digits := by
  obtain ⟨-, rfl⟩ := h
  rw [decimal, decimal, foldl_append]
  exact decimal_le _

/-- The numbers that `myatoi` saturates. -/
theorem myatoi_saturates_iff (str : List UInt8) :
    myatoi str = (if (numeral str).1 then -1 else 1) * (min (decimal 0 (numeral str).2) 2147483647 : Nat) ↔
      decimal 0 (numeral str).2 ≤ 2147483647 ∨
        (∃ p, p <+: (numeral str).2 ∧ 2 ^ 31 ≤ decimal 0 p % 2 ^ 32) ∨
        decimal 0 (numeral str).2 % 2 ^ 32 = 2147483647 := by
  obtain ⟨text, hdigits, heq⟩ := myatoi_eq str
  have hloop := myatoiLoop_eq text 0 (by decide)
  rw [← hdigits] at hloop
  have hsign : ∀ n : Nat, n < 2 ^ 31 → ∀ m : Nat, ((n : Int) * if (numeral str).1 then -1 else 1).bmod (2 ^ 32) =
      (if (numeral str).1 then -1 else 1) * (m : Int) ↔ n = m := by
    intro n hn m
    rw [Int.bmod_eq_of_le (by split_ifs <;> omega) (by split_ifs <;> omega)]
    split_ifs
    all_goals omega
  rcases hloop with ⟨⟨p, hp, hbig⟩, hend⟩ | ⟨hsmall, hend⟩
  · have hle := decimal_prefix hp
    rw [heq, show myatoiLoop 0 text = (2147483647 : Nat) from hend, hsign _ (by decide)]
    exact ⟨fun _ => .inr (.inl ⟨p, hp, hbig⟩), fun _ => by omega⟩
  · have hlast := hsmall _ (prefix_refl _)
    rw [heq, show myatoiLoop 0 text = _ from hend, hsign _ hlast]
    constructor
    · intro h
      omega
    · rintro (hfits | ⟨p, hp, hbig⟩ | hmax)
      · omega
      · exact absurd (hsmall p hp) (Nat.not_lt.mpr hbig)
      · omega

/-- "4294967296" gives 0. -/
theorem myatoi_wraps : myatoi [52, 50, 57, 52, 57, 54, 55, 50, 57, 54] = 0 ∧
    numeral [52, 50, 57, 52, 57, 54, 55, 50, 57, 54] = (false, [52, 50, 57, 52, 57, 54, 55, 50, 57, 54]) ∧
    decimal 0 [52, 50, 57, 52, 57, 54, 55, 50, 57, 54] = 4294967296 := by
  decide +kernel

end NbLot.Guarantees.ModemNumerals
