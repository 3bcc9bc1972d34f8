import Mathlib.Data.List.TakeWhile

/-!
# Bounded character arrays

A `CharArray cap` is a `char[cap]` that holds a C string: the bytes before the first
NUL, and room for that NUL. An operation that would store past the end gives `none`.
-/
namespace NbLot.Lib
open List

/-- The C string at the start of the bytes. -/
def cstr (bytes : List UInt8) : List UInt8 := bytes.takeWhile (· ≠ 0)

variable (bytes : List UInt8) {cap : Nat}

theorem cstr_length_le : (cstr bytes).length ≤ bytes.length :=
  ( takeWhile_prefix _).length_le

theorem cstr_of_nulFree (h : ∀ b ∈ bytes, b ≠ 0) : cstr bytes = bytes := by
  unfold cstr
  rw [takeWhile_eq_self_iff]
  intro b hb
  exact decide_eq_true (h b hb)

theorem cstr_append_nul (text rest : List UInt8) (h : ∀ b ∈ text, b ≠ 0) : cstr (text ++ 0 :: rest) = text := by
  unfold cstr
  rw [takeWhile_append_of_pos fun b hb => decide_eq_true (h b hb)]
  simp

theorem nulFree_cstr : ∀ b ∈ cstr bytes, b ≠ 0 := by
  intro b hb
  have hkept := mem_takeWhile_imp hb
  exact of_decide_eq_true hkept

structure CharArray (cap : Nat) where
  text : List UInt8
  nulFree : ∀ b ∈ text, b ≠ 0
  terminated : text.length < cap

/-- The bytes and a NUL are stored from the start of the array. -/
def store (cap : Nat) (bytes : List UInt8) : Option (CharArray cap) :=
  if h : bytes.length < cap then
    some ⟨cstr bytes, nulFree_cstr bytes, Nat.lt_of_le_of_lt (cstr_length_le bytes) h⟩
  else none

/-- `strcpy` into an array of `cap` bytes. -/
def strcpy (cap : Nat) (src : List UInt8) : Option (CharArray cap) := store cap (cstr src)

theorem nulFree_append (a b : List UInt8) (ha : ∀ x ∈ a, x ≠ 0) (hb : ∀ x ∈ b, x ≠ 0) :
    ∀ x ∈ a ++ b, x ≠ 0 := by
  intro x hx
  cases mem_append.mp hx with
  | inl h => exact ha x h
  | inr h => exact hb x h

def strcat {cap : Nat} (dest : CharArray cap) (src : List UInt8) : Option (CharArray cap) :=
  if h : (dest.text ++ cstr src).length < cap then
    some ⟨dest.text ++ cstr src, nulFree_append _ _ dest.nulFree (nulFree_cstr src), h⟩
  else none

theorem store_eq_some (cap : Nat) (bytes : List UInt8) (h : bytes.length < cap) :
    ∃ a, store cap bytes = some a ∧ a.text = cstr bytes :=
  ⟨_, dif_pos h, rfl⟩

theorem strcpy_eq_some (cap : Nat) (src : List UInt8) (h : (cstr src).length < cap) :
    ∃ a, strcpy cap src = some a ∧ a.text = cstr src := by
  obtain ⟨a, ha, htext⟩ := store_eq_some cap (cstr src) h
  refine ⟨a, ha, ?_⟩
  rw [htext]
  exact cstr_of_nulFree _ (nulFree_cstr src)

theorem strcat_eq_some (dest : CharArray cap) (src : List UInt8)
    (h : dest.text.length + (cstr src).length < cap) :
    ∃ a, strcat dest src = some a ∧ a.text = dest.text ++ cstr src := by
  have hfits : (dest.text ++ cstr src).length < cap := by rw [length_append]; exact h
  exact ⟨_, dif_pos hfits, rfl⟩

/-- A chain of `strcat` calls succeeds when the array has room for all the parts. -/
theorem strcats_eq_some (parts : List (List UInt8)) (dest : CharArray cap)
    (h : dest.text.length + (parts.map cstr).flatten.length < cap) :
    ∃ a, parts.foldlM strcat dest = some a ∧
      a.text = dest.text ++ (parts.map cstr).flatten := by
  induction parts generalizing dest with
  | nil => exact ⟨dest, rfl, (append_nil _).symm⟩
  | cons part parts ih =>
    simp only [map_cons, flatten_cons, length_append] at h
    obtain ⟨next, hnext, htext⟩ := strcat_eq_some dest part (by omega)
    obtain ⟨a, ha, hall⟩ := ih next (by rw [htext, length_append]; omega)
    refine ⟨a, ?_, ?_⟩
    · rw [foldlM_cons, hnext]
      exact ha
    · rw [hall, htext, append_assoc]
      rfl

end NbLot.Lib
