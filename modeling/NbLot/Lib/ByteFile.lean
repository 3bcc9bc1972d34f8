import Mathlib.Data.List.Basic

/-!
# Files as lists of elements

Reading and writing at a position. A write behind the end fills the gap with the default
element; two writes one behind the other are one write.
-/
namespace NbLot.Lib.ByteFile
open List

variable {α : Type} [Inhabited α]

/-- What is read at a position. -/
def readAt (data : List α) (pos count : Nat) : List α := (data.drop pos).take count

/-- The contents after elements are written at a position. -/
def writeAt (data : List α) (pos : Nat) (bytes : List α) : List α :=
  if bytes = [] then data
  else data.take pos ++ List.replicate (pos - data.length) default ++ bytes ++
    data.drop (pos + bytes.length)

section

variable (data : List α) {bytes : List α}
include data

@[simp] theorem writeAt_nil (pos : Nat) : writeAt data pos [] = data := rfl

theorem getElem?_writeAt (pos : Nat) (hne : bytes ≠ []) (i : Nat) :
    (writeAt data pos bytes)[i]? =
      if i < pos then if i < data.length then data[i]? else some default
      else if i < pos + bytes.length then bytes[i - pos]? else data[i]? := by
  rw [writeAt, if_neg hne]
  have hhead : (data.take pos ++ List.replicate (pos - data.length) default).length = pos := by
    rw [length_append, length_take, length_replicate]
    omega
  rw [append_assoc]
  by_cases hi : i < pos
  · rw [if_pos hi, getElem?_append_left (by omega)]
    by_cases hlen : i < data.length
    · rw [if_pos hlen, getElem?_append_left (by rw [length_take]; omega), getElem?_take_of_lt hi]
    · rw [if_neg hlen, getElem?_append_right (by rw [length_take]; omega),
        getElem?_replicate_of_lt (by rw [length_take]; omega)]
  · rw [if_neg hi, getElem?_append_right (by omega), hhead]
    by_cases hin : i < pos + bytes.length
    · rw [if_pos hin, getElem?_append_left (by omega)]
    · rw [if_neg hin, getElem?_append_right (by omega), getElem?_drop]
      congr 1
      omega

theorem length_writeAt (pos : Nat) (hne : bytes ≠ []) :
    (writeAt data pos bytes).length = max data.length (pos + bytes.length) := by
  rw [writeAt, if_neg hne]
  simp only [length_append, length_take, length_replicate, length_drop]
  omega

/-- A write goes on where the one before it ended. -/
theorem writeAt_append (pos : Nat) (a b : List α) :
    writeAt (writeAt data pos a) (pos + a.length) b = writeAt data pos (a ++ b) := by
  by_cases ha : a = []
  · rw [ha]
    rfl
  by_cases hb : b = []
  · rw [hb, writeAt_nil, append_nil]
  have hab : a ++ b ≠ [] := by simp [hb]
  refine ext_getElem? fun i => ?_
  rw [getElem?_writeAt _ _ hb, getElem?_writeAt _ _ hab, getElem?_writeAt _ _ ha,
    length_writeAt _ _ ha, length_append]
  by_cases hpos : i < pos
  · rw [if_pos (by omega), if_pos (by omega), if_pos hpos, if_pos hpos]
  · by_cases hi : i < pos + a.length
    · rw [if_pos hi, if_pos (by omega), if_neg hpos, if_pos hi, if_neg hpos, if_pos (by omega),
        getElem?_append_left (by omega)]
    · rw [if_neg hi, if_neg hpos]
      by_cases hin : i < pos + a.length + b.length
      · rw [if_pos hin, if_neg hpos, if_pos (by omega), getElem?_append_right (by omega)]
        congr 1
        omega
      · rw [if_neg hin, if_neg hi, if_neg hpos, if_neg (by omega)]

omit [Inhabited α] in
theorem readAt_append (pos m n : Nat) :
    readAt data pos (m + n) = readAt data pos m ++ readAt data (pos + m) n := by
  rw [readAt, readAt, readAt, take_add, drop_drop]

omit [Inhabited α] in
theorem length_readAt (pos n : Nat) : (readAt data pos n).length = min n (data.length - pos) := by
  rw [readAt, length_take, length_drop]

omit [Inhabited α] in
theorem readAt_length (pos n : Nat) :
    readAt data pos (readAt data pos n).length = readAt data pos n := by
  rw [length_readAt]
  unfold readAt
  have hall : (data.drop pos).length ≤ data.length - pos := Nat.le_of_eq (length_drop ..)
  rw [← take_take, take_of_length_le hall]

end

end NbLot.Lib.ByteFile
