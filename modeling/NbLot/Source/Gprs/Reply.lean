import Mathlib.Data.List.Basic

/-!
# GPRS receive task: dispatch of one read

Source: apps/examples/lid_master/task_gprs.c:731-807, task_gprs.h, task_485.h.

`master_gprs` reads at most 200 bytes into `cArray` and sets the shared `msgack`
flag by searching them for a keyword. A byte carries a tag `τ` that the code does
not see, so that the bytes a keyword was found in can be followed to their origin.
-/
namespace NbLot.Source.Gprs
open List

/-- The values the handshake gives `gprs_data.msgack`. -/
inductive MsgAck where
  | noack
  | ack
  | regok
  | connect
  deriving DecidableEq, Repr

variable {τ : Type}

/-- `strstr(text, key)` for a key that is not empty: the tags of the first match. -/
def strstr (key : List Char) : List (τ × Char) → Option (List τ)
  | [] => none
  | x :: xs =>
    if key.isPrefixOf ((x :: xs).map Prod.snd) then
      some (((x :: xs).take key.length).map Prod.fst)
    else strstr key xs

/-- The C string that starts at the array: everything before the first NUL. -/
def cString (array : List (τ × Char)) : List (τ × Char) :=
  array.takeWhile fun x => x.2 ≠ Char.ofNat 0

/-- The tokens successive `strtok(·, ",")` calls return: the fields between commas
that are not empty. `field` is the one being collected. -/
def strtokFields (field : List Char) : List Char → List (List Char)
  | [] => if field = [] then [] else [field]
  | c :: cs =>
    if c = ',' then
      if field = [] then strtokFields [] cs else field :: strtokFields [] cs
    else strtokFields (field ++ [c]) cs

/-- What the dispatch of one read does to `msgack`. `fault` is the read of
`pcTempBuf[1][0]` through a NULL `pcTempBuf[1]`. -/
inductive Dispatch (τ : Type) where
  | keep
  | set (value : MsgAck) (keyword : List τ)
  | fault
  deriving DecidableEq, Repr

/-- master_gprs, lines 782-807. -/
def dispatch (cArray : List (τ × Char)) : Dispatch τ :=
  let text := cString cArray
  match strstr ['+', 'C', 'R', 'E', 'G', ':'] text with
  | some keyword =>
    match (strtokFields [] (text.map Prod.snd))[1]? with
    | none => .fault
    | some creg =>
      if creg.head? = some '1' ∨ creg.head? = some '5' then .set .regok keyword else .keep
  | none =>
    match strstr ['C', 'O', 'N', 'N', 'E', 'C', 'T'] text with
    | some keyword => .set .connect keyword
    | none =>
      match strstr ['O', 'K'] text with
      | some keyword => .set .ack keyword
      | none => .keep

theorem strstr_keyword {key : List Char} {text : List (τ × Char)} {keyword : List τ}
    (hkey : key ≠ []) (h : strstr key text = some keyword) :
    keyword ≠ [] ∧ ∀ tag ∈ keyword, ∃ x ∈ text, x.1 = tag := by
  induction text with
  | nil => cases h
  | cons x xs ih =>
    unfold strstr at h
    split at h
    · cases h
      refine ⟨?_, ?_⟩
      · cases key with
        | nil => exact absurd rfl hkey
        | cons c cs => simp
      · intro tag htag
        obtain ⟨y, hy, heq⟩ := mem_map.mp htag
        exact ⟨y, mem_of_mem_take hy, heq⟩
    · obtain ⟨hne, hmem⟩ := ih h
      refine ⟨hne, ?_⟩
      intro tag htag
      obtain ⟨y, hy, heq⟩ := hmem tag htag
      exact ⟨y, mem_cons_of_mem x hy, heq⟩

/-- A keyword that sets the flag is not empty and stands in the bytes read. -/
theorem dispatch_set {cArray : List (τ × Char)} {value : MsgAck} {keyword : List τ}
    (h : dispatch cArray = .set value keyword) :
    keyword ≠ [] ∧ ∀ tag ∈ keyword, ∃ x ∈ cArray, x.1 = tag := by
  have hread : ∀ key : List Char, key ≠ [] → strstr key (cString cArray) = some keyword →
      keyword ≠ [] ∧ ∀ tag ∈ keyword, ∃ x ∈ cArray, x.1 = tag := by
    intro key hkey hfound
    obtain ⟨hne, hmem⟩ := strstr_keyword hkey hfound
    refine ⟨hne, ?_⟩
    intro tag htag
    obtain ⟨x, hx, heq⟩ := hmem tag htag
    exact ⟨x, ( takeWhile_prefix _).subset hx, heq⟩
  unfold dispatch at h
  simp only at h
  split at h
  · rename_i found hfound
    split at h
    · cases h
    · split at h
      · cases h
        exact hread _ (cons_ne_nil _ _) hfound
      · cases h
  · split at h
    · rename_i found hfound
      cases h
      exact hread _ (cons_ne_nil _ _) hfound
    · split at h
      · rename_i found hfound
        cases h
        exact hread _ (cons_ne_nil _ _) hfound
      · cases h

end NbLot.Source.Gprs
