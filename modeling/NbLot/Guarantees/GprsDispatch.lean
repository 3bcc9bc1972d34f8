import NbLot.Lib.Text
import NbLot.Source.Gprs.Reply

/-!
# Dispatch of a GPRS reply

A buffer that holds `+CREG:` is split at its commas, and the second field is read without a look at how
many there are. `dispatched_iff` shows that the dispatch is right for every other buffer and for those
with two fields; the unsolicited `+CREG: 1` has one (`creg_without_comma_faults`).
-/
namespace NbLot.Guarantees.GprsDispatch

open Lib.Text Source.Gprs List

variable {τ : Type} {cArray : List (τ × Char)}

def creg : List Char := ['+', 'C', 'R', 'E', 'G', ':']

def connect : List Char := ['C', 'O', 'N', 'N', 'E', 'C', 'T']

def ok : List Char := ['O', 'K']

/-- The text in the buffer. -/
def text (cArray : List (τ × Char)) : List Char := (cString cArray).map Prod.snd

/-- What a reply should set `msgack` to, if anything. -/
def expected (text : List Char) : Option MsgAck :=
  if creg <:+: text then
    if ((fields ',' text)[1]?.bind List.head?) = some '1' ∨ ((fields ',' text)[1]?.bind List.head?) = some '5'
    then some .regok else none
  else if connect <:+: text then some .connect
  else if ok <:+: text then some .ack
  else none

/-- What the dispatch sets `msgack` to. -/
def assigned : Dispatch τ → Option MsgAck
  | .set value _ => some value
  | .keep | .fault => none

/-- No missing token is read, and `msgack` is set as it should be. -/
def Dispatched (cArray : List (τ × Char)) : Prop :=
  dispatch cArray ≠ .fault ∧ assigned (dispatch cArray) = expected (text cArray)

theorem strtokFields_eq_tokens (field text : List Char) : strtokFields field text = tokens ',' field text := by
  induction text generalizing field with
  | nil => rfl
  | cons c cs ih => simp only [strtokFields, tokens, ih]

theorem strtokFields_eq_fields (text : List Char) : strtokFields [] text = fields ',' text := by
  rw [strtokFields_eq_tokens, tokens_eq_fields]

theorem strstr_isSome_iff {key : List Char} (hkey : key ≠ []) (text : List (τ × Char)) :
    (strstr key text).isSome ↔ key <:+: text.map Prod.snd := by
  induction text with
  | nil => simp [strstr, hkey]
  | cons x xs ih =>
    rw [strstr, map_cons, infix_cons_iff, ← ih]
    split
    case isTrue hhere => exact iff_of_true rfl (.inl ( isPrefixOf_iff_prefix.1 hhere))
    case isFalse hnot => rw [or_iff_right fun h => hnot ( isPrefixOf_iff_prefix.2 h)]

theorem strstr_cases (key : List Char) (hkey : key ≠ []) (cArray : List (τ × Char)) :
    (key <:+: text cArray ∧ ∃ keyword, strstr key (cString cArray) = some keyword) ∨
      (¬key <:+: text cArray ∧ strstr key (cString cArray) = none) := by
  have hiff := strstr_isSome_iff hkey (cString cArray)
  cases hfound : strstr key (cString cArray) with
  | some keyword => exact .inl ⟨hiff.1 (by rw [hfound]; rfl), keyword, rfl⟩
  | none => exact .inr ⟨fun h => by simpa [hfound] using hiff.2 h, rfl⟩

theorem dispatch_creg (h : creg <:+: text cArray) :
    ∃ keyword, dispatch cArray =
      match (fields ',' (text cArray))[1]? with
      | none => .fault
      | some field =>
        if field.head? = some '1' ∨ field.head? = some '5' then .set .regok keyword else .keep := by
  obtain ⟨-, keyword, hfound⟩ | ⟨hnot, -⟩ := strstr_cases creg nofun cArray
  · refine ⟨keyword, ?_⟩
    rw [← strtokFields_eq_fields]
    unfold creg at hfound
    simp only [dispatch, hfound]
    rfl
  · exact absurd h hnot

theorem dispatch_other (h : ¬creg <:+: text cArray) : Dispatched cArray := by
  obtain ⟨hin, -⟩ | ⟨-, hcreg⟩ := strstr_cases creg nofun cArray
  · exact absurd hin h
  · unfold creg at hcreg
    unfold Dispatched expected
    rw [if_neg h]
    obtain ⟨hconnect, keyword, hfound⟩ | ⟨hconnect, hfound⟩ := strstr_cases connect nofun cArray
    · unfold connect at hfound
      simp only [dispatch, hcreg, hfound, if_pos hconnect]
      exact ⟨nofun, rfl⟩
    · unfold connect at hfound
      rw [if_neg hconnect]
      obtain ⟨hok, keyword, hlast⟩ | ⟨hok, hlast⟩ := strstr_cases ok nofun cArray
      · unfold ok at hlast
        simp only [dispatch, hcreg, hfound, hlast, if_pos hok]
        exact ⟨nofun, rfl⟩
      · unfold ok at hlast
        simp only [dispatch, hcreg, hfound, hlast, if_neg hok]
        exact ⟨nofun, rfl⟩

/-- The dispatch of a buffer is right exactly if a registration report in it has a second field. -/
theorem dispatched_iff (cArray : List (τ × Char)) :
    Dispatched cArray ↔ (creg <:+: text cArray → 2 ≤ (fields ',' (text cArray)).length) := by
  by_cases hcreg : creg <:+: text cArray
  · obtain ⟨keyword, hdispatch⟩ := dispatch_creg hcreg
    rw [Dispatched, expected, hdispatch]
    cases hfield : (fields ',' (text cArray))[1]? with
    | none =>
      have hshort := List.getElem?_eq_none_iff.1 hfield
      constructor
      · exact fun h => absurd rfl h.1
      · intro h
        have := h hcreg
        omega
    | some field =>
      have hlong := (List.getElem?_eq_some_iff.1 hfield).1
      refine ⟨fun _ _ => hlong, fun _ => ?_⟩
      dsimp only [Option.bind]
      split
      · exact ⟨nofun, rfl⟩
      · exact ⟨nofun, rfl⟩
  · exact ⟨fun _ h => absurd h hcreg, fun _ => dispatch_other hcreg⟩

/-- An unsolicited report has one field. -/
theorem creg_without_comma_faults :
    dispatch ("+CREG: 1\r\n".toList.map fun c => ((), c)) = .fault := by decide

end NbLot.Guarantees.GprsDispatch
