import Mathlib.Data.List.Infix

/-!
# Searching and splitting text

`find` is the first place at which a key stands in a text, as `strstr` looks for it. `fields` are the
pieces between separators that are not empty, and `tokens` computes them as successive calls of
`strtok` do.
-/
namespace NbLot.Lib.Text
open List

variable {α : Type} [DecidableEq α]

/-- The first place of a key that is not empty. -/
def find (key : List α) : List α → Option Nat
  | [] => none
  | x :: xs => if key.isPrefixOf (x :: xs) then some 0 else (find key xs).map (· + 1)

theorem find_isSome_iff {key : List α} (hkey : key ≠ []) (text : List α) :
    (find key text).isSome ↔ key <:+: text := by
  induction text with
  | nil => simp [find, hkey]
  | cons x xs ih =>
    rw [find, infix_cons_iff, ← ih]
    split
    case isTrue hhere =>
      exact iff_of_true rfl (.inl ( isPrefixOf_iff_prefix.1 hhere))
    case isFalse hnot =>
      rw [Option.isSome_map, or_iff_right fun h => hnot ( isPrefixOf_iff_prefix.2 h)]

/-- The fields of a text that are not empty. -/
def fields (sep : α) (text : List α) : List (List α) := (text.splitOn sep).filter (· ≠ [])

/-- The fields, where `field` is the one being collected. -/
def tokens (sep : α) (field : List α) : List α → List (List α)
  | [] => if field = [] then [] else [field]
  | c :: cs =>
    if c = sep then
      if field = [] then tokens sep [] cs else field :: tokens sep [] cs
    else tokens sep (field ++ [c]) cs

theorem tokens_eq_filter (sep : α) (field text : List α) :
    tokens sep field text = ((text.splitOn sep).modifyHead (field ++ ·)).filter (· ≠ []) := by
  induction text generalizing field with
  | nil =>
    by_cases hfield : field = [] <;> simp [tokens, hfield]
  | cons c cs ih =>
    rw [tokens, List.splitOn, splitOnP_cons_eq_if_modifyHead]
    by_cases hsep : c = sep
    · have hrest : tokens sep [] cs = (cs.splitOn sep).filter (· ≠ []) := by
        rw [ih]
        congr 1
        exact congrFun modifyHead_id _
      rw [if_pos hsep, if_pos (beq_iff_eq.2 hsep), modifyHead_cons, append_nil, hrest]
      by_cases hfield : field = []
      · rw [if_pos hfield, filter_cons_of_neg (by simp [hfield])]
        rfl
      · rw [if_neg hfield, filter_cons_of_pos (by simp [hfield])]
        rfl
    · rw [if_neg hsep, if_neg (by simp [hsep]), ih, modifyHead_modifyHead]
      congr 2
      funext rest
      exact append_assoc field [c] rest

theorem tokens_eq_fields (sep : α) (text : List α) : tokens sep [] text = fields sep text := by
  rw [tokens_eq_filter]
  congr 1
  exact congrFun modifyHead_id _

/-- A text that is not made of separators has a field. -/
theorem fields_ne_nil {sep c : α} {text : List α} (hc : c ∈ text) (hsep : c ≠ sep) :
    fields sep text ≠ [] := by
  rw [← tokens_eq_fields]
  have hcollects : ∀ (text field : List α), field ≠ [] ∨ c ∈ text → tokens sep field text ≠ [] := by
    intro text
    induction text with
    | nil =>
      intro field h
      have hfield : field ≠ [] := by simpa using h
      simp [tokens, hfield]
    | cons d ds ih =>
      intro field h
      rw [tokens]
      split
      case isTrue hd =>
        split
        case isTrue hempty =>
          have hmem : c ∈ ds := by
            have hcons := h.resolve_left (not_not.2 hempty)
            exact (mem_cons.1 hcons).resolve_left fun heq => hsep (heq.trans hd)
          exact ih [] (.inr hmem)
        case isFalse => exact cons_ne_nil _ _
      case isFalse => exact ih _ (.inl (by simp))
  exact hcollects text [] (.inr hc)

end NbLot.Lib.Text
