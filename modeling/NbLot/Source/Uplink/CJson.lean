import Mathlib.Data.Nat.Digits.Defs
import NbLot.Lib.CharArray

/-!
# The vendored cJSON: trees and their unformatted text

Source: apps/examples/NB_Iot/cJSON.c:147-175 (`print_number`), 252-309
(`print_string_ptr`), 372-404 (`print_value`), 434-512 (`print_array`), 550-658
(`print_object`), 671-699 (construction).

The printers are followed with `fmt = 0` and no print buffer, as
`cJSON_PrintUnformatted` calls them, and every allocation succeeds. A number is one
that `cJSON_CreateNumber` was given as an `int`, so `valueint` equals `valuedouble`.
-/
namespace NbLot.Source.Uplink

/-- The bytes of an ASCII literal. -/
def ascii (s : String) : List UInt8 := s.toList.map fun c => UInt8.ofNat c.toNat

inductive CJson where
  | null
  | false
  | true
  | number (valueint : Int)
  | string (valuestring : List UInt8)
  | array (items : List CJson)
  | object (members : List (List UInt8 × CJson))

/-- `sprintf("%d")`. -/
def decimal (value : Int) : List UInt8 :=
  let digits := (Nat.toDigits 10 value.natAbs).map fun c => UInt8.ofNat c.toNat
  if value < 0 then ascii "-" ++ digits else digits

/-- print_number. -/
def printNumber (valueint : Int) : List UInt8 :=
  if valueint = 0 then ascii "0" else decimal valueint

/-- `sprintf("u%04x")` of a byte. -/
def unicodeEscape (token : UInt8) : List UInt8 :=
  let digit (n : Nat) : UInt8 := UInt8.ofNat (Nat.digitChar n).toNat
  ascii "u00" ++ [digit (token.toNat / 16), digit (token.toNat % 16)]

/-- The bytes one byte of a string is rendered to when some byte of it needs an
escape. -/
def escapeByte (token : UInt8) : List UInt8 :=
  if token > 31 ∧ token ≠ 34 ∧ token ≠ 92 then [token]
  else if token = 92 then ascii "\\\\"
  else if token = 34 then ascii "\\\""
  else if token = 8 then ascii "\\b"
  else if token = 12 then ascii "\\f"
  else if token = 10 then ascii "\\n"
  else if token = 13 then ascii "\\r"
  else if token = 9 then ascii "\\t"
  else ascii "\\" ++ unicodeEscape token

/-- print_string_ptr. -/
def printStringPtr (str : List UInt8) : List UInt8 :=
  if str.any fun b => b < 32 || b = 34 || b = 92 then
    ascii "\"" ++ str.flatMap escapeByte ++ ascii "\""
  else ascii "\"" ++ str ++ ascii "\""

mutual

/-- print_value. -/
def printValue : CJson → List UInt8
  | .null => ascii "null"
  | .false => ascii "false"
  | .true => ascii "true"
  | .number valueint => printNumber valueint
  | .string valuestring => printStringPtr valuestring
  | .array items => ascii "[" ++ printItems items ++ ascii "]"
  | .object members => ascii "\x7b" ++ printMembers members ++ ascii "\x7d"

/-- The entries of print_array, with a comma after each but the last. -/
def printItems : List CJson → List UInt8
  | [] => []
  | [item] => printValue item
  | item :: next :: rest => printValue item ++ ascii "," ++ printItems (next :: rest)

/-- The entries of print_object. -/
def printMembers : List (List UInt8 × CJson) → List UInt8
  | [] => []
  | [(name, item)] => printStringPtr name ++ ascii ":" ++ printValue item
  | (name, item) :: next :: rest =>
    printStringPtr name ++ ascii ":" ++ printValue item ++ ascii "," ++
      printMembers (next :: rest)

end

/-- cJSON_PrintUnformatted. -/
def cJsonPrintUnformatted (item : CJson) : List UInt8 := printValue item

/-- cJSON_AddItemToObject, on the members of the object. -/
def cJsonAddItemToObject (object : List (List UInt8 × CJson)) (name : List UInt8)
    (item : CJson) : List (List UInt8 × CJson) :=
  object ++ [(name, item)]

end NbLot.Source.Uplink
