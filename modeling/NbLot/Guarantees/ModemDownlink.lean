import NbLot.Source.Modem.Downlink

/-!
# Downlink messages are asked for and split

A notification `+NSONMI:0,<length>` is to be answered by `AT+NSORF=0,<length>`, and the fields of the
reply are to be counted.

The key is looked for in the whole text, but the command is taken from byte 10 of it, and copied into 64
bytes without a bound: it is the one asked for exactly when the key stands behind two bytes (the CR and LF
that the modem puts in front) and the text has at most 64 (`nsorf_iff`). Of the reply nothing is counted,
since the length 256 does not fit in a `char` (`counted_iff`).

Source: apps/examples/NB_Iot/NB_Iot.c:400-405, 509-537.
-/
namespace NbLot.Guarantees.ModemDownlink

open Lib Lib.Text Source.Modem List
open Source.Uplink (ascii)

theorem le_length_of_key {text : List UInt8} {k : Nat} (hkey : ascii "+NSONMI:0," <+: text.drop k) :
    k + 10 ≤ text.length := by
  have hdrop : 10 ≤ (text.drop k).length := hkey.length_le
  rw [length_drop] at hdrop
  omega

section Command

variable {text : List UInt8} (hfree : ∀ b ∈ text, b ≠ 0) (hlen : text.length ≤ 255)
include hfree hlen

theorem cstr_drop_rcvdBuf {n : Nat} (hn : n ≤ text.length) : cstr ((rcvdBuf text).drop n) = text.drop n := by
  have hrest : 256 - text.length = (255 - text.length) + 1 := by omega
  have hbuf : rcvdBuf text = text ++ 0 :: List.replicate (255 - text.length) 0 := by
    rw [rcvdBuf, take_append, take_of_length_le (by omega), take_replicate,
      Nat.min_eq_left (Nat.sub_le _ _), hrest, replicate_succ]
  rw [hbuf, drop_append_of_le_length hn]
  exact cstr_append_nul _ _ fun b hb => hfree b (mem_of_mem_drop hb)

theorem cstr_rcvdBuf : cstr (rcvdBuf text) = text := cstr_drop_rcvdBuf hfree hlen (Nat.zero_le _)

/-- The command is built from byte 10 on, when it fits. -/
theorem notified_iff {k : Nat} (hkey : ascii "+NSONMI:0," <+: text.drop k) (answer : Answer) (command : List UInt8) :
    (∃ temp count, notified (rcvdBuf text) answer = .asked temp count ∧ temp.text = command) ↔
      ascii "AT+NSORF=" ++ text.drop 10 = command ∧ text.length ≤ 64 := by
  have hlong : 10 ≤ text.length := Nat.le_trans (Nat.le_add_left 10 k) (le_length_of_key hkey)
  have hfound : (find (ascii "+NSONMI:0,") (cstr (rcvdBuf text))).isSome := by
    rw [cstr_rcvdBuf hfree hlen, find_isSome_iff (by decide)]
    exact hkey.isInfix.trans (drop_suffix k text).isInfix
  have hlength : (ascii "AT+NSORF=" ++ text.drop 10).length = 9 + (text.length - 10) := by
    rw [length_append, length_drop]
    rfl
  rw [notified, if_pos hfound, cstr_drop_rcvdBuf hfree hlen hlong]
  by_cases hfits : text.length ≤ 64
  · obtain ⟨temp, htemp, htext⟩ := store_eq_some 64 (ascii "AT+NSORF=" ++ text.drop 10) (by omega)
    have hnul : ∀ b ∈ ascii "AT+NSORF=" ++ text.drop 10, b ≠ 0 :=
      nulFree_append _ _ (by decide +kernel) fun b hb => hfree b (mem_of_mem_drop hb)
    rw [cstr_of_nulFree _ hnul] at htext
    rw [htemp, and_iff_left hfits, ← htext]
    constructor
    · rintro ⟨_, _, hasked, hcommand⟩
      cases hasked
      exact hcommand
    · intro hcommand
      exact ⟨temp, counted answer, rfl, hcommand⟩
  · have hover : store 64 (ascii "AT+NSORF=" ++ text.drop 10) = none := dif_neg (by omega)
    rw [hover]
    exact iff_of_false nofun fun h => hfits h.2

end Command

/-- For every text of at most 255 bytes with a notification at an offset `k`, the command asks for that
very notification, and fits, exactly when `k` is two and the text has at most 64 bytes. -/
theorem nsorf_iff (text : List UInt8) (hfree : ∀ b ∈ text, b ≠ 0) (hlen : text.length ≤ 255) (k : Nat)
    (hkey : ascii "+NSONMI:0," <+: text.drop k) (answer : Answer) :
    (∃ temp count, notified (rcvdBuf text) answer = .asked temp count ∧
      temp.text = ascii "AT+NSORF=" ++ text.drop (k + 8)) ↔ k = 2 ∧ text.length ≤ 64 := by
  rw [notified_iff hfree hlen hkey, append_cancel_left_eq]
  refine and_congr_left fun _ => ⟨fun heq => ?_, fun htwo => by rw [htwo]⟩
  have hlong := le_length_of_key hkey
  have hlengths := congrArg List.length heq
  rw [length_drop, length_drop] at hlengths
  omega

/-- CR, LF and a notification of four bytes. -/
theorem nsorf_iff_framed :
    ∃ temp count, notified (rcvdBuf (ascii "\r\n+NSONMI:0,4\r\n")) .timeout = .asked temp count ∧
      temp.text = ascii "AT+NSORF=" ++ (ascii "\r\n+NSONMI:0,4\r\n").drop (2 + 8) :=
  (nsorf_iff (ascii "\r\n+NSONMI:0,4\r\n") (by decide +kernel) (by decide) 2 (by decide) .timeout).2
    ⟨rfl, by decide⟩

/-- Without CR and LF in front, the socket number is lost; behind two notifications, the command does not
fit its array. -/
theorem notification_misread :
    (∃ temp count, notified (rcvdBuf (ascii "+NSONMI:0,4")) .timeout = .asked temp count ∧
      temp.text = ascii "AT+NSORF=4") ∧
    notified (rcvdBuf (ascii "\r\n+NSONMI:0,4\r\n\r\n+NSONMI:0,4\r\n\r\n+NSONMI:0,4\r\n\r\n+NSONMI:0,12\r\n\r\n+NSONMI:0,4\r\n"))
      .timeout = .overrun := by
  refine ⟨⟨⟨ascii "AT+NSORF=4", by decide +kernel, by decide⟩, none, ?_, rfl⟩, ?_⟩ <;> rfl

/-- For every reply, the loop counts the fields of a text with an OK exactly when there is no OK. -/
theorem counted_iff (bytes behind : List UInt8) :
    ((find (ascii "OK") (cstr (rcvdBuf bytes ++ behind))).isSome →
      counted (.received bytes behind) = some (fields comma (cstr (rcvdBuf bytes ++ behind))).length) ↔
    find (ascii "OK") (cstr (rcvdBuf bytes ++ behind)) = none := by
  rw [← Option.not_isSome_iff_eq_none]
  refine ⟨fun hcounted hok => ?_, fun hnot hok => absurd hok hnot⟩
  have hsent : nbIotSendCmd (ascii "OK") (.received bytes behind) = 0 := if_pos hok
  have hcount := hcounted hok
  rw [counted, if_pos hsent, Option.some_inj] at hcount
  have hin : ascii "OK" <:+: cstr (rcvdBuf bytes ++ behind) := (find_isSome_iff (by decide) _).1 hok
  have hletter : (79 : UInt8) ∈ cstr (rcvdBuf bytes ++ behind) := hin.subset (by decide)
  exact fields_ne_nil hletter (by decide) (length_eq_zero_iff.1 hcount.symm)

/-- Three fields, of which none is counted. -/
theorem reply_not_counted :
    counted (.received (ascii "0,1,OK") []) = some 0 ∧
      fields comma (cstr (rcvdBuf (ascii "0,1,OK"))) = [ascii "0", ascii "1", ascii "OK"] := by
  decide

end NbLot.Guarantees.ModemDownlink
