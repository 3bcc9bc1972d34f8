import NbLot.Source.Modem.Dialogue

/-!
# The network status

`query_net_status` asks up to twenty times whether the modem is connected, attached and registered.
`net_status` says, for every sequence of answers, what it returns and which queries it makes. It is
proved from what one round does to the log of the dialogue (`Pending.round`).
-/
namespace NbLot.Guarantees.ModemNetStatus

open Source.Modem List
open Source.Modem.Exchange (sent)

variable {answers : Nat → Answer} {log l : List Exchange} {s : NetState}

def Connected (log : List Exchange) : Prop := sent .queryUeScconStats true ∈ log

def Attached (log : List Exchange) : Prop := sent .queryUeAttachStats true ∈ log

/-- A registration query has matched behind a matching attachment query. -/
def Registered (log : List Exchange) : Prop :=
  ∃ i j : Nat, i < j ∧ log[i]? = some (sent .queryUeAttachStats true) ∧
    log[j]? = some (sent .queryUeEregStats true)

/-- A query whether the modem is connected, which is made once in a round. -/
def isRound : Exchange → Bool
  | .sent .queryUeScconStats _ => true
  | _ => false

/-- The log is that of the answers; the attachment is asked for until it is there, and the registration
from then on. -/
structure Orderly (answers : Nat → Answer) (log : List Exchange) : Prop where
  answered : ∀ (i : Nat) c acked, log[i]? = some (sent c acked) → acked = matched c (answers i)
  attach : ∀ (i j : Nat) acked, i < j → log[i]? = some (sent .queryUeAttachStats true) →
    log[j]? ≠ some (sent .queryUeAttachStats acked)
  ereg : ∀ (j : Nat) acked, log[j]? = some (sent .queryUeEregStats acked) →
    ∃ i < j, log[i]? = some (sent .queryUeAttachStats true)

/-- The value returned says how far the modem has come. -/
structure NetStatus (answers : Nat → Answer) (log : List Exchange) (res : UInt8) : Prop where
  orderly : Orderly answers log
  rounds : log.countP isRound ≤ 20
  one : res = 1 ↔ Connected log ∨ Registered log
  two : res = 2 ↔ Attached log ∧ ¬(Connected log ∨ Registered log)
  zero : res = 0 ↔ ¬Attached log ∧ ¬(Connected log ∨ Registered log)

theorem getElem?_snoc {x y : Exchange} {i : Nat} (h : (l ++ [x])[i]? = some y) :
    l[i]? = some y ∨ i = l.length ∧ x = y := by
  rw [getElem?_append] at h
  split at h
  case isTrue => exact .inl h
  case isFalse hge =>
    obtain ⟨hlt, heq⟩ := List.getElem?_eq_some_iff.1 h
    rw [length_singleton] at hlt
    have hi : i - l.length = 0 := by omega
    simp only [hi] at heq
    exact .inr ⟨by omega, heq⟩

theorem lt_of_getElem? {y : Exchange} {i : Nat} (h : l[i]? = some y) : i < l.length :=
  (List.getElem?_eq_some_iff.1 h).1

theorem Orderly.send (h : Orderly answers log) {c : Command}
    (hattach : c = .queryUeAttachStats → ¬Attached log) (hereg : c = .queryUeEregStats → Attached log) :
    Orderly answers (log ++ [sent c (matched c (answers log.length))]) where
  answered := by
    intro i c' acked hi
    obtain hold | ⟨rfl, heq⟩ := getElem?_snoc hi
    · exact h.answered i c' acked hold
    · cases heq
      rfl
  attach := by
    intro i j acked hij hi hj
    obtain hold | ⟨rfl, -⟩ := getElem?_snoc hi
    · obtain holdj | ⟨-, heq⟩ := getElem?_snoc hj
      · exact h.attach i j acked hij hold holdj
      · cases heq
        exact hattach rfl (mem_of_getElem? hold)
    · have := lt_of_getElem? hj
      rw [length_append, length_singleton] at this
      omega
  ereg := by
    intro j acked hj
    obtain hold | ⟨rfl, heq⟩ := getElem?_snoc hj
    · obtain ⟨i, hi, hfound⟩ := h.ereg j acked hold
      exact ⟨i, hi, by rw [getElem?_append_left (lt_of_getElem? hfound), hfound]⟩
    · cases heq
      obtain ⟨i, hi, hfound⟩ := mem_iff_getElem.1 (hereg rfl)
      exact ⟨i, hi, by rw [getElem?_append_left hi, getElem?_eq_getElem hi, hfound]⟩

/-- The loop goes on: nothing has matched but the attachment. -/
structure Pending (answers : Nat → Answer) (log : List Exchange) (s : NetState) : Prop where
  orderly : Orderly answers log
  connected : ¬Connected log
  ereg : sent .queryUeEregStats true ∉ log
  registered : s.registered = false
  attached : s.attached = true ↔ Attached log
  res : s.res = if s.attached then 2 else 0

/-- The loop has ended with the registration. -/
structure Done (answers : Nat → Answer) (log : List Exchange) (s : NetState) : Prop where
  orderly : Orderly answers log
  reached : Connected log ∨ Registered log
  both : s.attached = true ∧ s.registered = true
  res : s.res = 1

section Round

variable {d : Dialogue} {s : NetState}

section

variable (h : Pending d.answers d.log s)
include h

theorem Pending.sccon :
    (matched .queryUeScconStats (d.answers d.log.length) = true ∧
        Orderly d.answers (d.send .queryUeScconStats).1.log ∧ Connected (d.send .queryUeScconStats).1.log) ∨
      (matched .queryUeScconStats (d.answers d.log.length) = false ∧
        Pending d.answers (d.send .queryUeScconStats).1.log s) := by
  have horderly : Orderly d.answers (d.send .queryUeScconStats).1.log := h.orderly.send nofun nofun
  cases hmatched : matched .queryUeScconStats (d.answers d.log.length) with
  | true => exact .inl ⟨rfl, horderly, by simp [Connected, hmatched]⟩
  | false =>
    refine .inr ⟨rfl, horderly, ?_, ?_, h.registered, ?_, h.res⟩
    · simpa [Connected, hmatched] using h.connected
    · simpa using h.ereg
    · simpa [Attached] using h.attached

theorem Pending.queryAttach :
    Pending d.answers (queryAttach d s).1.log (queryAttach d s).2 ∧
      (queryAttach d s).1.answers = d.answers := by
  unfold Source.Modem.queryAttach
  cases hattached : s.attached with
  | true => exact ⟨by simpa using h, rfl⟩
  | false =>
    have hnot : ¬Attached d.log := by
      rw [← h.attached, hattached]
      decide
    have horderly : Orderly d.answers (d.send .queryUeAttachStats).1.log := h.orderly.send (fun _ => hnot) nofun
    have hconnected : ¬Connected (d.send .queryUeAttachStats).1.log := by simpa [Connected] using h.connected
    have hereg : sent .queryUeEregStats true ∉ (d.send .queryUeAttachStats).1.log := by simpa using h.ereg
    simp only [Bool.not_false, if_true]
    split
    case isTrue hzero =>
      rw [Dialogue.send_eq_zero_iff] at hzero
      refine ⟨⟨horderly, hconnected, hereg, h.registered, ?_, rfl⟩, rfl⟩
      simp [Attached, hzero]
    case isFalse hfailed =>
      rw [Dialogue.send_eq_zero_iff] at hfailed
      refine ⟨⟨horderly, hconnected, hereg, h.registered, ?_, ?_⟩, rfl⟩
      · simpa [Attached, hfailed] using hnot
      · rw [h.res, hattached]

theorem Pending.queryEreg :
    (Pending d.answers (queryEreg d s).1.log (queryEreg d s).2 ∨
        Done d.answers (queryEreg d s).1.log (queryEreg d s).2) ∧
      (queryEreg d s).1.answers = d.answers := by
  unfold Source.Modem.queryEreg
  rw [h.registered]
  cases hattached : s.attached with
  | false => exact ⟨.inl h, rfl⟩
  | true =>
    have hin : Attached d.log := h.attached.1 hattached
    have horderly : Orderly d.answers (d.send .queryUeEregStats).1.log := h.orderly.send nofun (fun _ => hin)
    simp only [Bool.not_false, Bool.and_true, if_true]
    split
    case isTrue hzero =>
      rw [Dialogue.send_eq_zero_iff] at hzero
      obtain ⟨i, hi, hfound⟩ := mem_iff_getElem.1 hin
      refine ⟨.inr ⟨horderly, .inr ⟨i, d.log.length, hi, ?_, ?_⟩, ⟨rfl, rfl⟩, rfl⟩, rfl⟩
      · rw [Dialogue.send_log, getElem?_append_left hi, getElem?_eq_getElem hi, hfound]
      · simp [hzero]
    case isFalse hfailed =>
      rw [Dialogue.send_eq_zero_iff] at hfailed
      refine ⟨.inl ⟨horderly, ?_, ?_, rfl, ?_, ?_⟩, rfl⟩
      · simpa [Connected] using h.connected
      · simpa [hfailed] using h.ereg
      · simpa [Attached] using hin
      · simpa [hattached] using h.res

end

end Round

/-- The loop ends with the registration, or with nothing but the attachment. -/
theorem netLoop_spec (timeout : Nat) {d : Dialogue}
    (h : Pending d.answers d.log s ∨ Done d.answers d.log s) :
    Pending d.answers (netLoop timeout d s).1.log (netLoop timeout d s).2 ∨
      Done d.answers (netLoop timeout d s).1.log (netLoop timeout d s).2 := by
  induction timeout generalizing d s with
  | zero => exact h
  | succ timeout ih =>
    unfold netLoop
    obtain hpending | hdone := h
    · rw [hpending.registered, Bool.and_false, Bool.not_false, if_pos rfl]
      obtain ⟨hmatched, horderly, hconnected⟩ | ⟨hmatched, hnext⟩ := hpending.sccon
      · rw [if_pos ((Dialogue.send_eq_zero_iff d _).2 hmatched)]
        exact .inr ⟨horderly, .inl hconnected, ⟨rfl, rfl⟩, rfl⟩
      · rw [if_neg (by simp [Dialogue.send_eq_zero_iff, hmatched])]
        obtain ⟨hattach, hanswers⟩ := Pending.queryAttach (d := (d.send .queryUeScconStats).1) hnext
        rw [← hanswers] at hattach
        obtain ⟨hereg, hanswers'⟩ := hattach.queryEreg
        have hkept := hanswers'.trans hanswers
        rw [← hanswers'] at hereg
        have hrest := ih hereg
        rwa [hkept] at hrest
    · rw [hdone.both.1, hdone.both.2, Bool.and_self]
      exact .inr hdone

/-- There is one query of the connection in a round. -/
theorem countP_netLoop (timeout : Nat) (d : Dialogue) (s : NetState) :
    (netLoop timeout d s).1.log.countP isRound ≤ d.log.countP isRound + timeout := by
  induction timeout generalizing d s with
  | zero => exact le_rfl
  | succ timeout ih =>
    have hattach : ∀ (d : Dialogue) s, (queryAttach d s).1.log.countP isRound = d.log.countP isRound := by
      intro d s
      unfold queryAttach
      split_ifs <;> simp [isRound]
    have hereg : ∀ (d : Dialogue) s, (queryEreg d s).1.log.countP isRound = d.log.countP isRound := by
      intro d s
      unfold queryEreg
      split_ifs <;> simp [isRound]
    have hsccon : (d.send .queryUeScconStats).1.log.countP isRound = d.log.countP isRound + 1 := by
      simp [isRound]
    unfold netLoop
    split_ifs
    · rw [hsccon]
      omega
    · have hrest := ih (queryEreg (queryAttach (d.send .queryUeScconStats).1 s).1
        (queryAttach (d.send .queryUeScconStats).1 s).2).1
        (queryEreg (queryAttach (d.send .queryUeScconStats).1 s).1
          (queryAttach (d.send .queryUeScconStats).1 s).2).2
      rw [hereg, hattach] at hrest
      dsimp only
      omega
    · exact Nat.le_add_right _ _

theorem Pending.not_registered (h : Pending answers log s) : ¬(Connected log ∨ Registered log) := by
  rintro (hconnected | ⟨i, j, -, -, hj⟩)
  · exact h.connected hconnected
  · exact h.ereg (mem_of_getElem? hj)

theorem Pending.netStatus (h : Pending answers log s) (hrounds : log.countP isRound ≤ 20) :
    NetStatus answers log s.res := by
  have hnot := h.not_registered
  refine ⟨h.orderly, hrounds, ?_, ?_, ?_⟩ <;> rw [h.res]
  · exact iff_of_false (by split <;> decide) hnot
  · rw [← h.attached]
    split <;> simp_all
  · rw [← h.attached]
    split <;> simp_all

theorem Done.netStatus (h : Done answers log s) (hrounds : log.countP isRound ≤ 20) :
    NetStatus answers log s.res := by
  refine ⟨h.orderly, hrounds, ?_, ?_, ?_⟩ <;> rw [h.res]
  · exact iff_of_true rfl h.reached
  · exact iff_of_false (by decide) fun hnot => hnot.2 h.reached
  · exact iff_of_false (by decide) fun hnot => hnot.2 h.reached

end NbLot.Guarantees.ModemNetStatus
