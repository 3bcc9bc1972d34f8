import NbLot.Source.Serial.Device

/-!
# No lost wake-up in the serial driver

A reader sleeps only while the receive ring is empty, and a writer only while the transmit ring is full
and the transmit interrupt enabled, for every interleaving of the two with the interrupts and with
signals. A wait that a signal interrupts leaves `recvwaiting` or `xmitwaiting` set, so that a count
may be left for a later wait; this costs no more than one more turn of the loop.

A transmit ring of one slot is full and empty at once: `uart_xmitchars` then disables the interrupt
and wakes nobody (`wakeup_lost_in_one_slot`).
-/
namespace NbLot.Guarantees.SerialWakeup
open List

open Lib (RingBuffer)
open Lib.Transition Source.Serial

section Reader

open Source.Serial.Receive

/-- The reader sleeps with `recvwaiting` set on an empty ring, and the ring stays empty from the second
test to the wait, since the interrupt is disabled. -/
def ReaderWaits (s : Receive) : Prop :=
  match s.pc with
  | .retest _ | .reenable _ => s.rxint = false ∧ 0 ≤ s.recvsem
  | .enter _ => s.rxint = false ∧ s.ring.contents = [] ∧ 0 ≤ s.recvsem
  | .sleep _ => s.recvwaiting = true ∧ s.ring.contents = [] ∧ s.recvsem = -1
  | _ => 0 ≤ s.recvsem

structure Reader (s : Receive) : Prop where
  stream : Stream s
  size : s.ring.size < 2 ^ 15
  waits : ReaderWaits s

variable {s s' : Receive}

theorem ReaderWaits.read (hvalid : s.ring.Valid) (h : ReaderWaits s) (hread : s.read = some s') :
    ReaderWaits s' := by
  unfold Receive.read at hread
  split at hread
  case h_1 => cases hread
  case h_10 => cases hread
  case h_2 call hpc =>
    simp only [ReaderWaits, hpc] at h
    split_ifs at hread <;> cases hread <;> exact h
  case h_3 call tail hpc =>
    simp only [ReaderWaits, hpc] at h
    split_ifs at hread <;> cases hread <;> exact h
  case h_7 call hpc =>
    simp only [ReaderWaits, hpc] at h
    cases hread
    exact ⟨rfl, h⟩
  case h_8 call hpc =>
    simp only [ReaderWaits, hpc] at h
    cases hread
    split_ifs with hempty
    · exact ⟨h.1, (RingBuffer.contents_eq_nil hvalid).mpr hempty, h.2⟩
    · exact h
  case h_9 call hpc =>
    simp only [ReaderWaits, hpc] at h
    obtain ⟨-, hempty, hsem⟩ := h
    cases hread
    simp only [ReaderWaits]
    split_ifs with hcount
    · omega
    · exact ⟨trivial, hempty, by omega⟩
  case h_13 call hpc =>
    simp only [ReaderWaits, hpc] at h
    cases hread
    exact h.2
  all_goals
    next hpc =>
      simp only [ReaderWaits, hpc] at h
      cases hread
      exact h

theorem ReaderWaits.interrupt (hvalid : s.ring.Valid) (hsize : s.ring.size < 2 ^ 15) (h : ReaderWaits s)
    (hrxint : s.rxint = true) (bytes : List UInt8) : ReaderWaits (s.uartRecvchars bytes) := by
  obtain ⟨accepted, t, harrived, hsame, -, heq⟩ := uartRecvchars_spec s bytes hvalid
  -- the ring is too small for `nbytes` to wrap around
  have hcount : accepted.length < 2 ^ 16 := by
    have hlt := harrived.valid.length_lt
    rw [← RingBuffer.length_contents, harrived.contents, length_append, harrived.size] at hlt
    omega
  have hcontents := harrived.contents
  rw [heq, Nat.mod_eq_of_lt hcount]
  unfold ReaderWaits at h
  rw [hsame] at hcontents ⊢
  cases hpc : s.pc with
  | sleep call =>
    simp only [hpc] at h
    obtain ⟨hwaiting, hempty, hsem⟩ := h
    by_cases hnone : accepted.length = 0
    · rw [if_neg (not_not.mpr hnone)]
      obtain rfl := length_eq_zero_iff.mp hnone
      exact ⟨hwaiting, by rw [hcontents, hempty]; rfl, hsem⟩
    · rw [if_pos hnone]
      simp [uartDatareceived, hwaiting, postRecvsem, hsem, ReadPc.wake, ReaderWaits]
  | retest call => simp [hpc, hrxint] at h
  | reenable call => simp [hpc, hrxint] at h
  | enter call => simp [hpc, hrxint] at h
  | _ =>
    simp only [hpc] at h
    have hpos : ¬s.recvsem + 1 ≤ 0 := by omega
    split_ifs
    · unfold uartDatareceived
      split_ifs
      · simp only [postRecvsem, hpos, if_false, ReaderWaits]
        omega
      · simpa only [ReaderWaits, hpc] using h
    · simpa only [ReaderWaits, hpc] using h

theorem Reader.step (h : Reader s) {a : Act} (hstep : s.step a = some s') : Reader s' := by
  have hs' := h.stream.step hstep
  have hwaits := h.waits
  cases a with
  | call buflen nonblock =>
    simp only [Receive.step] at hstep
    split at hstep
    · next hpc =>
      cases hstep
      simp only [ReaderWaits, hpc] at hwaits
      exact ⟨hs', h.size, hwaits⟩
    · cases hstep
  | read =>
    refine ⟨hs', ?_, hwaits.read h.stream.valid hstep⟩
    rw [(read_frame hstep).1]
    exact h.size
  | signal =>
    simp only [Receive.step] at hstep
    split at hstep
    · next hpc =>
      cases hstep
      simp only [ReaderWaits, hpc] at hwaits
      refine ⟨hs', h.size, ?_⟩
      simp only [ReaderWaits]
      omega
    · cases hstep
  | interrupt bytes =>
    simp only [Receive.step] at hstep
    split_ifs at hstep with hrxint
    cases hstep
    refine ⟨hs', ?_, hwaits.interrupt h.stream.valid h.size hrxint bytes⟩
    rw [uartRecvchars_size h.stream.valid]
    exact h.size

end Reader

section Writer

open Source.Serial.Transmit

def asleep : WritePc → Bool
  | .put _ _ (.sleep _) => true
  | _ => false

/-- The writer sleeps with `xmitwaiting` set on a full ring, with the interrupt enabled. -/
def WriterWaits (s : Transmit) : Prop :=
  if asleep s.pc then
    s.xmitwaiting = true ∧ s.txint = true ∧ s.ring.length + 1 = s.ring.size ∧ s.xmitsem = -1
  else 0 ≤ s.xmitsem

structure Writer (s : Transmit) : Prop where
  stream : Stream s
  size : 2 ≤ s.ring.size ∧ s.ring.size < 2 ^ 15
  waits : WriterWaits s

variable {s s' : Transmit} {fake : Option Nat}

/-- `uart_xmitchars` on a full ring either sends nothing and changes nothing, or posts the
semaphore. -/
theorem uartXmitchars_full (hvalid : s.ring.Valid) (hsize : 2 ≤ s.ring.size ∧ s.ring.size < 2 ^ 15)
    (hfull : s.ring.length + 1 = s.ring.size) (hwaiting : s.xmitwaiting = true) (room : Nat) :
    (∃ ring events, s.uartXmitchars room = { s with ring := ring, events := events } ∧
        ring.size = s.ring.size ∧ ring.length = s.ring.length) ∨
      (s.uartXmitchars room).xmitsem = s.xmitsem + 1 ∧
        (s.uartXmitchars room).pc = if s.xmitsem + 1 ≤ 0 then s.pc.wake else s.pc := by
  obtain ⟨chars, t, hsent, hsame, heq⟩ := uartXmitchars_spec s room hvalid
  have hlength : chars.length + t.ring.length = s.ring.length := by
    have := congrArg List.length hsent.contents
    rw [length_append, RingBuffer.length_contents, RingBuffer.length_contents] at this
    exact this.symm
  have hcount : chars.length < 2 ^ 16 := by omega
  rw [Nat.mod_eq_of_lt hcount] at heq
  by_cases hnone : chars.length = 0
  · refine .inl ⟨t.ring, t.events, ?_, hsent.size, by omega⟩
    have hsome : t.ring.head ≠ t.ring.tail := by
      rw [Ne, ← RingBuffer.contents_eq_nil hsent.valid, ← length_eq_zero_iff, RingBuffer.length_contents]
      omega
    rw [heq, if_neg hsome, if_neg (not_not.mpr hnone)]
    exact hsame
  · refine .inr ?_
    rw [heq]
    rw [if_pos hnone]
    have hset : ∀ u : Transmit, u.xmitwaiting = true → u.xmitsem = s.xmitsem → u.pc = s.pc →
        u.uartDatasent.xmitsem = s.xmitsem + 1 ∧
          u.uartDatasent.pc = if s.xmitsem + 1 ≤ 0 then s.pc.wake else s.pc := by
      intro u hu hsem hpc
      simp [uartDatasent, hu, postXmitsem, hsem, hpc]
    have hwaiting' : t.xmitwaiting = true := by rw [hsame]; exact hwaiting
    have hsem : t.xmitsem = s.xmitsem := by rw [hsame]
    have hpc : t.pc = s.pc := by rw [hsame]
    refine hset _ ?_ ?_ ?_ <;> split_ifs <;> assumption

theorem uartXmitchars_awake (hvalid : s.ring.Valid) (hsem : 0 ≤ s.xmitsem) (room : Nat) :
    (s.uartXmitchars room).pc = s.pc ∧ 0 ≤ (s.uartXmitchars room).xmitsem := by
  obtain ⟨chars, t, -, hsame, heq⟩ := uartXmitchars_spec s room hvalid
  have hpos : ¬s.xmitsem + 1 ≤ 0 := by omega
  rw [heq, hsame]
  simp only [uartDatasent, postXmitsem]
  split_ifs <;> first | exact ⟨rfl, hsem⟩ | (refine ⟨rfl, ?_⟩; simp only; omega)

theorem wake_awake (pc : WritePc) : asleep pc.wake = false := by
  cases pc with
  | put call lead pc => cases pc <;> rfl
  | _ => rfl

theorem Writer.xmitchars (h : Writer s) (room : Nat) : WriterWaits (s.uartXmitchars room) := by
  have hwaits := h.waits
  unfold WriterWaits at hwaits
  split_ifs at hwaits with hasleep
  · obtain ⟨hwaiting, htxint, hfull, hsem⟩ := hwaits
    rcases uartXmitchars_full h.stream.valid h.size hfull hwaiting room with
      ⟨ring, events, hnone, hsize, hlength⟩ | ⟨hpost, hwake⟩
    · rw [hnone, WriterWaits, if_pos hasleep]
      exact ⟨hwaiting, htxint, by simp only; omega, hsem⟩
    · rw [hsem] at hpost hwake
      rw [if_pos (by decide)] at hwake
      rw [WriterWaits, hwake, wake_awake, if_neg Bool.false_ne_true, hpost]
      decide
  · obtain ⟨hpc, hcount⟩ := uartXmitchars_awake h.stream.valid hwaits room
    rw [WriterWaits, hpc, if_neg hasleep]
    exact hcount

/-- A writer that finds the ring full either finds a count or sleeps rightly. -/
theorem uartEnabletxint_full (hvalid : s.ring.Valid) (hsize : 2 ≤ s.ring.size ∧ s.ring.size < 2 ^ 15)
    (hfull : s.ring.length + 1 = s.ring.size) (hwaiting : s.xmitwaiting = true) (hsem : 0 ≤ s.xmitsem)
    (fake : Option Nat) (hcount : ¬0 < (s.uartEnabletxint fake).xmitsem) :
    (s.uartEnabletxint fake).xmitwaiting = true ∧ (s.uartEnabletxint fake).txint = true ∧
      (s.uartEnabletxint fake).ring.length + 1 = (s.uartEnabletxint fake).ring.size ∧
      (s.uartEnabletxint fake).xmitsem = 0 := by
  cases fake with
  | none =>
    simp only [uartEnabletxint] at hcount ⊢
    exact ⟨hwaiting, trivial, hfull, by omega⟩
  | some room =>
    simp only [uartEnabletxint] at hcount ⊢
    rcases uartXmitchars_full (s := { s with txint := true }) hvalid hsize hfull hwaiting room with
      ⟨ring, events, hnone, hsize, hlength⟩ | ⟨hpost, -⟩
    · rw [hnone] at hcount ⊢
      simp only at hcount hsize hlength ⊢
      exact ⟨hwaiting, trivial, by omega, by omega⟩
    · rw [hpost] at hcount
      simp only at hcount
      omega

theorem Writer.put (h : Writer s) {call : WriteCall} {lead : Bool} {pc : PutPc}
    (hpc : s.pc = .put call lead pc) (hput : s.put call lead fake pc = some s') :
    WriterWaits s' := by
  have hwaits := h.waits
  have hsees := h.stream.sees
  rw [WriterWaits, hpc] at hwaits
  rw [hpc] at hsees
  cases pc with
  | test nexthead =>
    simp only [Transmit.put] at hput
    split_ifs at hput <;> cases hput <;> exact hwaits
  | advance nexthead =>
    cases hput
    simp only [putDone]
    split_ifs <;> exact hwaits
  | full nexthead =>
    obtain rfl : nexthead = s.ring.next s.ring.head := hsees
    simp only [Transmit.put] at hput
    split_ifs at hput with hroom hcount
    · cases hput
      exact hwaits
    · cases hput
      show 0 ≤ (uartEnabletxint { s with xmitwaiting := true } fake).xmitsem - 1
      omega
    · cases hput
      have hfull := (RingBuffer.next_head_eq_tail h.stream.valid).mp (not_not.mp hroom)
      obtain ⟨hwaiting, htxint, hlength, hsem⟩ := uartEnabletxint_full (s := { s with xmitwaiting := true })
        h.stream.valid h.size hfull rfl hwaits fake hcount
      refine ⟨hwaiting, htxint, hlength, ?_⟩
      rw [hsem]
      rfl
  | sleep nexthead => cases hput
  | _ =>
    cases hput
    exact hwaits

theorem Writer.write (h : Writer s) (hwrite : s.write fake = some s') : WriterWaits s' := by
  have hwaits := h.waits
  unfold Transmit.write at hwrite
  split at hwrite
  · cases hwrite
  · next hpc =>
    rw [WriterWaits, hpc] at hwaits
    cases hwrite
    exact hwaits
  · next hpc =>
    rw [WriterWaits, hpc] at hwaits
    split at hwrite <;> cases hwrite <;> exact hwaits
  · next hpc => exact h.put hpc hwrite
  · next hpc =>
    rw [WriterWaits, hpc] at hwaits
    cases hwrite
    show 0 ≤ (if s.ring.head ≠ s.ring.tail then uartEnabletxint s fake else s).xmitsem
    split_ifs
    · cases fake with
      | none => exact hwaits
      | some room => exact (uartXmitchars_awake (s := { s with txint := true }) h.stream.valid hwaits room).2
    · exact hwaits

theorem Writer.step (h : Writer s) {a : Act} (hstep : s.step a = some s') : Writer s' := by
  have hs' := h.stream.step hstep
  have hwaits := h.waits
  refine ⟨hs', ?_, ?_⟩
  · rw [step_size h.stream.valid hstep]
    exact h.size
  cases a with
  | call buffer nonblock =>
    simp only [Transmit.step] at hstep
    split at hstep
    · next hpc =>
      cases hstep
      rw [WriterWaits, hpc] at hwaits
      exact hwaits
    · cases hstep
  | write fake => exact h.write hstep
  | signal =>
    simp only [Transmit.step] at hstep
    split at hstep
    · next hpc =>
      cases hstep
      rw [WriterWaits, hpc] at hwaits
      obtain ⟨-, -, -, hsem⟩ := hwaits
      show 0 ≤ s.xmitsem + 1
      omega
    · cases hstep
  | interrupt room =>
    simp only [Transmit.step] at hstep
    split_ifs at hstep
    cases hstep
    exact h.xmitchars room

end Writer

/-- A sleeping reader finds the ring empty, and a sleeping writer finds it full and the interrupt
enabled. -/
theorem no_lost_wakeup {rxsize txsize : Nat} (hrx : 0 < rxsize) (hrxmax : rxsize < 2 ^ 15)
    (htx : 2 ≤ txsize) (htxmax : txsize < 2 ^ 15) (oflag : Oflag) (acts : List Uart.Act) (s : Uart)
    (hflush : ∀ arg, .tcflsh arg ∉ acts)
    (hrun : run Uart.step (.init rxsize txsize oflag) acts = some s) :
    (∀ call, s.rx.pc = .sleep call → s.rx.ring.contents = []) ∧
      ∀ call lead nexthead, s.tx.pc = .put call lead (.sleep nexthead) →
        s.tx.ring.next s.tx.ring.head = s.tx.ring.tail ∧ s.tx.txint = true := by
  have hinit : Reader (.init rxsize) ∧ Writer (.init txsize oflag) :=
    ⟨⟨Receive.stream_init hrx, hrxmax, Int.le_refl 0⟩,
      Transmit.stream_init (by omega) oflag, ⟨htx, htxmax⟩, Int.le_refl 0⟩
  have hmeet : StepsMeet Uart.step (fun _ a => ∀ arg, a ≠ .tcflsh arg) (.init rxsize txsize oflag) acts :=
    stepsMeet_of_forall _ acts fun a ha arg heq => hflush arg (heq ▸ ha)
  obtain ⟨hreader, hwriter⟩ := Uart.run_invariant (fun _ _ _ h hstep => Reader.step h hstep)
    (fun _ _ _ h hstep => Writer.step h hstep) (fun _ arg hok _ _ => absurd rfl (hok arg))
    (fun _ arg hok _ _ => absurd rfl (hok arg)) hinit hmeet hrun
  constructor
  · intro call hpc
    have hwaits := hreader.waits
    simp only [ReaderWaits, hpc] at hwaits
    exact hwaits.2.1
  · intro call lead nexthead hpc
    have hwaits := hwriter.waits
    rw [WriterWaits, hpc] at hwaits
    exact ⟨(RingBuffer.next_head_eq_tail hwriter.stream.valid).mpr hwaits.2.2.1, hwaits.2.1⟩

/-- A reader and a writer that sleep. -/
theorem no_lost_wakeup_asleep :
    ∃ s, run Uart.step (.init 2 2 ⟨false, false, false, false⟩) ([.recv (.call 1 false)] ++
        List.replicate 5 (.recv .read) ++ [.xmit (.call [1, 2] false)] ++
          List.replicate 10 (.xmit (.write none))) = some s ∧
      s.rx.pc = .sleep ⟨1, false, []⟩ ∧ s.rx.ring.contents = [] ∧
      s.tx.pc = .put ⟨[1, 2], false, [2], [1]⟩ false (.sleep 0) ∧
      s.tx.ring.next s.tx.ring.head = s.tx.ring.tail ∧ s.tx.txint = true := by
  refine exists_of_run rfl fun s hrun => ?_
  have h := no_lost_wakeup (show 0 < 2 by decide) (by decide) (show 2 ≤ 2 by decide) (by decide)
    ⟨false, false, false, false⟩ _ s (fun arg => by cases arg <;> decide) hrun
  cases hrun
  exact ⟨rfl, h.1 _ rfl, rfl, h.2 _ _ _ rfl⟩

/-- With a transmit ring of one slot the writer sleeps and the interrupt is disabled. -/
theorem wakeup_lost_in_one_slot :
    ∃ s, run Uart.step (.init 2 1 ⟨false, false, false, false⟩) ([.xmit (.call [1] false)] ++
        List.replicate 5 (.xmit (.write none)) ++ [.xmit (.interrupt 1)]) = some s ∧
      s.tx.pc = .put ⟨[1], false, [1], []⟩ false (.sleep 0) ∧ s.tx.txint = false := by
  refine ⟨_, rfl, rfl, rfl⟩

end NbLot.Guarantees.SerialWakeup
