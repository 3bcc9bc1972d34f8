import NbLot.Source.Serial.Receive

/-!
# The transmit side of the serial driver

Source: nuttx/drivers/serial/serial.c:200-332,1009-1195,1308-1312,1596-1611 and serial_io.c:64-107, with
CONFIG_SERIAL_TERMIOS and without CONFIG_SERIAL_REMOVABLE and CONFIG_SERIAL_DMA; `up_txint` of
nuttx/arch/arm/src/stm32l4/stm32l4_serial.c:2180-2226.

One task at a time is in `uart_write`, since it holds `xmit.sem`. The interrupt handler and the ioctl
run between any two of its accesses to the ring; where it is in a critical section it takes one
step. Some lower halves call `uart_xmitchars` when the interrupt is enabled: the label of the step
says for how many characters there is room then, if they do. `calls` and `events` are not in the
source.
-/
namespace NbLot.Source.Serial
open List Function

open Lib (RingBuffer)
open Lib.Fifo (Event puts takes)
open Lib.Transition

/-- The bits of `tc_oflag`. -/
structure Oflag where
  opost : Bool
  ocrnl : Bool
  onlcr : Bool
  onlret : Bool
  deriving DecidableEq, Repr

def cr : UInt8 := 0x0d

def nl : UInt8 := 0x0a

namespace Oflag

/-- The character that is put for a byte. -/
def mapped (oflag : Oflag) (ch : UInt8) : UInt8 :=
  if oflag.opost ∧ ch = cr ∧ oflag.ocrnl then nl else ch

/-- A carriage return is put in front of the character. -/
def expands (oflag : Oflag) (ch : UInt8) : Bool :=
  oflag.opost && (oflag.mapped ch == nl) && (oflag.onlcr || oflag.onlret)

/-- What `uart_putxmitchar` is called with: the carriage return in front, or the character for the
first of the bytes. -/
def character (oflag : Oflag) (rest : List UInt8) (lead : Bool) : UInt8 :=
  if lead then cr else oflag.mapped (rest.headD 0)

end Oflag

/-- A call of `uart_write`: what is left of the caller's buffer, and the characters that have been put
into the ring. -/
structure WriteCall where
  buffer : List UInt8
  nonblock : Bool
  rest : List UInt8
  appended : List UInt8
  deriving DecidableEq, Repr

/-- A call with `nwritten`, and which put has failed if one has: that of the carriage return in front
(`some true`), or that of the character for the first byte of `call.rest`. -/
structure WriteResult where
  call : WriteCall
  nwritten : Except Errno Nat
  failed : Option Bool
  deriving DecidableEq, Repr

/-- Where `uart_putxmitchar` is. -/
inductive PutPc where
  | begin
  /-- `nexthead` has been computed; in front of the test -/
  | test (nexthead : Nat)
  /-- not full; in front of the store of the character -/
  | fill (nexthead : Nat)
  /-- in front of the store of the head -/
  | advance (nexthead : Nat)
  /-- full; in front of the critical section -/
  | full (nexthead : Nat)
  /-- in `sem_wait` -/
  | sleep (nexthead : Nat)
  | awake (nexthead : Nat)
  | interrupted
  deriving DecidableEq, Repr

/-- Where the writer is. `put call lead pc` puts the carriage return in front when `lead` is set, and
else the character for the first byte of `call.rest`. -/
inductive WritePc where
  | idle
  /-- in front of `uart_disabletxint` -/
  | start (call : WriteCall)
  /-- at the test of the loop -/
  | loop (call : WriteCall)
  | put (call : WriteCall) (lead : Bool) (pc : PutPc)
  /-- behind the loop -/
  | leave (result : WriteResult)
  deriving DecidableEq, Repr

def WritePc.wake : WritePc → WritePc
  | .put call lead (.sleep nexthead) => .put call lead (.awake nexthead)
  | pc => pc

structure Transmit where
  ring : RingBuffer UInt8
  oflag : Oflag
  txint : Bool
  xmitwaiting : Bool
  xmitsem : Int
  pc : WritePc
  /-- the calls that have returned -/
  calls : List WriteResult
  events : List (Event UInt8)

namespace Transmit

/-- A ring of `size` characters, and no call under way. -/
def init (size : Nat) (oflag : Oflag) : Transmit where
  ring := ⟨size, 0, 0, fun _ => 0⟩
  oflag := oflag
  txint := false
  xmitwaiting := false
  xmitsem := 0
  pc := .idle
  calls := []
  events := []

/-- `sem_post` of `xmitsem`. -/
def postXmitsem (s : Transmit) : Transmit :=
  { s with xmitsem := s.xmitsem + 1, pc := if s.xmitsem + 1 ≤ 0 then s.pc.wake else s.pc }

/-- `uart_datasent`. -/
def uartDatasent (s : Transmit) : Transmit :=
  if s.xmitwaiting then postXmitsem { s with xmitwaiting := false } else s

/-- The loop of `uart_xmitchars`, with the local `nbytes`; `uart_txready` is true `room` times. -/
def xmitLoop (s : Transmit) (nbytes : Nat) : Nat → Transmit × Nat
  | 0 => (s, nbytes)
  | room + 1 =>
    if s.ring.head ≠ s.ring.tail then
      xmitLoop { s with ring := s.ring.pop, events := s.events ++ [.take (s.ring.slot s.ring.tail)] }
        ((nbytes + 1) % 2 ^ 16) room
    else (s, nbytes)

/-- `uart_xmitchars`. -/
def uartXmitchars (s : Transmit) (room : Nat) : Transmit :=
  let (s, nbytes) := xmitLoop s 0 room
  let s := if s.ring.head = s.ring.tail then { s with txint := false } else s
  if nbytes ≠ 0 then uartDatasent s else s

/-- `uart_enabletxint`. -/
def uartEnabletxint (s : Transmit) (fake : Option Nat) : Transmit :=
  let s := { s with txint := true }
  match fake with
  | none => s
  | some room => uartXmitchars s room

/-- `nwritten` when `uart_putxmitchar` has failed. -/
def failedCount (call : WriteCall) (lead : Bool) (errcode : Errno) : Except Errno Nat :=
  if lead then .error errcode
  else if call.rest.length < call.buffer.length then .ok (call.buffer.length - call.rest.length)
  else .error errcode

/-- What `uart_write` does when `uart_putxmitchar` fails. -/
def putFailed (s : Transmit) (call : WriteCall) (lead : Bool) (errcode : Errno) : Transmit :=
  { s with pc := .leave ⟨call, failedCount call lead errcode, some lead⟩ }

/-- What `uart_write` does when a character has been put. -/
def putDone (s : Transmit) (call : WriteCall) (lead : Bool) : Transmit :=
  let call := { call with appended := call.appended ++ [s.oflag.character call.rest lead] }
  { s with pc := if lead then .put call false .begin else .loop { call with rest := call.rest.tail } }

/-- The next step of `uart_putxmitchar`. -/
def put (s : Transmit) (call : WriteCall) (lead : Bool) (fake : Option Nat) : PutPc → Option Transmit
  | .begin => some { s with pc := .put call lead (.test (s.ring.next s.ring.head)) }
  | .test nexthead =>
    if nexthead ≠ s.ring.tail then some { s with pc := .put call lead (.fill nexthead) }
    else if call.nonblock then some (s.putFailed call lead .eagain)
    else some { s with pc := .put call lead (.full nexthead) }
  | .fill nexthead =>
    let slot := Function.update s.ring.slot s.ring.head (s.oflag.character call.rest lead)
    some { s with ring := { s.ring with slot := slot }, pc := .put call lead (.advance nexthead) }
  | .advance nexthead =>
    some ({ s with ring := { s.ring with head := nexthead }
                   events := s.events ++ [Event.put (s.oflag.character call.rest lead)] }.putDone call lead)
  | .full nexthead =>
    if nexthead ≠ s.ring.tail then some { s with pc := .put call lead (.test nexthead) }
    else
      let s := uartEnabletxint { s with xmitwaiting := true } fake
      -- `sem_wait`; with a count pending the interrupt is disabled again at once
      if 0 < s.xmitsem then
        some { s with xmitsem := s.xmitsem - 1, txint := false, pc := .put call lead (.test nexthead) }
      else some { s with xmitsem := s.xmitsem - 1, pc := .put call lead (.sleep nexthead) }
  | .sleep _ => none
  | .awake nexthead => some { s with txint := false, pc := .put call lead (.test nexthead) }
  | .interrupted => some ({ s with txint := false }.putFailed call lead .eintr)

/-- The next step of `uart_write`. -/
def write (s : Transmit) (fake : Option Nat) : Option Transmit :=
  match s.pc with
  | .idle => none
  | .start call => some { s with txint := false, pc := .loop call }
  | .loop call =>
    match call.rest with
    | [] => some { s with pc := .leave ⟨call, .ok call.buffer.length, none⟩ }
    | ch :: _ => some { s with pc := .put call (s.oflag.expands ch) .begin }
  | .put call lead pc => s.put call lead fake pc
  | .leave result =>
    let s := if s.ring.head ≠ s.ring.tail then uartEnabletxint s fake else s
    some { s with pc := .idle, calls := s.calls ++ [result] }

/-- TCFLSH for the output. -/
def flush (s : Transmit) : Transmit :=
  { s with ring := { s.ring with head := 0, tail := 0 }, events := s.events ++ [.flush] }

inductive Act where
  | call (buffer : List UInt8) (nonblock : Bool)
  | write (fake : Option Nat)
  | signal
  | interrupt (room : Nat)
  deriving DecidableEq, Repr

def step (s : Transmit) : Act → Option Transmit
  | .call buffer nonblock =>
    match s.pc with
    | .idle => some { s with pc := .start ⟨buffer, nonblock, buffer, []⟩ }
    | _ => none
  | .write fake => s.write fake
  | .signal =>
    match s.pc with
    | .put call lead (.sleep _) =>
      some { s with xmitsem := s.xmitsem + 1, pc := .put call lead .interrupted }
    | _ => none
  | .interrupt room => if s.txint then some (s.uartXmitchars room) else none

/-- Characters have gone from the ring to the hardware, and nothing else has changed but the
history. -/
structure Sent (s s' : Transmit) (chars : List UInt8) : Prop where
  valid : s'.ring.Valid
  size : s'.ring.size = s.ring.size
  head : s'.ring.head = s.ring.head
  slot : s'.ring.slot = s.ring.slot
  contents : s.ring.contents = chars ++ s'.ring.contents
  events : s'.events = s.events ++ chars.map .take

variable {s s' : Transmit} {pc : WritePc}

theorem Sent.trans {t u : Transmit} {first second : List UInt8} (h : Sent s t first)
    (h' : Sent t u second) : Sent s u (first ++ second) where
  valid := h'.valid
  size := h'.size.trans h.size
  head := h'.head.trans h.head
  slot := h'.slot.trans h.slot
  contents := by rw [h.contents, h'.contents, append_assoc]
  events := by rw [h'.events, h.events, map_append, append_assoc]

theorem xmitLoop_spec (room : Nat) (s : Transmit) (nbytes : Nat) (hvalid : s.ring.Valid)
    (hbytes : nbytes < 2 ^ 16) :
    ∃ chars s', xmitLoop s nbytes room = (s', (nbytes + chars.length) % 2 ^ 16) ∧ Sent s s' chars ∧
      s' = { s with ring := s'.ring, events := s'.events } := by
  have hnone : Sent s s [] := ⟨hvalid, rfl, rfl, rfl, rfl, by simp⟩
  induction room generalizing s nbytes with
  | zero =>
    refine ⟨[], s, ?_, hnone, rfl⟩
    rw [xmitLoop, length_nil, Nat.add_zero, Nat.mod_eq_of_lt hbytes]
  | succ room ih =>
    by_cases hempty : s.ring.head = s.ring.tail
    · refine ⟨[], s, ?_, hnone, rfl⟩
      rw [xmitLoop, if_neg (not_not_intro hempty), length_nil, Nat.add_zero, Nat.mod_eq_of_lt hbytes]
    · let s₁ : Transmit := { s with
        ring := s.ring.pop, events := s.events ++ [.take (s.ring.slot s.ring.tail)] }
      have hfirst : Sent s s₁ [s.ring.slot s.ring.tail] :=
        ⟨hvalid.pop, rfl, rfl, rfl, RingBuffer.contents_pop hvalid hempty, rfl⟩
      obtain ⟨chars, s', hrun, hsent, hsame⟩ :=
        ih s₁ ((nbytes + 1) % 2 ^ 16) hvalid.pop (Nat.mod_lt _ (by decide))
          ⟨hvalid.pop, rfl, rfl, rfl, rfl, by simp⟩
      refine ⟨s.ring.slot s.ring.tail :: chars, s', ?_, hfirst.trans hsent, hsame⟩
      rw [xmitLoop, if_pos hempty]
      refine hrun.trans ?_
      rw [length_cons, Nat.mod_add_mod, Nat.add_right_comm, Nat.add_assoc]

/-- The interrupt is disabled when the ring is empty, and the writer is woken when characters have
been sent, as far as `nbytes` counts them. -/
theorem uartXmitchars_spec (s : Transmit) (room : Nat) (hvalid : s.ring.Valid) :
    ∃ chars s', Sent s s' chars ∧ s' = { s with ring := s'.ring, events := s'.events } ∧
      uartXmitchars s room =
        let s' := if s'.ring.head = s'.ring.tail then { s' with txint := false } else s'
        if chars.length % 2 ^ 16 ≠ 0 then uartDatasent s' else s' := by
  obtain ⟨chars, s', hrun, hsent, hsame⟩ := xmitLoop_spec room s 0 hvalid (by decide)
  refine ⟨chars, s', hsent, hsame, ?_⟩
  unfold uartXmitchars
  rw [hrun, Nat.zero_add]

/-- Characters may have been sent, and the writer woken. -/
structure Drained (s s' : Transmit) : Prop where
  sent : ∃ chars, Sent s s' chars
  oflag : s'.oflag = s.oflag
  calls : s'.calls = s.calls
  pc : s'.pc = s.pc ∨ s'.pc = s.pc.wake

theorem drained_refl (hvalid : s.ring.Valid) (txint xmitwaiting : Bool) (xmitsem : Int) :
    Drained s { s with txint := txint, xmitwaiting := xmitwaiting, xmitsem := xmitsem } :=
  ⟨⟨[], hvalid, rfl, rfl, rfl, rfl, by simp⟩, rfl, rfl, .inl rfl⟩

theorem uartXmitchars_drained (hvalid : s.ring.Valid) (room : Nat) :
    Drained s (uartXmitchars s room) := by
  obtain ⟨chars, s', hsent, hsame, heq⟩ := uartXmitchars_spec s room hvalid
  have hoflag : s'.oflag = s.oflag := by rw [hsame]
  have hcalls : s'.calls = s.calls := by rw [hsame]
  have hpc : s'.pc = s.pc := by rw [hsame]
  have hsent' : ∀ (txint xmitwaiting : Bool) (xmitsem : Int) (pc : WritePc),
      Sent s { s' with txint := txint, xmitwaiting := xmitwaiting, xmitsem := xmitsem, pc := pc } chars :=
    fun _ _ _ _ => ⟨hsent.valid, hsent.size, hsent.head, hsent.slot, hsent.contents, hsent.events⟩
  rw [heq]
  simp only [uartDatasent, postXmitsem]
  split_ifs <;>
    first
    | exact ⟨⟨chars, hsent' _ _ _ _⟩, hoflag, hcalls, .inl hpc⟩
    | exact ⟨⟨chars, hsent' _ _ _ _⟩, hoflag, hcalls, .inr (congrArg WritePc.wake hpc)⟩

theorem uartEnabletxint_drained (hvalid : s.ring.Valid) (fake : Option Nat) :
    Drained s (uartEnabletxint s fake) := by
  cases fake with
  | none => exact drained_refl hvalid true _ _
  | some room =>
    obtain ⟨⟨chars, hsent⟩, hoflag, hcalls, hpc⟩ :=
      uartXmitchars_drained (s := { s with txint := true }) hvalid room
    exact ⟨⟨chars, hsent.valid, hsent.size, hsent.head, hsent.slot, hsent.contents, hsent.events⟩,
      hoflag, hcalls, hpc⟩

theorem Drained.size (h : Drained s s') : s'.ring.size = s.ring.size := by
  obtain ⟨chars, hsent⟩ := h.sent
  exact hsent.size

theorem step_size (hvalid : s.ring.Valid) {a : Act} (hstep : s.step a = some s') :
    s'.ring.size = s.ring.size := by
  have henable : ∀ xmitwaiting fake,
      (uartEnabletxint { s with xmitwaiting := xmitwaiting } fake).ring.size = s.ring.size :=
    fun xmitwaiting fake => (uartEnabletxint_drained (s := { s with xmitwaiting := xmitwaiting }) hvalid fake).size
  cases a with
  | call buffer nonblock =>
    simp only [step] at hstep
    split at hstep <;> cases hstep
    rfl
  | write fake =>
    simp only [step, write] at hstep
    split at hstep
    · cases hstep
    · cases hstep
      rfl
    · split at hstep <;> cases hstep <;> rfl
    · next call lead pc _ =>
      cases pc <;> simp only [put] at hstep <;> (try split_ifs at hstep) <;> cases hstep <;>
        first | rfl | exact henable true fake
    · cases hstep
      split_ifs
      · exact henable s.xmitwaiting fake
      · rfl
  | signal =>
    simp only [step] at hstep
    split at hstep <;> cases hstep
    rfl
  | interrupt room =>
    simp only [step] at hstep
    split_ifs at hstep
    cases hstep
    exact (uartXmitchars_drained hvalid room).size

/-- What the writer has computed is still so: the next head, that there is room, and that the
character is in its slot. -/
def Sees (oflag : Oflag) (ring : RingBuffer UInt8) : WritePc → Prop
  | .put _ _ (.test nexthead) | .put _ _ (.full nexthead) | .put _ _ (.sleep nexthead)
  | .put _ _ (.awake nexthead) => nexthead = ring.next ring.head
  | .put _ _ (.fill nexthead) => nexthead = ring.next ring.head ∧ ring.length + 1 < ring.size
  | .put call lead (.advance nexthead) => nexthead = ring.next ring.head ∧
      ring.length + 1 < ring.size ∧ ring.slot ring.head = oflag.character call.rest lead
  | _ => True

/-- The events are possible for a queue, which the ring holds. -/
structure Stream (s : Transmit) : Prop where
  valid : s.ring.Valid
  queue : run Lib.Fifo.step [] s.events = some s.ring.contents
  sees : Sees s.oflag s.ring s.pc

theorem stream_init {size : Nat} (hsize : 0 < size) (oflag : Oflag) : Stream (init size oflag) where
  valid := ⟨hsize, hsize⟩
  queue := rfl
  sees := trivial

theorem Sees.wake {oflag : Oflag} {ring : RingBuffer UInt8} (h : Sees oflag ring pc) :
    Sees oflag ring pc.wake := by
  cases pc with
  | put call lead pc => cases pc <;> exact h
  | _ => exact h

theorem Sees.sent {chars : List UInt8} (hsent : Sent s s' chars) (h : Sees s.oflag s.ring pc) :
    Sees s.oflag s'.ring pc := by
  have hnext : s'.ring.next s'.ring.head = s.ring.next s.ring.head := by
    rw [RingBuffer.next, RingBuffer.next, hsent.size, hsent.head]
  have hlength : s'.ring.length ≤ s.ring.length := by
    have := congrArg List.length hsent.contents
    rw [length_append, RingBuffer.length_contents, RingBuffer.length_contents] at this
    omega
  have hsize := hsent.size
  cases pc with
  | put call lead pc =>
    cases pc with
    | fill nexthead => exact ⟨h.1.trans hnext.symm, by have := h.2; omega⟩
    | advance nexthead =>
      refine ⟨h.1.trans hnext.symm, by have := h.2.1; omega, ?_⟩
      rw [hsent.slot, hsent.head]
      exact h.2.2
    | begin => trivial
    | interrupted => trivial
    | _ => exact h.trans hnext.symm
  | _ => trivial

namespace Stream

variable {s s' : Transmit}

section

variable (h : Stream s) {fake : Option Nat} {call : WriteCall} {lead : Bool}
include h

theorem setPc (pc : WritePc) (hsees : Sees s.oflag s.ring pc) (txint : Bool) (xmitsem : Int)
    (calls : List WriteResult) :
    Stream { s with txint := txint, xmitsem := xmitsem, pc := pc, calls := calls } :=
  ⟨h.valid, h.queue, hsees⟩

theorem drained (hdrained : Drained s s') : Stream s' := by
  obtain ⟨chars, hsent⟩ := hdrained.sent
  refine ⟨hsent.valid, ?_, ?_⟩
  · have hqueue := h.queue
    rw [hsent.contents] at hqueue
    rw [hsent.events]
    exact Lib.Fifo.run_takes hqueue
  · rw [hdrained.oflag]
    rcases hdrained.pc with hpc | hpc
    · rw [hpc]
      exact h.sees.sent hsent
    · rw [hpc]
      exact (h.sees.wake).sent hsent

/-- A character that is in its slot goes into the queue with the head. -/
theorem advance {nexthead : Nat} (hpc : s.pc = .put call lead (.advance nexthead)) (pc : WritePc)
    (hsees : ∀ ring, Sees s.oflag ring pc) :
    Stream { s with ring := { s.ring with head := nexthead }
                    events := s.events ++ [Event.put (s.oflag.character call.rest lead)]
                    pc := pc } := by
  have hs := h.sees
  rw [hpc] at hs
  obtain ⟨rfl, hroom, hslot⟩ := hs
  have hnotfull : s.ring.next s.ring.head ≠ s.ring.tail := by
    rw [Ne, RingBuffer.next_head_eq_tail h.valid]
    omega
  have hpush : { s.ring with head := s.ring.next s.ring.head } =
      s.ring.push (s.oflag.character call.rest lead) := by
    rw [RingBuffer.push, ← hslot, update_eq_self]
  refine ⟨⟨h.valid.next _, h.valid.tail⟩, ?_, hsees _⟩
  show run Lib.Fifo.step [] _ = some (RingBuffer.contents { s.ring with head := s.ring.next s.ring.head })
  rw [hpush, RingBuffer.contents_push h.valid hnotfull]
  exact Lib.Fifo.run_puts h.queue [_]

theorem put {pc : PutPc} (hpc : s.pc = .put call lead pc)
    (hput : s.put call lead fake pc = some s') : Stream s' := by
  have hs := h.sees
  rw [hpc] at hs
  cases pc with
  | begin =>
    cases hput
    exact h.setPc (.put call lead (.test _)) rfl _ _ _
  | test nexthead =>
    simp only [Transmit.put] at hput
    obtain rfl : nexthead = s.ring.next s.ring.head := hs
    split_ifs at hput with hroom hnonblock
    · cases hput
      refine h.setPc (.put call lead (.fill _)) ⟨rfl, ?_⟩ _ _ _
      rw [Ne, RingBuffer.next_head_eq_tail h.valid] at hroom
      have := h.valid.length_lt
      omega
    · cases hput
      exact h.setPc (.leave _) trivial _ _ _
    · cases hput
      exact h.setPc (.put call lead (.full _)) rfl _ _ _
  | fill nexthead =>
    obtain ⟨rfl, hroom⟩ := hs
    cases hput
    -- the slot at the head is not one of those in use
    have hcontents : RingBuffer.contents { s.ring with
        slot := update s.ring.slot s.ring.head (s.oflag.character call.rest lead) } =
        s.ring.contents := RingBuffer.contents_update_head h.valid _
    refine ⟨⟨h.valid.head, h.valid.tail⟩, ?_, rfl, hroom, update_self _ _ _⟩
    exact h.queue.trans (congrArg some hcontents.symm)
  | advance nexthead =>
    cases hput
    simp only [putDone]
    split_ifs
    · exact h.advance hpc (.put _ false .begin) fun _ => trivial
    · exact h.advance hpc (.loop _) fun _ => trivial
  | full nexthead =>
    simp only [Transmit.put] at hput
    obtain rfl : nexthead = s.ring.next s.ring.head := hs
    split_ifs at hput with hroom hcount
    · cases hput
      exact h.setPc (.put call lead (.test _)) rfl _ _ _
    all_goals
      have hdrained := uartEnabletxint_drained (s := { s with xmitwaiting := true }) h.valid fake
      have hset : Stream { s with xmitwaiting := true } := ⟨h.valid, h.queue, h.sees⟩
      have hnew := hset.drained hdrained
      obtain ⟨chars, hsent⟩ := hdrained.sent
      have hnext : s.ring.next s.ring.head = (uartEnabletxint { s with xmitwaiting := true } fake).ring.next
          (uartEnabletxint { s with xmitwaiting := true } fake).ring.head := by
        rw [RingBuffer.next, RingBuffer.next, hsent.size, hsent.head]
      cases hput
    · exact hnew.setPc (.put call lead (.test _)) hnext _ _ _
    · exact hnew.setPc (.put call lead (.sleep _)) hnext _ _ _
  | sleep nexthead => cases hput
  | awake nexthead =>
    cases hput
    exact h.setPc (.put call lead (.test nexthead)) hs _ _ _
  | interrupted =>
    cases hput
    exact h.setPc (.leave _) trivial _ _ _

theorem write (hwrite : s.write fake = some s') : Stream s' := by
  unfold Transmit.write at hwrite
  split at hwrite
  · cases hwrite
  · cases hwrite
    exact h.setPc (.loop _) trivial _ _ _
  · split at hwrite
    · cases hwrite
      exact h.setPc (.leave _) trivial _ _ _
    · cases hwrite
      exact h.setPc (.put _ _ .begin) trivial _ _ _
  · next hpc => exact h.put hpc hwrite
  · cases hwrite
    split_ifs
    · exact (h.drained (uartEnabletxint_drained h.valid fake)).setPc .idle trivial _ _ _
    · exact h.setPc .idle trivial _ _ _

theorem step {a : Act} (hstep : s.step a = some s') : Stream s' := by
  cases a with
  | call buffer nonblock =>
    simp only [Transmit.step] at hstep
    split at hstep
    · cases hstep
      exact h.setPc (.start _) trivial _ _ _
    · cases hstep
  | write fake => exact h.write hstep
  | signal =>
    simp only [Transmit.step] at hstep
    split at hstep
    · cases hstep
      exact h.setPc (.put _ _ .interrupted) trivial _ _ _
    · cases hstep
  | interrupt room =>
    simp only [Transmit.step] at hstep
    split_ifs at hstep
    cases hstep
    exact h.drained (uartXmitchars_drained h.valid room)

/-- A flush is no harm when the writer is not between computing the next head and storing it. -/
theorem flush (hpc : ∀ ring, Sees s.oflag ring s.pc) : Stream s.flush where
  valid := ⟨Nat.zero_lt_of_lt h.valid.head, Nat.zero_lt_of_lt h.valid.head⟩
  queue := Lib.Fifo.run_flush h.queue
  sees := hpc _

end

end Stream

end Transmit

end NbLot.Source.Serial
