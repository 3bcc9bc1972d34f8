import Mathlib.Algebra.Group.Nat.Defs
import NbLot.Lib.Fifo
import NbLot.Lib.RingBuffer

/-!
# The receive side of the serial driver

Source: nuttx/drivers/serial/serial.c:669-1003,1297-1306,1567-1582 and serial_io.c:120-232, without
CONFIG_SERIAL_REMOVABLE, CONFIG_SERIAL_DMA, CONFIG_SERIAL_IFLOWCONTROL and
CONFIG_DEV_SERIAL_FULLBLOCKS, and without INLCR, IGNCR and ICRNL.

One task at a time is in `uart_read`, since it holds `recv.sem`. The interrupt handler and the ioctl
run between any two of its accesses to the indices; where it is in a critical section it takes one
step. The receive interrupt is served only while it is enabled. `results`, `arrivals` and `events`
are not in the source.
-/
namespace NbLot.Source.Serial
open List

open Lib (RingBuffer)
open Lib.Fifo (Event puts takes)
open Lib.Transition

inductive Errno where
  | eintr
  | eagain
  deriving DecidableEq, Repr

/-- A call of `uart_read`, with the bytes that are in the caller's buffer. -/
structure ReadCall where
  buflen : Nat
  nonblock : Bool
  got : List UInt8
  deriving DecidableEq, Repr

/-- Where the reader is. -/
inductive ReadPc where
  | idle
  /-- at the test of the loop -/
  | loop (call : ReadCall)
  /-- the local `tail` has been loaded -/
  | loaded (call : ReadCall) (tail : Nat)
  /-- the head has been found different from `tail` -/
  | nonempty (call : ReadCall) (tail : Nat)
  /-- `ch` has been copied -/
  | copied (call : ReadCall) (tail : Nat) (ch : UInt8)
  /-- `rxbuf->tail` has been stored -/
  | stored (call : ReadCall) (ch : UInt8)
  /-- there is nothing to return; in front of `uart_disablerxint` -/
  | empty (call : ReadCall)
  /-- in front of the second test -/
  | retest (call : ReadCall)
  /-- in front of the critical section -/
  | enter (call : ReadCall)
  /-- in `sem_wait` -/
  | sleep (call : ReadCall)
  | awake (call : ReadCall)
  | interrupted (call : ReadCall)
  /-- the second test has found bytes; in front of `uart_enablerxint` -/
  | reenable (call : ReadCall)
  deriving DecidableEq, Repr

/-- The bytes the call has taken from the ring. -/
def ReadPc.inHand : ReadPc → List UInt8
  | .idle => []
  | .stored call ch => call.got ++ [ch]
  | .loop call | .loaded call _ | .nonempty call _ | .copied call _ _ | .empty call | .retest call
  | .enter call | .sleep call | .awake call | .interrupted call | .reenable call => call.got

def ReadPc.wake : ReadPc → ReadPc
  | .sleep call => .awake call
  | pc => pc

theorem ReadPc.wake_inHand (pc : ReadPc) : pc.wake.inHand = pc.inHand := by
  cases pc <;> rfl

structure Receive where
  ring : RingBuffer UInt8
  rxint : Bool
  recvwaiting : Bool
  recvsem : Int
  pc : ReadPc
  /-- what the calls returned -/
  results : List (Except Errno (List UInt8))
  /-- the bytes received, with the number of bytes that were buffered -/
  arrivals : List (UInt8 × Nat)
  events : List (Event UInt8)

namespace Receive

/-- A ring of `size` bytes, and no call under way. -/
def init (size : Nat) : Receive where
  ring := ⟨size, 0, 0, fun _ => 0⟩
  rxint := true
  recvwaiting := false
  recvsem := 0
  pc := .idle
  results := []
  arrivals := []
  events := []

/-- The bytes that the calls of `uart_read` returned. -/
def returned (s : Receive) : List UInt8 :=
  s.results.flatMap fun
    | .ok bytes => bytes
    | .error _ => []

def finish (s : Receive) (result : Except Errno (List UInt8)) : Receive :=
  { s with pc := .idle, results := s.results ++ [result] }

/-- The next step of `uart_read`. -/
def read (s : Receive) : Option Receive :=
  match s.pc with
  | .idle => none
  | .loop call =>
    if call.got.length < call.buflen then some { s with pc := .loaded call s.ring.tail }
    else some (s.finish (.ok call.got))
  | .loaded call tail =>
    if s.ring.head ≠ tail then some { s with pc := .nonempty call tail }
    else if 0 < call.got.length then some (s.finish (.ok call.got))
    else if call.nonblock then some (s.finish (.error .eagain))
    else some { s with pc := .empty call }
  | .nonempty call tail => some { s with pc := .copied call tail (s.ring.slot tail) }
  | .copied call tail ch =>
    some { s with ring := { s.ring with tail := s.ring.next tail }, pc := .stored call ch,
                  events := s.events ++ [.take ch] }
  | .stored call ch => some { s with pc := .loop { call with got := call.got ++ [ch] } }
  | .empty call => some { s with rxint := false, pc := .retest call }
  | .retest call =>
    some { s with pc := if s.ring.head = s.ring.tail then .enter call else .reenable call }
  | .enter call =>
    some { s with rxint := true, recvwaiting := true, recvsem := s.recvsem - 1,
                  pc := if 0 < s.recvsem then .loop call else .sleep call }
  | .sleep _ => none
  | .awake call => some { s with pc := .loop call }
  | .interrupted call =>
    some (s.finish (if call.got.length = 0 then .error .eintr else .ok call.got))
  | .reenable call => some { s with rxint := true, pc := .loop call }

/-- `sem_post` of `recvsem`. -/
def postRecvsem (s : Receive) : Receive :=
  { s with recvsem := s.recvsem + 1, pc := if s.recvsem + 1 ≤ 0 then s.pc.wake else s.pc }

/-- `uart_datareceived`. -/
def uartDatareceived (s : Receive) : Receive :=
  if s.recvwaiting then postRecvsem { s with recvwaiting := false } else s

/-- The loop of `uart_recvchars` over the bytes that are available, with the locals `nexthead` and
`nbytes`. -/
def recvLoop (s : Receive) (nexthead nbytes : Nat) : List UInt8 → Receive × Nat
  | [] => (s, nbytes)
  | ch :: bytes =>
    let arrivals := s.arrivals ++ [(ch, s.ring.length)]
    if nexthead = s.ring.tail then recvLoop { s with arrivals := arrivals } nexthead nbytes bytes
    else
      recvLoop { s with
          ring := { s.ring with slot := Function.update s.ring.slot s.ring.head ch, head := nexthead }
          arrivals := arrivals, events := s.events ++ [.put ch] }
        (s.ring.next nexthead) ((nbytes + 1) % 2 ^ 16) bytes

/-- `uart_recvchars`. -/
def uartRecvchars (s : Receive) (bytes : List UInt8) : Receive :=
  let (s, nbytes) := recvLoop s (s.ring.next s.ring.head) 0 bytes
  if nbytes ≠ 0 then uartDatareceived s else s

/-- TCFLSH for the input. -/
def flush (s : Receive) : Receive :=
  { s with ring := { s.ring with head := 0, tail := 0 }, events := s.events ++ [.flush] }

inductive Act where
  | call (buflen : Nat) (nonblock : Bool)
  | read
  | signal
  | interrupt (bytes : List UInt8)
  deriving DecidableEq, Repr

def step (s : Receive) : Act → Option Receive
  | .call buflen nonblock =>
    match s.pc with
    | .idle => some { s with pc := .loop ⟨buflen, nonblock, []⟩ }
    | _ => none
  | .read => s.read
  | .signal =>
    match s.pc with
    | .sleep call => some { s with recvsem := s.recvsem + 1, pc := .interrupted call }
    | _ => none
  | .interrupt bytes => if s.rxint then some (s.uartRecvchars bytes) else none

/-- The bytes that did not find all slots but one taken. -/
def kept (size : Nat) (arrivals : List (UInt8 × Nat)) : List UInt8 :=
  (arrivals.filter fun arrival => arrival.2 + 1 ≠ size).map Prod.fst

/-- Bytes have gone into the ring, and nothing else has changed but the history. -/
structure Arrived (s s' : Receive) (accepted : List UInt8) : Prop where
  valid : s'.ring.Valid
  size : s'.ring.size = s.ring.size
  tail : s'.ring.tail = s.ring.tail
  contents : s'.ring.contents = s.ring.contents ++ accepted
  events : s'.events = s.events ++ accepted.map .put
  kept : kept s.ring.size s'.arrivals = kept s.ring.size s.arrivals ++ accepted
  results : s'.results = s.results

variable {s' s : Receive}

/-- A step of the reader adds nothing to the history but the byte it takes. -/
theorem read_frame (h : s.read = some s') :
    s'.ring.size = s.ring.size ∧ s'.arrivals = s.arrivals ∧
      ∃ ch : List UInt8, s'.events = s.events ++ ch.map .take := by
  unfold read finish at h
  split at h <;> (try split_ifs at h) <;> cases h
  case h_5 ch _ => exact ⟨rfl, rfl, [ch], rfl⟩
  all_goals exact ⟨rfl, rfl, [], (append_nil _).symm⟩

theorem Arrived.trans {t u : Receive} {first second : List UInt8} (h : Arrived s t first)
    (h' : Arrived t u second) : Arrived s u (first ++ second) where
  valid := h'.valid
  size := h'.size.trans h.size
  tail := h'.tail.trans h.tail
  contents := by rw [h'.contents, h.contents, append_assoc]
  events := by rw [h'.events, h.events, map_append, append_assoc]
  kept := by
    have hkept := h'.kept
    rw [h.size] at hkept
    rw [hkept, h.kept, append_assoc]
  results := h'.results.trans h.results

theorem kept_append (size : Nat) (arrivals : List (UInt8 × Nat)) (ch : UInt8) (n : Nat) :
    kept size (arrivals ++ [(ch, n)]) = kept size arrivals ++ if n + 1 = size then [] else [ch] := by
  unfold kept
  by_cases h : n + 1 = size <;> simp [h]

theorem recvLoop_spec (bytes : List UInt8) (s : Receive) (nbytes : Nat) (hvalid : s.ring.Valid)
    (hbytes : nbytes < 2 ^ 16) :
    ∃ accepted s', recvLoop s (s.ring.next s.ring.head) nbytes bytes =
        (s', (nbytes + accepted.length) % 2 ^ 16) ∧
      Arrived s s' accepted ∧
      s' = { s with ring := s'.ring, arrivals := s'.arrivals, events := s'.events } ∧
      s'.arrivals.map Prod.fst = s.arrivals.map Prod.fst ++ bytes := by
  induction bytes generalizing s nbytes with
  | nil =>
    refine ⟨[], s, ?_, ⟨hvalid, rfl, rfl, by simp, by simp, by simp, rfl⟩, rfl, by simp⟩
    rw [recvLoop, length_nil, Nat.add_zero, Nat.mod_eq_of_lt hbytes]
  | cons ch bytes ih =>
    by_cases hfull : s.ring.next s.ring.head = s.ring.tail
    · let s₁ : Receive := { s with arrivals := s.arrivals ++ [(ch, s.ring.length)] }
      have hfirst : Arrived s s₁ [] := by
        refine ⟨hvalid, rfl, rfl, by simp [s₁], by simp [s₁], ?_, rfl⟩
        rw [kept_append, if_pos ((RingBuffer.next_head_eq_tail hvalid).mp hfull)]
      obtain ⟨accepted, s', hrun, harrived, hsame, hbytes⟩ := ih s₁ nbytes hvalid hbytes
      refine ⟨accepted, s', ?_, hfirst.trans harrived, hsame, by simpa [s₁] using hbytes⟩
      rw [recvLoop, if_pos hfull]
      exact hrun
    · let s₁ : Receive := { s with
        ring := s.ring.push ch, arrivals := s.arrivals ++ [(ch, s.ring.length)]
        events := s.events ++ [.put ch] }
      have hfirst : Arrived s s₁ [ch] := by
        refine ⟨hvalid.push, rfl, rfl, RingBuffer.contents_push hvalid hfull, rfl, ?_, rfl⟩
        rw [kept_append, if_neg (fun h => hfull ((RingBuffer.next_head_eq_tail hvalid).mpr h))]
      obtain ⟨accepted, s', hrun, harrived, hsame, hbytes⟩ :=
        ih s₁ ((nbytes + 1) % 2 ^ 16) hvalid.push (Nat.mod_lt _ (by decide))
      refine ⟨ch :: accepted, s', ?_, hfirst.trans harrived, hsame, by simpa [s₁] using hbytes⟩
      rw [recvLoop, if_neg hfull]
      refine hrun.trans ?_
      rw [length_cons, Nat.mod_add_mod, Nat.add_right_comm, Nat.add_assoc]

/-- The reader is woken when bytes have arrived, as far as `nbytes` counts them. -/
theorem uartRecvchars_spec (s : Receive) (bytes : List UInt8) (hvalid : s.ring.Valid) :
    ∃ accepted s', Arrived s s' accepted ∧
      s' = { s with ring := s'.ring, arrivals := s'.arrivals, events := s'.events } ∧
      s'.arrivals.map Prod.fst = s.arrivals.map Prod.fst ++ bytes ∧
      uartRecvchars s bytes =
        if accepted.length % 2 ^ 16 ≠ 0 then uartDatareceived s' else s' := by
  obtain ⟨accepted, s', hrun, harrived, hsame, hbytes⟩ := recvLoop_spec bytes s 0 hvalid (by decide)
  refine ⟨accepted, s', harrived, hsame, hbytes, ?_⟩
  unfold uartRecvchars
  rw [hrun, Nat.zero_add]

/-- Waking the reader leaves the ring and the history. -/
theorem uartDatareceived_frame (s : Receive) :
    s.uartDatareceived.ring = s.ring ∧ s.uartDatareceived.arrivals = s.arrivals ∧
      s.uartDatareceived.events = s.events := by
  unfold uartDatareceived
  split_ifs <;> exact ⟨rfl, rfl, rfl⟩

theorem uartRecvchars_size (hvalid : s.ring.Valid) (bytes : List UInt8) :
    (s.uartRecvchars bytes).ring.size = s.ring.size := by
  obtain ⟨accepted, s', harrived, -, -, heq⟩ := uartRecvchars_spec s bytes hvalid
  rw [heq]
  split_ifs
  · rw [(uartDatareceived_frame s').1, harrived.size]
  · exact harrived.size

/-- What the reader has loaded is still so: the tail, and that there is a byte at it. -/
def Sees (ring : RingBuffer UInt8) : ReadPc → Prop
  | .loaded _ tail => tail = ring.tail
  | .nonempty _ tail => tail = ring.tail ∧ ring.contents ≠ []
  | .copied _ tail ch => tail = ring.tail ∧ ∃ queue, ring.contents = ch :: queue
  | _ => True

theorem Sees.wake {ring : RingBuffer UInt8} {pc : ReadPc} (h : Sees ring pc) : Sees ring pc.wake := by
  cases pc <;> exact h

/-- The events are possible for a queue, which the ring holds, and the bytes taken from it are those
returned and those the call holds. -/
structure Stream (s : Receive) : Prop where
  valid : s.ring.Valid
  queue : run Lib.Fifo.step [] s.events = some s.ring.contents
  taken : takes s.events = s.returned ++ s.pc.inHand
  sees : Sees s.ring s.pc

theorem stream_init {size : Nat} (hsize : 0 < size) : Stream (init size) where
  valid := ⟨hsize, hsize⟩
  queue := rfl
  taken := rfl
  sees := trivial

namespace Stream

variable {s : Receive}

section

variable (h : Stream s)
include h

theorem setPc {old : ReadPc} (hpc : s.pc = old) (pc : ReadPc) (hsees : Sees s.ring pc)
    (hhand : pc.inHand = old.inHand) {rxint recvwaiting : Bool} {recvsem : Int} :
    Stream { s with rxint := rxint, recvwaiting := recvwaiting, recvsem := recvsem, pc := pc } where
  valid := h.valid
  queue := h.queue
  taken := by
    show takes s.events = s.returned ++ pc.inHand
    rw [hhand, ← hpc]
    exact h.taken
  sees := hsees

theorem finish {result : Except Errno (List UInt8)}
    (hresult : (match result with | .ok bytes => bytes | .error _ => []) = s.pc.inHand) :
    Stream (s.finish result) where
  valid := h.valid
  queue := h.queue
  taken := by
    have hreturned : (s.finish result).returned = s.returned ++ s.pc.inHand := by
      rw [← hresult]
      simp [returned, Receive.finish]
    rw [hreturned]
    exact h.taken.trans (append_nil _).symm
  sees := trivial

theorem read (hread : s.read = some s') : Stream s' := by
  have hsees := h.sees
  unfold Receive.read at hread
  split at hread
  · cases hread
  · next call hpc =>
    split_ifs at hread
    · cases hread
      exact h.setPc hpc (.loaded call _) rfl rfl
    · cases hread
      exact h.finish (by rw [hpc]; rfl)
  · next call tail hpc =>
    rw [hpc] at hsees
    obtain rfl : tail = s.ring.tail := hsees
    split_ifs at hread with hsome hgot hnonblock
    · cases hread
      refine h.setPc hpc (.nonempty call _) ⟨rfl, ?_⟩ rfl
      rw [Ne, RingBuffer.contents_eq_nil h.valid]
      exact hsome
    · cases hread
      exact h.finish (by rw [hpc]; rfl)
    · cases hread
      refine h.finish ?_
      rw [hpc]
      exact (length_eq_zero_iff.mp (Nat.eq_zero_of_not_pos hgot)).symm
    · cases hread
      exact h.setPc hpc (.empty call) trivial rfl
  · next call tail hpc =>
    rw [hpc] at hsees
    obtain ⟨rfl, hsome⟩ := hsees
    cases hread
    rw [Ne, RingBuffer.contents_eq_nil h.valid] at hsome
    exact h.setPc hpc (.copied call _ _) ⟨rfl, _, RingBuffer.contents_pop h.valid hsome⟩ rfl
  · next call tail ch hpc =>
    rw [hpc] at hsees
    obtain ⟨rfl, queue, hqueue⟩ := hsees
    cases hread
    have hsome : s.ring.head ≠ s.ring.tail := by
      rw [Ne, ← RingBuffer.contents_eq_nil h.valid, hqueue]
      exact cons_ne_nil ch queue
    have hpop := RingBuffer.contents_pop h.valid hsome
    rw [hqueue] at hpop
    obtain ⟨-, hrest⟩ := List.cons.inj hpop
    have hrun := h.queue
    rw [hqueue] at hrun
    refine ⟨h.valid.pop, (Lib.Fifo.run_take hrun).trans (congrArg some hrest), ?_, trivial⟩
    have htaken := h.taken
    rw [hpc] at htaken
    show takes (s.events ++ [.take ch]) = s.returned ++ (call.got ++ [ch])
    rw [← append_assoc, ← show takes s.events = s.returned ++ call.got from htaken]
    simp [takes]
  · next call ch hpc =>
    cases hread
    exact h.setPc hpc (.loop _) trivial rfl
  · next call hpc =>
    cases hread
    exact h.setPc hpc (.retest call) trivial rfl
  · next call hpc =>
    cases hread
    split_ifs
    · exact h.setPc hpc (.enter call) trivial rfl
    · exact h.setPc hpc (.reenable call) trivial rfl
  · next call hpc =>
    cases hread
    split_ifs
    · exact h.setPc hpc (.loop call) trivial rfl
    · exact h.setPc hpc (.sleep call) trivial rfl
  · cases hread
  · next call hpc =>
    cases hread
    exact h.setPc hpc (.loop call) trivial rfl
  · next call hpc =>
    cases hread
    refine h.finish ?_
    rw [hpc]
    split_ifs with hgot
    · exact (length_eq_zero_iff.mp hgot).symm
    · rfl
  · next call hpc =>
    cases hread
    exact h.setPc hpc (.loop call) trivial rfl

theorem arrived {accepted : List UInt8} (harrived : Arrived s s' accepted) (hpc : s'.pc = s.pc) :
    Stream s' where
  valid := harrived.valid
  queue := by
    rw [harrived.events, harrived.contents]
    exact Lib.Fifo.run_puts h.queue accepted
  taken := by
    have htakes : takes s'.events = takes s.events := by
      rw [harrived.events]
      simp [takes]
    rw [htakes, hpc, returned, harrived.results]
    exact h.taken
  sees := by
    have hsees := h.sees
    rw [hpc]
    cases hs : s.pc with
    | loaded call tail =>
      rw [hs] at hsees
      exact hsees.trans harrived.tail.symm
    | nonempty call tail =>
      rw [hs] at hsees
      refine ⟨hsees.1.trans harrived.tail.symm, ?_⟩
      rw [harrived.contents]
      exact append_ne_nil_of_left_ne_nil hsees.2 accepted
    | copied call tail ch =>
      rw [hs] at hsees
      obtain ⟨htail, queue, hqueue⟩ := hsees
      refine ⟨htail.trans harrived.tail.symm, queue ++ accepted, ?_⟩
      rw [harrived.contents, hqueue, cons_append]
    | _ => trivial

theorem uartDatareceived : Stream s.uartDatareceived := by
  unfold Receive.uartDatareceived postRecvsem
  split_ifs
  · exact h.setPc rfl s.pc.wake (Sees.wake h.sees) (ReadPc.wake_inHand s.pc)
  · exact h.setPc rfl s.pc h.sees rfl
  · exact h

theorem step {a : Act} (hstep : s.step a = some s') : Stream s' := by
  cases a with
  | call buflen nonblock =>
    simp only [Receive.step] at hstep
    split at hstep
    · next hpc =>
      cases hstep
      exact h.setPc hpc (.loop _) trivial rfl
    · cases hstep
  | read => exact h.read hstep
  | signal =>
    simp only [Receive.step] at hstep
    split at hstep
    · next call hpc =>
      cases hstep
      exact h.setPc hpc (.interrupted call) trivial rfl
    · cases hstep
  | interrupt bytes =>
    simp only [Receive.step] at hstep
    split_ifs at hstep
    cases hstep
    obtain ⟨accepted, s', harrived, hsame, -, heq⟩ := uartRecvchars_spec s bytes h.valid
    have hs' : Stream s' := h.arrived harrived (by rw [hsame])
    rw [heq]
    split_ifs
    · exact hs'.uartDatareceived
    · exact hs'

/-- A flush is no harm when the reader is not between loading the tail and storing it. -/
theorem flush (hpc : ∀ ring, Sees ring s.pc) : Stream s.flush where
  valid := ⟨Nat.zero_lt_of_lt h.valid.head, Nat.zero_lt_of_lt h.valid.head⟩
  queue := Lib.Fifo.run_flush h.queue
  taken := by
    have htakes : takes s.flush.events = takes s.events := by
      simp [takes, Receive.flush]
    rw [htakes]
    exact h.taken
  sees := hpc _

end

end Stream

end Receive

end NbLot.Source.Serial
