import NbLot.Lib.Counting
import NbLot.Lib.Fifo
import NbLot.Lib.RingBuffer

/-!
# Pipes and FIFOs

Source: nuttx/drivers/pipes/pipe_common.c:113-790, pipe_common.h:60-150. Unlinking is left out.

Everything a call does while it holds `d_bfsem` is one step, so that no task holds it between the
steps; `sched_lock` makes the release of `d_bfsem` and the wait behind it one as well. The tasks are
the elements of a finite type, with at most one call each; the pipe is read and written through the
descriptors in `files`. The fields from `results` on, and `rose` and `drained` of a poller, are not in
the source.
-/
namespace NbLot.Source.Pipe
open List

open Lib (RingBuffer)
open Lib.Fifo (Event)

/-- The bits of `f_oflags`. -/
structure Mode where
  rdok : Bool
  wrok : Bool
  nonblock : Bool
  deriving DecidableEq, Repr

/-- A `pollevent_t`. -/
structure Events where
  pollin : Bool
  pollout : Bool
  pollhup : Bool
  pollerr : Bool
  deriving DecidableEq, Repr

def Events.any (e : Events) : Bool := e.pollin || e.pollout || e.pollhup || e.pollerr

/-- A `struct pollfd` that is set up, with what has happened since then: the pipe has gone from empty
to not empty and stayed so (`rose`), or from full to not full (`drained`). -/
structure Poller where
  key : Nat
  fd : Nat
  events : Events
  revents : Events
  rose : Bool
  drained : Bool
  deriving DecidableEq, Repr

inductive Errno where
  | eintr
  | eagain
  deriving DecidableEq, Repr

/-- A call of `pipecommon_write`. -/
structure WriteCall where
  buffer : List UInt8
  nwritten : Nat
  deriving DecidableEq, Repr

/-- Where a task is. -/
inductive Pc where
  | idle
  /-- in `sem_wait` of `pipecommon_open` -/
  | openWait (fd : Nat) (mode : Mode)
  /-- this wait was interrupted; in front of `pipecommon_close` -/
  | openFailed (fd : Nat) (mode : Mode)
  /-- in front of `sem_wait` for `d_bfsem` in `pipecommon_read` -/
  | reading (fd : Nat) (mode : Mode) (len : Nat)
  /-- in `sem_wait` for `d_rdsem` -/
  | readWait (fd : Nat) (mode : Mode) (len : Nat)
  /-- in front of the first `sem_wait` for `d_bfsem` in `pipecommon_write` -/
  | writing (fd : Nat) (mode : Mode) (buffer : List UInt8)
  /-- in `sem_wait` for `d_wrsem` -/
  | writeWait (fd : Nat) (mode : Mode) (call : WriteCall)
  /-- this wait was interrupted; in front of the next one -/
  | writeAgain (fd : Nat) (mode : Mode) (call : WriteCall)
  /-- in front of `pipecommon_semtake` for `d_bfsem` -/
  | writeAwake (fd : Nat) (mode : Mode) (call : WriteCall)
  deriving DecidableEq, Repr

namespace Pc

def wakeReader : Pc → Pc
  | .openWait .. => .idle
  | .readWait fd mode len => .reading fd mode len
  | pc => pc

def wakeWriter : Pc → Pc
  | .writeWait fd mode call => .writeAwake fd mode call
  | pc => pc

/-- The descriptor that the task has not opened yet. -/
def opening : Pc → Option (Nat × Mode)
  | .openWait fd mode | .openFailed fd mode => some (fd, mode)
  | _ => none

end Pc

structure Dev (τ : Type) where
  ring : RingBuffer UInt8
  allocated : Bool
  refs : Nat
  nwriters : Nat
  nreaders : Nat
  policy1 : Bool
  rdsem : Int
  wrsem : Int
  fds : List Poller
  files : List (Nat × Mode)
  pc : τ → Pc
  /-- what the calls of `pipecommon_read` returned -/
  results : List (Except Errno (List UInt8))
  /-- what the calls of `pipecommon_write` returned -/
  writes : List (τ × List UInt8 × Except Errno Nat)
  /-- the bytes that were placed in the buffer, with the writer -/
  placed : List (τ × UInt8)
  events : List (Event UInt8)

variable {τ : Type}

namespace Dev

/-- A pipe of `size` bytes that nobody has opened. -/
def init (τ : Type) (size : Nat) : Dev τ where
  ring := ⟨size, 0, 0, fun _ => 0⟩
  allocated := false
  refs := 0
  nwriters := 0
  nreaders := 0
  policy1 := false
  rdsem := 0
  wrsem := 0
  fds := []
  files := []
  pc := fun _ => .idle
  results := []
  writes := []
  placed := []
  events := []

/-- `sem_post` for `d_rdsem` while its value is negative: as many tasks wait for it as it is below 0. -/
@[simps -fullyApplied]
def wakeReaders (s : Dev τ) : Dev τ :=
  { s with rdsem := if s.rdsem < 0 then 0 else s.rdsem
           pc := fun t => if s.rdsem < 0 then (s.pc t).wakeReader else s.pc t }

/-- `sem_post` for `d_wrsem` while its value is negative. -/
@[simps -fullyApplied]
def wakeWriters (s : Dev τ) : Dev τ :=
  { s with wrsem := if s.wrsem < 0 then 0 else s.wrsem
           pc := fun t => if s.wrsem < 0 then (s.pc t).wakeWriter else s.pc t }

/-- What `pipecommon_pollnotify` does for one `struct pollfd`. -/
def notify (eventset : Events) (fds : Poller) : Poller :=
  let eventset := if eventset.pollerr then { eventset with pollout := false, pollin := false } else eventset
  let revents : Events := {
    pollin := fds.revents.pollin || (eventset.pollin && fds.events.pollin)
    pollout := fds.revents.pollout || (eventset.pollout && fds.events.pollout)
    pollhup := fds.revents.pollhup || eventset.pollhup
    pollerr := fds.revents.pollerr || eventset.pollerr }
  { fds with revents :=
      if revents.pollout && revents.pollhup then { revents with pollout := false } else revents }

/-- `pipecommon_pollnotify`. -/
@[simps -fullyApplied]
def pollnotify (s : Dev τ) (eventset : Events) : Dev τ := { s with fds := s.fds.map (notify eventset) }

/-- Wake-ups and notifications, one after another. -/
inductive Nudged (s : Dev τ) : Dev τ → Prop
  | refl : Nudged s s
  | wakeReaders {u : Dev τ} (h : Nudged s u) : Nudged s u.wakeReaders
  | wakeWriters {u : Dev τ} (h : Nudged s u) : Nudged s u.wakeWriters
  | pollnotify {u : Dev τ} (h : Nudged s u) (eventset : Events) : Nudged s (u.pollnotify eventset)

theorem Nudged.ring_eq {s u : Dev τ} (h : Nudged s u) : u.ring = s.ring := by
  induction h with
  | refl => rfl
  | wakeReaders _ ih | wakeWriters _ ih | pollnotify _ _ ih => exact ih

variable [DecidableEq τ] (s : Dev τ)

@[simps -fullyApplied]
def setPc (s : Dev τ) (t : τ) (pc : Pc) : Dev τ := { s with pc := Function.update s.pc t pc }

/-- `sem_wait` for `d_rdsem`. -/
@[simps -fullyApplied]
def waitRdsem (s : Dev τ) (t : τ) (blocked resumed : Pc) : Dev τ :=
  { s with rdsem := s.rdsem - 1
           pc := Function.update s.pc t (if 0 < s.rdsem then resumed else blocked) }

/-- `sem_wait` for `d_wrsem`. -/
@[simps -fullyApplied]
def waitWrsem (s : Dev τ) (t : τ) (blocked resumed : Pc) : Dev τ :=
  { s with wrsem := s.wrsem - 1
           pc := Function.update s.pc t (if 0 < s.wrsem then resumed else blocked) }

/-- The counts in `pipecommon_open`, once there is a buffer. -/
@[simps -fullyApplied]
def countOpen (s : Dev τ) (fd : Nat) (mode : Mode) : Dev τ :=
  { s with allocated := s.allocated || s.refs == 0
           refs := (s.refs + 1) % 2 ^ 8
           nwriters := if mode.wrok then (s.nwriters + 1) % 2 ^ 8 else s.nwriters
           nreaders := if mode.rdok then (s.nreaders + 1) % 2 ^ 8 else s.nreaders
           files := (fd, mode) :: s.files }

/-- `pipecommon_open`; `nomem` is that `kmm_malloc` fails. The first writer wakes those who wait for
it, and who only reads waits for a writer or for bytes. -/
def pipecommonOpen (s : Dev τ) (t : τ) (fd : Nat) (mode : Mode) (nomem : Bool) : Dev τ :=
  if s.refs = 0 ∧ s.allocated = false ∧ nomem then s
  else
    let s := s.countOpen fd mode
    let s := if mode.wrok ∧ s.nwriters = 1 then s.wakeReaders else s
    if mode.rdok ∧ ¬mode.wrok ∧ s.nwriters < 1 ∧ s.ring.head = s.ring.tail then
      s.waitRdsem t (.openWait fd mode) .idle
    else s

/-- An open fails, or it counts the descriptor, wakes those who wait for a writer, and waits or not. -/
theorem pipecommonOpen_cases (t : τ) (fd : Nat) (mode : Mode) (nomem : Bool) :
    s.pipecommonOpen t fd mode nomem = s ∨
    ∃ u, (u = s.countOpen fd mode ∨ u = (s.countOpen fd mode).wakeReaders) ∧
      (s.pipecommonOpen t fd mode nomem = u ∨
        s.pipecommonOpen t fd mode nomem = u.waitRdsem t (.openWait fd mode) .idle) := by
  simp only [pipecommonOpen]
  generalize s.countOpen fd mode = counted
  by_cases hnomem : s.refs = 0 ∧ s.allocated = false ∧ nomem
  · exact .inl (if_pos hnomem)
  · refine .inr ⟨if mode.wrok ∧ counted.nwriters = 1 then counted.wakeReaders else counted, ?_, ?_⟩
    · split_ifs
      · exact .inr rfl
      · exact .inl rfl
    · generalize (if mode.wrok ∧ counted.nwriters = 1 then counted.wakeReaders else counted) = u
      split_ifs
      · exact .inr rfl
      · exact .inl rfl

/-- The descriptor and the reference that `pipecommon_close` gives up. -/
@[simps -fullyApplied]
def dropFile (s : Dev τ) (fd : Nat) (mode : Mode) : Dev τ :=
  { s with files := s.files.erase (fd, mode), refs := (s.refs + (2 ^ 8 - 1)) % 2 ^ 8 }

/-- The counts in `pipecommon_close` when it is not the last. -/
@[simps -fullyApplied]
def countClose (s : Dev τ) (mode : Mode) : Dev τ :=
  { s with nwriters := if mode.wrok then (s.nwriters + (2 ^ 8 - 1)) % 2 ^ 8 else s.nwriters
           nreaders := if mode.rdok then (s.nreaders + (2 ^ 8 - 1)) % 2 ^ 8 else s.nreaders }

/-- Who is told that the last writer or the last reader has gone. -/
def tellOthers (s : Dev τ) (mode : Mode) : Dev τ :=
  let s := if mode.wrok ∧ s.nwriters = 0 then s.wakeReaders.pollnotify ⟨false, false, true, false⟩ else s
  if mode.rdok ∧ s.nreaders = 0 ∧ s.policy1 = false then s.pollnotify ⟨false, false, false, true⟩ else s

omit [DecidableEq τ] in
theorem tellOthers_nudged (mode : Mode) : Nudged s (s.tellOthers mode) := by
  have hwoken : Nudged s (if mode.wrok ∧ s.nwriters = 0 then
      s.wakeReaders.pollnotify ⟨false, false, true, false⟩ else s) := by
    split_ifs
    · exact .pollnotify (.wakeReaders .refl) _
    · exact .refl
  simp only [tellOthers]
  generalize (if mode.wrok ∧ s.nwriters = 0 then
      s.wakeReaders.pollnotify ⟨false, false, true, false⟩ else s) = u at hwoken ⊢
  split_ifs
  · exact .pollnotify hwoken _
  · exact hwoken

/-- What the last `pipecommon_close` resets. -/
@[simps -fullyApplied]
def reset (s : Dev τ) : Dev τ :=
  { s with ring := { s.ring with head := 0, tail := 0 }, allocated := false, refs := 0, nwriters := 0
           nreaders := 0, events := s.events ++ [.flush] }

/-- `pipecommon_close`. -/
def pipecommonClose (s : Dev τ) (fd : Nat) (mode : Mode) : Dev τ :=
  let s := s.dropFile fd mode
  if 0 < s.refs then (s.countClose mode).tellOthers mode
  else if s.policy1 = false ∨ s.ring.head = s.ring.tail then s.reset
  else s

/-- The loop of `pipecommon_read` that copies at most `len` bytes. -/
def readLoop : Nat → RingBuffer UInt8 → List UInt8 × RingBuffer UInt8
  | 0, ring => ([], ring)
  | len + 1, ring =>
    if ring.head ≠ ring.tail then
      let (bytes, ring') := readLoop len ring.pop
      (ring.slot ring.tail :: bytes, ring')
    else ([], ring)

@[simps -fullyApplied]
def readReturn (s : Dev τ) (t : τ) (result : Except Errno (List UInt8)) : Dev τ :=
  { s with pc := Function.update s.pc t .idle, results := s.results ++ [result] }

/-- The buffer after bytes were taken from it. -/
@[simps -fullyApplied]
def take (s : Dev τ) (bytes : List UInt8) (ring : RingBuffer UInt8) : Dev τ :=
  { s with ring := ring, events := s.events ++ bytes.map Event.take }

/-- `pipecommon_read` with `d_bfsem` taken. -/
def pipecommonRead (s : Dev τ) (t : τ) (fd : Nat) (mode : Mode) (len : Nat) : Dev τ :=
  if s.ring.head = s.ring.tail then
    if mode.nonblock then s.readReturn t (.error .eagain)
    else if s.nwriters = 0 then s.readReturn t (.ok [])
    else s.waitRdsem t (.readWait fd mode len) (.reading fd mode len)
  else
    let (bytes, ring) := readLoop len s.ring
    let s := s.take bytes ring
    (s.wakeWriters.pollnotify ⟨false, true, false, false⟩).readReturn t (.ok bytes)

/-- A read of an empty pipe returns without bytes or waits for a writer that is counted; another one takes
bytes, wakes the writers and notifies the pollers. -/
theorem pipecommonRead_cases (t : τ) (fd : Nat) (mode : Mode) (len : Nat) :
    (s.ring.head = s.ring.tail ∧
      ((∃ result, (∀ bytes, result = .ok bytes → bytes = []) ∧
          s.pipecommonRead t fd mode len = s.readReturn t result) ∨
        (0 < s.nwriters ∧ s.pipecommonRead t fd mode len =
          s.waitRdsem t (.readWait fd mode len) (.reading fd mode len)))) ∨
    (s.ring.head ≠ s.ring.tail ∧ s.pipecommonRead t fd mode len =
      ((s.take (readLoop len s.ring).1 (readLoop len s.ring).2).wakeWriters.pollnotify
        ⟨false, true, false, false⟩).readReturn t (.ok (readLoop len s.ring).1)) := by
  simp only [pipecommonRead]
  split_ifs with hempty hnonblock hnwriters
  · exact .inl ⟨hempty, .inl ⟨.error .eagain, nofun, rfl⟩⟩
  · exact .inl ⟨hempty, .inl ⟨.ok [], fun _ h => (Except.ok.inj h).symm, rfl⟩⟩
  · exact .inl ⟨hempty, .inr ⟨Nat.pos_of_ne_zero hnwriters, rfl⟩⟩
  · exact .inr ⟨hempty, rfl⟩

/-- The loop of `pipecommon_write` up to the last byte or to a full buffer, with the number of bytes
placed. -/
def writeLoop : List UInt8 → RingBuffer UInt8 → Nat × RingBuffer UInt8
  | [], ring => (0, ring)
  | byte :: bytes, ring =>
    if ring.next ring.head ≠ ring.tail then
      let (n, ring') := writeLoop bytes (ring.push byte)
      (n + 1, ring')
    else (0, ring)

@[simps -fullyApplied]
def writeReturn (s : Dev τ) (t : τ) (buffer : List UInt8) (result : Except Errno Nat) : Dev τ :=
  { s with pc := Function.update s.pc t .idle, writes := s.writes ++ [(t, buffer, result)] }

/-- The buffer after a task has placed bytes in it. -/
@[simps -fullyApplied]
def place (s : Dev τ) (t : τ) (bytes : List UInt8) (ring : RingBuffer UInt8) : Dev τ :=
  { s with ring := ring, events := s.events ++ bytes.map Event.put
           placed := s.placed ++ bytes.map fun byte => (t, byte) }

/-- `pipecommon_write` with `d_bfsem` taken, up to its return or to the next wait. -/
def pipecommonWrite (s : Dev τ) (t : τ) (fd : Nat) (mode : Mode) (call : WriteCall) : Dev τ :=
  let bytes := call.buffer.drop call.nwritten
  let (n, ring) := writeLoop bytes s.ring
  let s := s.place t (bytes.take n) ring
  let nwritten := call.nwritten + n
  if n = bytes.length then
    (s.wakeReaders.pollnotify ⟨true, false, false, false⟩).writeReturn t call.buffer (.ok nwritten)
  else
    -- something was written in this pass
    let s := if 0 < n then s.wakeReaders else s
    if mode.nonblock then
      s.writeReturn t call.buffer (if nwritten = 0 then .error .eagain else .ok nwritten)
    else
      s.waitWrsem t (.writeWait fd mode ⟨call.buffer, nwritten⟩) (.writeAwake fd mode ⟨call.buffer, nwritten⟩)

/-- A write places all of its bytes and returns, or it stalls: it wakes the readers if it has placed any,
and returns or waits. -/
theorem pipecommonWrite_cases (t : τ) (fd : Nat) (mode : Mode) (call : WriteCall) {n : Nat}
    {ring : RingBuffer UInt8}
    (hloop : writeLoop (call.buffer.drop call.nwritten) s.ring = (n, ring)) :
    let placed := s.place t ((call.buffer.drop call.nwritten).take n) ring
    (n = (call.buffer.drop call.nwritten).length ∧ s.pipecommonWrite t fd mode call =
      (placed.wakeReaders.pollnotify ⟨true, false, false, false⟩).writeReturn t call.buffer
        (.ok (call.nwritten + n))) ∨
    (n ≠ (call.buffer.drop call.nwritten).length ∧ ∃ u, (0 < n ∧ u = placed.wakeReaders ∨ n = 0 ∧ u = placed) ∧
      (s.pipecommonWrite t fd mode call = u.writeReturn t call.buffer
          (if call.nwritten + n = 0 then .error .eagain else .ok (call.nwritten + n)) ∨
        s.pipecommonWrite t fd mode call = u.waitWrsem t (.writeWait fd mode ⟨call.buffer, call.nwritten + n⟩)
          (.writeAwake fd mode ⟨call.buffer, call.nwritten + n⟩))) := by
  simp only [pipecommonWrite, hloop]
  generalize s.place t ((call.buffer.drop call.nwritten).take n) ring = placed
  by_cases hall : n = (call.buffer.drop call.nwritten).length
  · exact .inl ⟨hall, if_pos hall⟩
  · simp only [if_neg hall]
    refine .inr ⟨hall, if 0 < n then placed.wakeReaders else placed, ?_, ?_⟩
    · split_ifs with hsome
      · exact .inl ⟨hsome, rfl⟩
      · exact .inr ⟨Nat.eq_zero_of_not_pos hsome, rfl⟩
    · by_cases hnonblock : mode.nonblock
      · exact .inl (if_pos hnonblock)
      · exact .inr (if_neg hnonblock)

/-- The number of bytes in the buffer as `pipecommon_poll` computes it. -/
def nbytes (s : Dev τ) : Nat :=
  if s.ring.tail ≤ s.ring.head then s.ring.head - s.ring.tail else s.ring.size - 1 + s.ring.head - s.ring.tail

/-- The events that `pipecommon_poll` notifies at once. -/
def eventset (s : Dev τ) : Events where
  pollin := decide (0 < s.nbytes)
  pollout := decide (s.nbytes < s.ring.size - 1)
  pollhup := decide (s.nbytes = 0 ∧ s.nwriters = 0)
  pollerr := decide (s.policy1 = false ∧ s.nreaders = 0)

@[simps -fullyApplied]
def addPoller (s : Dev τ) (key fd : Nat) (asked : Events) : Dev τ :=
  { s with fds := s.fds ++ [⟨key, fd, asked, ⟨false, false, false, false⟩, false, false⟩] }

/-- The set-up of `pipecommon_poll`, with CONFIG_DEV_PIPE_NPOLLWAITERS slots. -/
def pollSetup (npollwaiters : Nat) (s : Dev τ) (key fd : Nat) (asked : Events) : Dev τ :=
  if s.fds.length < npollwaiters then
    let s := s.addPoller key fd asked
    if s.eventset.any then s.pollnotify s.eventset else s
  else s

/-- What has happened to the pipe since the pollers were set up. -/
def observe (before : RingBuffer UInt8) (s : Dev τ) : Dev τ :=
  let watch (fds : Poller) : Poller := { fds with
    rose := decide (s.ring.head ≠ s.ring.tail) && (fds.rose || decide (before.head = before.tail))
    drained := decide (s.ring.next s.ring.head ≠ s.ring.tail) &&
      (fds.drained || decide (before.next before.head = before.tail)) }
  { s with fds := s.fds.map watch }

inductive Act (τ : Type) where
  | openFile (t : τ) (fd : Nat) (mode : Mode) (nomem : Bool)
  | close (t : τ) (fd : Nat)
  | read (t : τ) (fd : Nat) (len : Nat)
  | write (t : τ) (fd : Nat) (buffer : List UInt8)
  /-- the task takes `d_bfsem` and goes on -/
  | bfsem (t : τ)
  | signal (t : τ)
  | waitAgain (t : τ)
  | pollSetup (key fd : Nat) (asked : Events)
  | pollTeardown (key : Nat)
  | policy (policy1 : Bool)
  deriving DecidableEq, Repr

variable [Fintype τ]

/-- The mode of a descriptor, which the tasks know once it is open. -/
def mode (s : Dev τ) (fd : Nat) : Option Mode :=
  if ∃ t, (s.pc t).opening.map Prod.fst = some fd then none
  else (s.files.find? fun file => file.1 = fd).map Prod.snd

/-- A step of a task; the waits of `sem_wait` for `d_bfsem` may be interrupted, those of
`pipecommon_semtake` may not. -/
def act (npollwaiters : Nat) (s : Dev τ) : Act τ → Option (Dev τ)
  | .openFile t fd mode nomem =>
    if s.pc t = .idle ∧ ∀ file ∈ s.files, file.1 ≠ fd then some (s.pipecommonOpen t fd mode nomem) else none
  | .close t fd =>
    match s.pc t, s.mode fd with
    | .idle, some mode => some (s.pipecommonClose fd mode)
    | _, _ => none
  | .read t fd len =>
    match s.pc t, s.mode fd with
    | .idle, some mode =>
      if mode.rdok then
        if len = 0 then some (s.readReturn t (.ok [])) else some (s.setPc t (.reading fd mode len))
      else none
    | _, _ => none
  | .write t fd buffer =>
    match s.pc t, s.mode fd with
    | .idle, some mode =>
      if mode.wrok then
        if buffer = [] then some (s.writeReturn t [] (.ok 0)) else some (s.setPc t (.writing fd mode buffer))
      else none
    | _, _ => none
  | .bfsem t =>
    match s.pc t with
    | .openFailed fd mode => some ((s.setPc t .idle).pipecommonClose fd mode)
    | .reading fd mode len => some (s.pipecommonRead t fd mode len)
    | .writing fd mode buffer => some (s.pipecommonWrite t fd mode ⟨buffer, 0⟩)
    | .writeAwake fd mode call => some (s.pipecommonWrite t fd mode call)
    | _ => none
  | .signal t =>
    match s.pc t with
    | .openWait fd mode => some ({ s with rdsem := s.rdsem + 1 }.setPc t (.openFailed fd mode))
    | .reading .. => some (s.readReturn t (.error .eintr))
    | .readWait .. => some ({ s with rdsem := s.rdsem + 1 }.readReturn t (.error .eintr))
    | .writing _ _ buffer => some (s.writeReturn t buffer (.error .eintr))
    | .writeWait fd mode call => some ({ s with wrsem := s.wrsem + 1 }.setPc t (.writeAgain fd mode call))
    | _ => none
  | .waitAgain t =>
    match s.pc t with
    | .writeAgain fd mode call => some (s.waitWrsem t (.writeWait fd mode call) (.writeAwake fd mode call))
    | _ => none
  | .pollSetup key fd asked =>
    if (s.mode fd).isSome ∧ ∀ fds ∈ s.fds, fds.key ≠ key then some (s.pollSetup npollwaiters key fd asked)
    else none
  | .pollTeardown key => some { s with fds := s.fds.filter fun fds => fds.key ≠ key }
  | .policy policy1 => some { s with policy1 := policy1 }

def step (npollwaiters : Nat) (s : Dev τ) (a : Act τ) : Option (Dev τ) :=
  (s.act npollwaiters a).map (observe s.ring)

/-- What an action of a task does, and from where. -/
inductive Effect (npollwaiters : Nat) (s : Dev τ) : Act τ → Dev τ → Prop
  | opened {t fd mode nomem} (hpc : s.pc t = .idle) (hfresh : ∀ file ∈ s.files, file.1 ≠ fd) :
    Effect npollwaiters s (.openFile t fd mode nomem) (s.pipecommonOpen t fd mode nomem)
  | closed {t fd mode} (hpc : s.pc t = .idle) (hmode : s.mode fd = some mode) :
    Effect npollwaiters s (.close t fd) (s.pipecommonClose fd mode)
  | readNone {t fd} (hpc : s.pc t = .idle) : Effect npollwaiters s (.read t fd 0) (s.readReturn t (.ok []))
  | readEntered {t fd mode len} (hpc : s.pc t = .idle) (hmode : s.mode fd = some mode) (hok : mode.rdok)
    (hlen : 0 < len) : Effect npollwaiters s (.read t fd len) (s.setPc t (.reading fd mode len))
  | writeNone {t fd} (hpc : s.pc t = .idle) : Effect npollwaiters s (.write t fd []) (s.writeReturn t [] (.ok 0))
  | writeEntered {t fd mode buffer} (hpc : s.pc t = .idle) (hmode : s.mode fd = some mode) (hok : mode.wrok)
    (hbuffer : buffer ≠ []) : Effect npollwaiters s (.write t fd buffer) (s.setPc t (.writing fd mode buffer))
  | openUndone {t fd mode} (hpc : s.pc t = .openFailed fd mode) :
    Effect npollwaiters s (.bfsem t) ((s.setPc t .idle).pipecommonClose fd mode)
  | reads {t fd mode len} (hpc : s.pc t = .reading fd mode len) :
    Effect npollwaiters s (.bfsem t) (s.pipecommonRead t fd mode len)
  | writes {t fd mode buffer} (hpc : s.pc t = .writing fd mode buffer) :
    Effect npollwaiters s (.bfsem t) (s.pipecommonWrite t fd mode ⟨buffer, 0⟩)
  | writesOn {t fd mode call} (hpc : s.pc t = .writeAwake fd mode call) :
    Effect npollwaiters s (.bfsem t) (s.pipecommonWrite t fd mode call)
  | openInterrupted {t fd mode} (hpc : s.pc t = .openWait fd mode) :
    Effect npollwaiters s (.signal t) ({ s with rdsem := s.rdsem + 1 }.setPc t (.openFailed fd mode))
  | readUnentered {t fd mode len} (hpc : s.pc t = .reading fd mode len) :
    Effect npollwaiters s (.signal t) (s.readReturn t (.error .eintr))
  | readInterrupted {t fd mode len} (hpc : s.pc t = .readWait fd mode len) :
    Effect npollwaiters s (.signal t) ({ s with rdsem := s.rdsem + 1 }.readReturn t (.error .eintr))
  | writeUnentered {t fd mode buffer} (hpc : s.pc t = .writing fd mode buffer) :
    Effect npollwaiters s (.signal t) (s.writeReturn t buffer (.error .eintr))
  | writeInterrupted {t fd mode call} (hpc : s.pc t = .writeWait fd mode call) :
    Effect npollwaiters s (.signal t) ({ s with wrsem := s.wrsem + 1 }.setPc t (.writeAgain fd mode call))
  | waitsAgain {t fd mode call} (hpc : s.pc t = .writeAgain fd mode call) :
    Effect npollwaiters s (.waitAgain t) (s.waitWrsem t (.writeWait fd mode call) (.writeAwake fd mode call))
  | pollSetup {key fd asked} (hmode : (s.mode fd).isSome) (hkey : ∀ fds ∈ s.fds, fds.key ≠ key) :
    Effect npollwaiters s (.pollSetup key fd asked) (s.pollSetup npollwaiters key fd asked)
  | pollTeardown {key} : Effect npollwaiters s (.pollTeardown key)
    { s with fds := s.fds.filter fun fds => fds.key ≠ key }
  | policy {policy1} : Effect npollwaiters s (.policy policy1) { s with policy1 := policy1 }

theorem act_effect {npollwaiters : Nat} {s s' : Dev τ} {a : Act τ} (hact : s.act npollwaiters a = some s') :
    Effect npollwaiters s a s' := by
  cases a with
  | openFile t fd mode nomem =>
    simp only [act] at hact
    split_ifs at hact with henabled
    cases hact
    exact .opened henabled.1 henabled.2
  | close t fd =>
    simp only [act] at hact
    split at hact
    · cases hact
      exact .closed ‹_› ‹_›
    · contradiction
  | read t fd len =>
    simp only [act] at hact
    split at hact
    · split_ifs at hact with hok hlen
      · cases hact
        obtain rfl := hlen
        exact .readNone ‹_›
      · cases hact
        exact .readEntered ‹_› ‹_› hok (Nat.pos_of_ne_zero hlen)
    · contradiction
  | write t fd buffer =>
    simp only [act] at hact
    split at hact
    · split_ifs at hact with hok hbuffer
      · cases hact
        obtain rfl := hbuffer
        exact .writeNone ‹_›
      · cases hact
        exact .writeEntered ‹_› ‹_› hok hbuffer
    · contradiction
  | bfsem t =>
    cases hpc : s.pc t
    all_goals simp only [act, hpc, reduceCtorEq, Option.some.injEq] at hact
    all_goals subst hact
    · exact .openUndone hpc
    · exact .reads hpc
    · exact .writes hpc
    · exact .writesOn hpc
  | signal t =>
    cases hpc : s.pc t
    all_goals simp only [act, hpc, reduceCtorEq, Option.some.injEq] at hact
    all_goals subst hact
    · exact .openInterrupted hpc
    · exact .readUnentered hpc
    · exact .readInterrupted hpc
    · exact .writeUnentered hpc
    · exact .writeInterrupted hpc
  | waitAgain t =>
    cases hpc : s.pc t
    all_goals simp only [act, hpc, reduceCtorEq] at hact
    cases hact
    exact .waitsAgain hpc
  | pollSetup key fd asked =>
    simp only [act] at hact
    split_ifs at hact with henabled
    cases hact
    exact .pollSetup henabled.1 henabled.2
  | pollTeardown key =>
    cases hact
    exact .pollTeardown
  | policy policy1 =>
    cases hact
    exact .policy

omit [DecidableEq τ] in
theorem mem_files_of_mode {s : Dev τ} {fd : Nat} {mode : Mode} (hmode : s.mode fd = some mode) :
    (fd, mode) ∈ s.files ∧ ∀ t file, (s.pc t).opening = some file → file.1 ≠ fd := by
  simp only [Dev.mode] at hmode
  split_ifs at hmode with hopening
  obtain ⟨file, hfind, rfl⟩ := Option.map_eq_some_iff.mp hmode
  have hfd : file.1 = fd := by simpa using find?_some hfind
  refine ⟨?_, fun t file' hfile heq => hopening ⟨t, ?_⟩⟩
  · rw [← hfd]
    exact mem_of_find?_eq_some hfind
  · rw [hfile, ← heq]
    rfl

variable {ring : RingBuffer UInt8} (bytes : List UInt8)

/-- What the copy loop of `pipecommon_read` does to the bytes in the buffer. -/
theorem readLoop_spec (len : Nat) (hvalid : ring.Valid) :
    (readLoop len ring).2.Valid ∧ (readLoop len ring).2.size = ring.size ∧
      ring.contents = (readLoop len ring).1 ++ (readLoop len ring).2.contents := by
  induction len generalizing ring with
  | zero => exact ⟨hvalid, rfl, rfl⟩
  | succ len ih =>
    by_cases hempty : ring.head = ring.tail
    · simp [readLoop, hempty, hvalid]
    · obtain ⟨hvalid', hsize, hcontents⟩ := ih hvalid.pop
      simp only [readLoop, if_pos hempty]
      refine ⟨hvalid', hsize, ?_⟩
      rw [RingBuffer.contents_pop hvalid hempty, hcontents, cons_append]

/-- What the loop of `pipecommon_write` does to the bytes in the buffer; it stops early only when the
buffer is full. -/
theorem writeLoop_spec (hvalid : ring.Valid) :
    (writeLoop bytes ring).2.Valid ∧ (writeLoop bytes ring).2.size = ring.size ∧
      (writeLoop bytes ring).2.contents = ring.contents ++ bytes.take (writeLoop bytes ring).1 ∧
      ((writeLoop bytes ring).1 ≠ bytes.length →
        (writeLoop bytes ring).2.next (writeLoop bytes ring).2.head = (writeLoop bytes ring).2.tail) := by
  induction bytes generalizing ring with
  | nil => exact ⟨hvalid, rfl, by simp [writeLoop], absurd rfl⟩
  | cons byte bytes ih =>
    by_cases hfull : ring.next ring.head = ring.tail
    · simp [writeLoop, hfull, hvalid]
    · obtain ⟨hvalid', hsize, hcontents, hstop⟩ := ih (hvalid.push)
      simp only [writeLoop, if_pos hfull]
      refine ⟨hvalid', hsize, ?_, fun hne => hstop fun heq => hne ?_⟩
      · rw [hcontents, RingBuffer.contents_push hvalid hfull, append_assoc]
        rfl
      · rw [heq, length_cons]

theorem writeLoop_full (ring : RingBuffer UInt8) (hfull : ring.next ring.head = ring.tail) :
    writeLoop bytes ring = (0, ring) := by
  cases bytes <;> simp [writeLoop, hfull]

theorem writeLoop_none (ring : RingBuffer UInt8) (hnone : (writeLoop bytes ring).1 = 0) :
    (writeLoop bytes ring).2 = ring := by
  cases bytes with
  | nil => rfl
  | cons byte bytes =>
    simp only [writeLoop] at hnone ⊢
    split_ifs at hnone ⊢
    rfl

end Dev

end NbLot.Source.Pipe
