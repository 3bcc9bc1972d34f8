import NbLot.Guarantees.PipePollers
import NbLot.Guarantees.PipeStream

/-!
# Wake-ups in a pipe

A reader blocks while the pipe is empty and open for writing, a writer while it is full; a poller is told
when the pipe gets its first byte or its first room. The source misses some of these wake-ups: a write
that stalls does not notify the pollers of the bytes it has placed; a writer whose wait was interrupted
waits again without a look at the buffer; a descriptor may be closed while a call uses it; and the count
of the writers may be wrong. In every run in which none of these matters no wake-up is lost.
-/
namespace NbLot.Guarantees.PipeWakeup
open List Function

open Lib (RingBuffer)
open Lib.Counting (total total_eq_zero total_update)
open Lib.Transition
open PipeCounts (CountsInv Fits)
open PipePollers (Informed Told Used Users uses)
open PipeStream (Stream)
open Source.Pipe Source.Pipe.Dev

/-- The task waits for `d_rdsem`. -/
def rdWaits : Pc → Nat
  | .openWait .. | .readWait .. => 1
  | _ => 0

/-- The task waits for `d_wrsem`. -/
def wrWaits : Pc → Nat
  | .writeWait .. => 1
  | _ => 0

/-- The task is blocked in `pipecommon_read`. -/
def readBlocked : Pc → Bool
  | .readWait .. => true
  | _ => false

/-- The task is blocked in `pipecommon_write`. -/
def writeBlocked : Pc → Bool
  | .writeWait .. => true
  | _ => false

/-- A signal has interrupted its wait in `pipecommon_write`. -/
def writeAgain : Pc → Bool
  | .writeAgain .. => true
  | _ => false

section Wake

variable {pc : Pc}

theorem rdWaits_wakeReader : rdWaits pc.wakeReader = 0 := by cases pc <;> rfl

theorem wrWaits_wakeReader : wrWaits pc.wakeReader = wrWaits pc := by cases pc <;> rfl

theorem rdWaits_wakeWriter : rdWaits pc.wakeWriter = rdWaits pc := by cases pc <;> rfl

theorem wrWaits_wakeWriter : wrWaits pc.wakeWriter = 0 := by cases pc <;> rfl

theorem wakeReader_eq_self (h : rdWaits pc = 0) : pc.wakeReader = pc := by
  cases pc <;> first | rfl | cases h

theorem wakeWriter_eq_self (h : wrWaits pc = 0) : pc.wakeWriter = pc := by
  cases pc <;> first | rfl | cases h

theorem readBlocked_wakeReader : readBlocked pc.wakeReader = false := by cases pc <;> rfl

theorem readBlocked_wakeWriter : readBlocked pc.wakeWriter = readBlocked pc := by cases pc <;> rfl

theorem writeBlocked_wakeReader : writeBlocked pc.wakeReader = writeBlocked pc := by cases pc <;> rfl

theorem writeBlocked_wakeWriter : writeBlocked pc.wakeWriter = false := by cases pc <;> rfl

theorem writeAgain_wakeReader : writeAgain pc.wakeReader = writeAgain pc := by cases pc <;> rfl

theorem writeAgain_wakeWriter : writeAgain pc.wakeWriter = writeAgain pc := by cases pc <;> rfl

theorem uses_of_blocked (h : readBlocked pc ∨ writeBlocked pc ∨ writeAgain pc) : uses pc ≠ none := by
  cases pc <;> simp_all [readBlocked, writeBlocked, writeAgain, uses]

end Wake

variable {τ : Type} [Fintype τ] {s s' : Dev τ} {t : τ}

/-- The values of the semaphores are the numbers of the tasks that wait for them, below 0. -/
structure Sems (s : Dev τ) : Prop where
  rdsem : s.rdsem + total rdWaits s.pc = 0
  wrsem : s.wrsem + total wrWaits s.pc = 0

namespace Sems

section

variable (h : Sems s)
include h

theorem rdsem_nonpos : ¬0 < s.rdsem := by
  have hrdsem := h.rdsem
  omega

theorem wrsem_nonpos : ¬0 < s.wrsem := by
  have hwrsem := h.wrsem
  omega

theorem wakeReaders_pc (t : τ) : s.wakeReaders.pc t = (s.pc t).wakeReader := by
  have hrdsem := h.rdsem
  simp only [Dev.wakeReaders_pc]
  split_ifs with hneg
  · rfl
  · have hnone : total rdWaits s.pc = 0 := by omega
    exact (wakeReader_eq_self (total_eq_zero.mp hnone t)).symm

theorem wakeWriters_pc (t : τ) : s.wakeWriters.pc t = (s.pc t).wakeWriter := by
  have hwrsem := h.wrsem
  simp only [Dev.wakeWriters_pc]
  split_ifs with hneg
  · rfl
  · have hnone : total wrWaits s.pc = 0 := by omega
    exact (wakeWriter_eq_self (total_eq_zero.mp hnone t)).symm

theorem wakeReaders : Sems s.wakeReaders := by
  have hpc : s.wakeReaders.pc = fun t => (s.pc t).wakeReader := funext h.wakeReaders_pc
  have hrdsem := h.rdsem
  refine ⟨?_, ?_⟩
  · have hnone : total rdWaits s.wakeReaders.pc = 0 := by
      rw [hpc]
      exact total_eq_zero.mpr fun _ => rdWaits_wakeReader
    rw [wakeReaders_rdsem]
    split_ifs <;> omega
  · have hsame : total wrWaits s.wakeReaders.pc = total wrWaits s.pc := by
      simp only [hpc, total, wrWaits_wakeReader]
    rw [hsame]
    exact h.wrsem

theorem wakeWriters : Sems s.wakeWriters := by
  have hpc : s.wakeWriters.pc = fun t => (s.pc t).wakeWriter := funext h.wakeWriters_pc
  have hwrsem := h.wrsem
  refine ⟨?_, ?_⟩
  · have hsame : total rdWaits s.wakeWriters.pc = total rdWaits s.pc := by
      simp only [hpc, total, rdWaits_wakeWriter]
    rw [hsame]
    exact h.rdsem
  · have hnone : total wrWaits s.wakeWriters.pc = 0 := by
      rw [hpc]
      exact total_eq_zero.mpr fun _ => wrWaits_wakeWriter
    rw [wakeWriters_wrsem]
    split_ifs <;> omega

theorem move [DecidableEq τ] {pc : Pc} (hpc : s'.pc = update s.pc t pc)
    (hrdsem : s'.rdsem + rdWaits pc = s.rdsem + rdWaits (s.pc t))
    (hwrsem : s'.wrsem + wrWaits pc = s.wrsem + wrWaits (s.pc t)) : Sems s' := by
  have hrd := total_update rdWaits s.pc t pc
  have hwr := total_update wrWaits s.pc t pc
  have hold := h.rdsem
  have hold' := h.wrsem
  rw [← hpc] at hrd hwr
  exact ⟨by omega, by omega⟩

end

end Sems

/-- A task is blocked in a read only if the pipe is empty and has a writer, and in a write, or in front of
the next wait, only if the pipe is full. -/
structure Asleep (s : Dev τ) : Prop where
  sems : Sems s
  readers : ∀ t, readBlocked (s.pc t) → s.ring.head = s.ring.tail ∧ 0 < s.nwriters
  writers : ∀ t, writeBlocked (s.pc t) ∨ writeAgain (s.pc t) → s.ring.next s.ring.head = s.ring.tail

namespace Asleep

/-- Readers that are woken do not have to be asleep rightly. -/
theorem wakeReaders (hsems : Sems s)
    (hwriters : ∀ t, writeBlocked (s.pc t) ∨ writeAgain (s.pc t) → s.ring.next s.ring.head = s.ring.tail) :
    Asleep s.wakeReaders := by
  refine ⟨hsems.wakeReaders, fun t hblocked => ?_, fun t hblocked => ?_⟩
  · rw [hsems.wakeReaders_pc, readBlocked_wakeReader] at hblocked
    contradiction
  · rw [hsems.wakeReaders_pc, writeBlocked_wakeReader, writeAgain_wakeReader] at hblocked
    exact hwriters t hblocked

theorem wakeWriters (hsems : Sems s)
    (hreaders : ∀ t, readBlocked (s.pc t) → s.ring.head = s.ring.tail ∧ 0 < s.nwriters)
    (hagain : ∀ t, ¬writeAgain (s.pc t)) : Asleep s.wakeWriters := by
  refine ⟨hsems.wakeWriters, fun t hblocked => ?_, fun t hblocked => ?_⟩
  · rw [hsems.wakeWriters_pc, readBlocked_wakeWriter] at hblocked
    exact hreaders t hblocked
  · rw [hsems.wakeWriters_pc, writeBlocked_wakeWriter, writeAgain_wakeWriter] at hblocked
    exact absurd (hblocked.resolve_left Bool.false_ne_true) (hagain t)

theorem of_eq (h : Asleep s) (hpc : s'.pc = s.pc) (hrdsem : s'.rdsem = s.rdsem) (hwrsem : s'.wrsem = s.wrsem)
    (hring : s'.ring = s.ring) (hnwriters : 0 < s.nwriters → 0 < s'.nwriters) : Asleep s' := by
  refine ⟨⟨?_, ?_⟩, ?_, ?_⟩
  · rw [hrdsem, hpc]
    exact h.sems.rdsem
  · rw [hwrsem, hpc]
    exact h.sems.wrsem
  · rw [hpc, hring]
    exact fun t hblocked => ⟨(h.readers t hblocked).1, hnwriters (h.readers t hblocked).2⟩
  · rw [hpc, hring]
    exact h.writers

variable [DecidableEq τ]

theorem move (h : Asleep s) (t : τ) (pc : Pc) (hpc : s'.pc = update s.pc t pc)
    (hrdsem : s'.rdsem + rdWaits pc = s.rdsem + rdWaits (s.pc t))
    (hwrsem : s'.wrsem + wrWaits pc = s.wrsem + wrWaits (s.pc t))
    (hring : s'.ring = s.ring) (hnwriters : s'.nwriters = s.nwriters)
    (hread : readBlocked pc → s.ring.head = s.ring.tail ∧ 0 < s.nwriters)
    (hwrite : writeBlocked pc ∨ writeAgain pc → s.ring.next s.ring.head = s.ring.tail) : Asleep s' := by
  refine ⟨h.sems.move hpc hrdsem hwrsem, fun u hblocked => ?_, fun u hblocked => ?_⟩
  · rw [hpc, update_apply] at hblocked
    rw [hring, hnwriters]
    split_ifs at hblocked
    · exact hread hblocked
    · exact h.readers u hblocked
  · rw [hpc, update_apply] at hblocked
    rw [hring]
    split_ifs at hblocked
    · exact hwrite hblocked
    · exact h.writers u hblocked

end Asleep

namespace Asleep

variable {fd : Nat} {mode : Mode}

section

variable (h : Asleep s)
include h

theorem close (hlast : (s.dropFile fd mode).refs = 0 → ∀ fd, ¬Used s fd) :
    Asleep (s.pipecommonClose fd mode) := by
  simp only [pipecommonClose]
  split_ifs with hothers
  · have hsems : Sems ((s.dropFile fd mode).countClose mode) := ⟨h.sems.rdsem, h.sems.wrsem⟩
    have hwoken : Asleep (if mode.wrok ∧ ((s.dropFile fd mode).countClose mode).nwriters = 0 then
        ((s.dropFile fd mode).countClose mode).wakeReaders.pollnotify ⟨false, false, true, false⟩
        else (s.dropFile fd mode).countClose mode) := by
      split_ifs with hgone
      · exact (wakeReaders hsems h.writers).of_eq rfl rfl rfl rfl id
      · -- another writer is left, or it was none that has gone
        refine h.of_eq rfl rfl rfl rfl fun hpos => ?_
        by_cases hwrok : mode.wrok
        · exact Nat.pos_of_ne_zero fun hzero => hgone ⟨hwrok, hzero⟩
        · simpa [hwrok] using hpos
    simp only [tellOthers]
    generalize (if mode.wrok ∧ ((s.dropFile fd mode).countClose mode).nwriters = 0 then
        ((s.dropFile fd mode).countClose mode).wakeReaders.pollnotify ⟨false, false, true, false⟩
        else (s.dropFile fd mode).countClose mode) = u at hwoken ⊢
    split_ifs
    · exact hwoken.of_eq rfl rfl rfl rfl id
    · exact hwoken
  · have hnone : ∀ t, uses (s.pc t) = none := fun t =>
      Option.eq_none_iff_forall_ne_some.mpr fun fd huses =>
        hlast (Nat.eq_zero_of_not_pos hothers) fd (.inl ⟨t, huses⟩)
    refine ⟨⟨h.sems.rdsem, h.sems.wrsem⟩, fun t hblocked => ?_, fun t hblocked => ?_⟩
    · exact absurd (hnone t) (uses_of_blocked (.inl hblocked))
    · exact absurd (hnone t) (uses_of_blocked (.inr hblocked))
  · exact h.of_eq rfl rfl rfl rfl id

variable [DecidableEq τ]

theorem openFile (hcounts : CountsInv s) (hpc : s.pc t = .idle)
    (hfresh : ∀ file ∈ s.files, file.1 ≠ fd) (hroom : s.files.length < 2 ^ 8 - 1) (mode : Mode)
    (nomem : Bool) : Asleep (s.pipecommonOpen t fd mode nomem) := by
  have hmore : 0 < s.nwriters → 0 < (s.countOpen fd mode).nwriters := by
    rw [(hcounts.countOpen hfresh hroom mode).counts.nwriters, hcounts.counts.nwriters, countOpen_files,
      countP_cons]
    omega
  have hcounted : Asleep (s.countOpen fd mode) := h.of_eq rfl rfl rfl rfl hmore
  obtain heq | ⟨u, hu, hopen⟩ := pipecommonOpen_cases s t fd mode nomem
  · rw [heq]
    exact h
  · have hwoken : Asleep u ∧ u.pc t = .idle := by
      obtain rfl | rfl := hu
      · exact ⟨hcounted, hpc⟩
      · refine ⟨wakeReaders hcounted.sems hcounted.writers, ?_⟩
        rw [hcounted.sems.wakeReaders_pc, countOpen_pc, hpc]
        rfl
    obtain heq | heq := hopen
    · rw [heq]
      exact hwoken.1
    · rw [heq]
      refine hwoken.1.move t (.openWait fd mode) ?_ ?_ ?_ rfl rfl nofun nofun
      · rw [waitRdsem_pc, if_neg hwoken.1.sems.rdsem_nonpos]
      · simp [hwoken.2, rdWaits]
      · rw [hwoken.2]
        rfl

theorem idle (hrd : rdWaits (s.pc t) = 0) (hwr : wrWaits (s.pc t) = 0)
    (hpc : s'.pc = update s.pc t .idle) (hrdsem : s'.rdsem = s.rdsem)
    (hwrsem : s'.wrsem = s.wrsem) (hring : s'.ring = s.ring)
    (hnwriters : s'.nwriters = s.nwriters) : Asleep s' := by
  refine h.move t .idle hpc ?_ ?_ hring hnwriters nofun nofun
  · rw [hrdsem, hrd]
    rfl
  · rw [hwrsem, hwr]
    rfl

/-- The reader has made room; it wakes the writers, but not those that are in front of their next wait. -/
theorem read {len : Nat} (hpc : s.pc t = .reading fd mode len)
    (hagain : s.ring.head ≠ s.ring.tail → ∀ u, ¬writeAgain (s.pc u)) :
    Asleep (s.pipecommonRead t fd mode len) := by
  obtain ⟨hempty, ⟨_, -, heq⟩ | ⟨hnwriters, heq⟩⟩ | ⟨hsome, heq⟩ := pipecommonRead_cases s t fd mode len
  · rw [heq]
    exact h.idle (congrArg rdWaits hpc) (congrArg wrWaits hpc) rfl rfl rfl rfl rfl
  · rw [heq]
    refine h.move t (.readWait fd mode len) ?_ ?_ ?_ rfl rfl (fun _ => ⟨hempty, hnwriters⟩) nofun
    · rw [waitRdsem_pc, if_neg h.sems.rdsem_nonpos]
    · simp [hpc, rdWaits]
    · rw [hpc]
      rfl
  · rw [heq]
    have hsems : Sems (s.take (readLoop len s.ring).1 (readLoop len s.ring).2) := ⟨h.sems.rdsem, h.sems.wrsem⟩
    have hwoken := wakeWriters hsems (fun u hblocked => absurd (h.readers u hblocked).1 hsome) (hagain hsome)
    have htold : Asleep ((s.take (readLoop len s.ring).1 (readLoop len s.ring).2).wakeWriters.pollnotify
      ⟨false, true, false, false⟩) := hwoken.of_eq rfl rfl rfl rfl id
    refine htold.idle ?_ ?_ rfl rfl rfl rfl rfl
    · rw [pollnotify_pc, hsems.wakeWriters_pc, take_pc, hpc]
      rfl
    · rw [pollnotify_pc, hsems.wakeWriters_pc, wrWaits_wakeWriter]

/-- The writer has placed bytes; it wakes the readers, and waits only if the pipe is full. -/
theorem write (hvalid : s.ring.Valid) (hrd : rdWaits (s.pc t) = 0) (hwr : wrWaits (s.pc t) = 0)
    (fd : Nat) (mode : Mode) (call : WriteCall) : Asleep (s.pipecommonWrite t fd mode call) := by
  obtain ⟨-, -, -, hfull⟩ := writeLoop_spec (call.buffer.drop call.nwritten) hvalid
  have hroom := writeLoop_full (call.buffer.drop call.nwritten) s.ring
  have hnone := writeLoop_none (call.buffer.drop call.nwritten) s.ring
  generalize hloop : writeLoop (call.buffer.drop call.nwritten) s.ring = result at hfull hroom hnone
  obtain ⟨n, ring⟩ := result
  have hcases := pipecommonWrite_cases s t fd mode call hloop
  generalize hplaced : s.place t ((call.buffer.drop call.nwritten).take n) ring = placed at hcases
  have hpc : placed.pc = s.pc := by rw [← hplaced, place_pc]
  have hring : placed.ring = ring := by rw [← hplaced, place_ring]
  have hsems : Sems placed := by
    rw [← hplaced]
    exact ⟨h.sems.rdsem, h.sems.wrsem⟩
  -- while a writer waits the buffer is full, and nothing was placed in it
  have hwriters : ∀ u, writeBlocked (placed.pc u) ∨ writeAgain (placed.pc u) →
      placed.ring.next placed.ring.head = placed.ring.tail := by
    intro u hblocked
    rw [hpc] at hblocked
    obtain ⟨-, rfl⟩ := Prod.mk.inj (hroom (h.writers u hblocked))
    rw [hring]
    exact h.writers u hblocked
  have hwoken := wakeReaders hsems hwriters
  have hrdWoken : rdWaits (placed.wakeReaders.pc t) = 0 := by
    rw [hsems.wakeReaders_pc, rdWaits_wakeReader]
  have hwrWoken : wrWaits (placed.wakeReaders.pc t) = 0 := by
    rw [hsems.wakeReaders_pc, wrWaits_wakeReader, hpc, hwr]
  obtain ⟨-, heq⟩ | ⟨hstall, u, hu, hwrite⟩ := hcases
  · rw [heq]
    have htold : Asleep (placed.wakeReaders.pollnotify ⟨true, false, false, false⟩) :=
      hwoken.of_eq rfl rfl rfl rfl id
    exact htold.idle hrdWoken hwrWoken rfl rfl rfl rfl rfl
  · have hasleep : Asleep u ∧ rdWaits (u.pc t) = 0 ∧ wrWaits (u.pc t) = 0 ∧ u.ring = ring := by
      obtain ⟨-, rfl⟩ | ⟨hzero, rfl⟩ := hu
      · exact ⟨hwoken, hrdWoken, hwrWoken, hring⟩
      · refine ⟨?_, ?_, ?_, hring⟩
        · have hsame : ring = s.ring := hnone hzero
          rw [← hplaced, hsame]
          exact h.of_eq rfl rfl rfl rfl id
        · rw [hpc, hrd]
        · rw [hpc, hwr]
    obtain ⟨hasleep, hrd, hwr, hring⟩ := hasleep
    obtain heq | heq := hwrite
    · rw [heq]
      exact hasleep.idle hrd hwr rfl rfl rfl rfl rfl
    · rw [heq]
      refine hasleep.move t (.writeWait fd mode ⟨call.buffer, call.nwritten + n⟩) ?_ ?_ ?_ rfl rfl nofun
        fun _ => ?_
      · rw [waitWrsem_pc, if_neg hasleep.sems.wrsem_nonpos]
      · rw [hrd]
        rfl
      · rw [hwr]
        simp [wrWaits]
      · rw [hring]
        exact hfull hstall

end

end Asleep

/-- A write of the bytes that stalls in an empty pipe finds no poller that waits for bytes. -/
def Unpolled (s : Dev τ) (bytes : List UInt8) : Prop :=
  s.ring.head = s.ring.tail → (writeLoop bytes s.ring).1 ≠ bytes.length →
    ∀ fds ∈ s.fds, fds.events.pollin → fds.revents.any

/-- Besides what the counts need: no descriptor is closed while it is in use, no read makes room while a
signal has taken a writer out of its wait, and no write stalls unnoticed. -/
def Kept (s : Dev τ) (a : Act τ) : Prop :=
  Fits s a ∧
  match a with
  | .close _ fd => ¬Used s fd
  | .bfsem t =>
    match s.pc t with
    | .reading .. => s.ring.head ≠ s.ring.tail → ∀ u, ¬writeAgain (s.pc u)
    | .writing _ _ buffer => Unpolled s buffer
    | .writeAwake _ _ call => Unpolled s (call.buffer.drop call.nwritten)
    | _ => True
  | _ => True

instance (s : Dev τ) (bytes : List UInt8) : Decidable (Unpolled s bytes) := by
  unfold Unpolled
  infer_instance

instance (s : Dev τ) (fd : Nat) : Decidable (Used s fd) := by
  unfold Used
  infer_instance

instance (s : Dev τ) (a : Act τ) : Decidable (Kept s a) := by
  unfold Kept
  split
  · infer_instance
  · refine @instDecidableAnd _ _ _ ?_
    split <;> infer_instance
  · infer_instance

/-- What holds in every state. -/
structure Inv [DecidableEq τ] (size : Nat) (s : Dev τ) : Prop where
  stream : Stream size (fun _ => []) s
  counts : CountsInv s
  users : Users s
  asleep : Asleep s
  told : Told s

variable [DecidableEq τ] {npollwaiters size : Nat} {a : Act τ}

theorem Asleep.effect (h : Inv size s) (hkept : Kept s a) (heffect : Effect npollwaiters s a s') :
    Asleep s' := by
  have hasleep := h.asleep
  cases heffect with
  | opened hpc hfresh => exact hasleep.openFile h.counts hpc hfresh hkept.1 _ _
  | @closed _ fd mode _ hmode =>
    obtain ⟨hmem, -⟩ := mem_files_of_mode hmode
    exact hasleep.close (h.users.not_used_of_last h.counts hmem hkept.2)
  | openUndone hpc =>
    have hidle : Asleep (s.setPc _ .idle) :=
      hasleep.idle (congrArg rdWaits hpc) (congrArg wrWaits hpc) rfl rfl rfl rfl rfl
    exact hidle.close (h.users.not_used_of_last_undone h.counts hpc)
  | reads hpc =>
    have hagain := hkept.2
    simp only [hpc] at hagain
    exact hasleep.read hpc hagain
  | writes hpc => exact hasleep.write h.stream.valid (congrArg rdWaits hpc) (congrArg wrWaits hpc) _ _ _
  | writesOn hpc => exact hasleep.write h.stream.valid (congrArg rdWaits hpc) (congrArg wrWaits hpc) _ _ _
  | @openInterrupted t fd mode hpc =>
    refine hasleep.move t (.openFailed fd mode) rfl ?_ ?_ rfl rfl nofun nofun
    · simp [hpc, rdWaits]
    · simp [hpc, wrWaits]
  | @readInterrupted t fd mode len hpc =>
    refine hasleep.move t .idle rfl ?_ ?_ rfl rfl nofun nofun
    · simp [hpc, rdWaits]
    · simp [hpc, wrWaits]
  | @writeInterrupted t fd mode call hpc =>
    refine hasleep.move t (.writeAgain fd mode call) rfl ?_ ?_ rfl rfl nofun fun _ => ?_
    · simp [hpc, rdWaits]
    · simp [hpc, wrWaits]
    · exact hasleep.writers t (.inl (congrArg writeBlocked hpc))
  | @waitsAgain t fd mode call hpc =>
    refine hasleep.move t (.writeWait fd mode call) ?_ ?_ ?_ rfl rfl nofun fun _ => ?_
    · rw [waitWrsem_pc, if_neg hasleep.sems.wrsem_nonpos]
    · simp [hpc, rdWaits]
    · simp [hpc, wrWaits]
    · exact hasleep.writers t (.inr (congrArg writeAgain hpc))
  | @readEntered t fd mode len hpc =>
    refine hasleep.move t (.reading fd mode len) rfl ?_ ?_ rfl rfl nofun nofun
    · simp [hpc, rdWaits]
    · simp [hpc, wrWaits]
  | @writeEntered t fd mode buffer hpc =>
    refine hasleep.move t (.writing fd mode buffer) rfl ?_ ?_ rfl rfl nofun nofun
    · simp [hpc, rdWaits]
    · simp [hpc, wrWaits]
  | pollSetup =>
    simp only [Dev.pollSetup]
    split_ifs
    · exact hasleep.of_eq rfl rfl rfl rfl id
    · exact hasleep.of_eq rfl rfl rfl rfl id
    · exact hasleep
  | pollTeardown | policy => exact hasleep.of_eq rfl rfl rfl rfl id
  | readNone hpc | writeNone hpc | readUnentered hpc | writeUnentered hpc =>
    exact hasleep.idle (congrArg rdWaits hpc) (congrArg wrWaits hpc) rfl rfl rfl rfl rfl

theorem Informed.effect (h : Inv size s) (hkept : Kept s a) (heffect : Effect npollwaiters s a s') :
    Informed s.ring s' := by
  have htold := h.told
  cases heffect with
  | opened => exact .openFile htold _ _ _ _
  | closed _ hmode =>
    obtain ⟨hmem, -⟩ := mem_files_of_mode hmode
    refine .close htold fun hlast => ?_
    have hnone := h.users.not_used_of_last h.counts hmem hkept.2 hlast
    exact eq_nil_iff_forall_not_mem.mpr fun fds hfds => hnone _ (.inr ⟨fds, hfds, rfl⟩)
  | @openUndone t _ _ hpc =>
    have hidle : Told (s.setPc t .idle) := htold.of_fds rfl
    refine .close hidle fun hlast => ?_
    have hnone := h.users.not_used_of_last_undone h.counts hpc hlast
    exact eq_nil_iff_forall_not_mem.mpr fun fds hfds => hnone _ (.inr ⟨fds, hfds, rfl⟩)
  | reads => exact .read htold _ _ _ _
  | writes hpc =>
    have hunpolled := hkept.2
    simp only [hpc] at hunpolled
    exact .write htold h.stream.valid _ _ _ _ hunpolled
  | writesOn hpc =>
    have hunpolled := hkept.2
    simp only [hpc] at hunpolled
    exact .write htold h.stream.valid _ _ _ _ hunpolled
  | pollSetup => exact .pollSetup htold _ _ _ _
  | pollTeardown => exact .of_told (fun fds hfds => htold fds (mem_of_mem_filter hfds)) rfl
  | readNone | readEntered | writeNone | writeEntered | openInterrupted | readUnentered | readInterrupted
  | writeUnentered | writeInterrupted | waitsAgain | policy => exact .of_told (htold.of_fds rfl) rfl

namespace Inv

theorem init (hsize : 0 < size) : Inv size (init τ size) where
  stream := PipeStream.stream_init hsize
  counts := CountsInv.init size
  users := by
    rintro fd (⟨t, huses⟩ | ⟨fds, hfds, -⟩)
    · contradiction
    · contradiction
  asleep := ⟨⟨by simp [Dev.init, total, rdWaits], by simp [Dev.init, total, wrWaits]⟩, nofun, nofun⟩
  told := nofun

theorem step (h : Inv size s) (hkept : Kept s a) (hstep : s.step npollwaiters a = some s') :
    Inv size s' := by
  have hstream := h.stream.step hstep
  have hcounts := h.counts.step hkept.1 hstep
  obtain ⟨u, hact, rfl⟩ := Option.map_eq_some_iff.mp hstep
  have heffect := act_effect hact
  have hclose : ∀ t fd, a = .close t fd → ¬Used s fd := by
    rintro t fd rfl
    exact hkept.2
  exact ⟨hstream, hcounts, (h.users.effect hclose heffect).observe s.ring,
    (Asleep.effect h hkept heffect).of_eq rfl rfl rfl rfl id, (Informed.effect h hkept heffect).observe⟩

end Inv

/-- In every run in which the counts are right, no descriptor is closed while it is in use, no read makes
room while a signal has taken a writer out of its wait, and no write stalls in an empty pipe with a poller
that waits for bytes: a reader is blocked only while the pipe is empty and open for writing, a writer only
while it is full, and the pollers that asked for bytes or room have been notified. -/
theorem pipe_no_lost_wakeup {size : Nat} (hsize : 2 ≤ size) (npollwaiters : Nat) (acts : List (Act τ)) (s : Dev τ)
    (hkept : StepsMeet (step npollwaiters) Kept (init τ size) acts)
    (hrun : run (step npollwaiters) (init τ size) acts = some s) :
    (∀ t, readBlocked (s.pc t) → s.ring.contents = [] ∧ ∃ file ∈ s.files, file.2.wrok) ∧
      (∀ t, writeBlocked (s.pc t) → s.ring.contents.length = size - 1) ∧ Told s := by
  have hinv : Inv size s :=
    invariant_run (fun _ _ _ h hok hstep => h.step hok hstep) (Inv.init (by omega)) hkept hrun
  refine ⟨fun t hblocked => ?_, fun t hblocked => ?_, hinv.told⟩
  · obtain ⟨hempty, hnwriters⟩ := hinv.asleep.readers t hblocked
    rw [hinv.counts.counts.nwriters] at hnwriters
    exact ⟨(RingBuffer.contents_eq_nil hinv.stream.valid).mpr hempty, countP_pos_iff.mp hnwriters⟩
  · have hfull := (RingBuffer.next_head_eq_tail hinv.stream.valid).mp (hinv.asleep.writers t (.inl hblocked))
    have hsize := hinv.stream.size
    rw [RingBuffer.length_contents]
    omega

/-- A reader blocks and is woken by a byte of which a poller is notified; then a write of two bytes stalls
and its writer is blocked. -/
theorem pipe_no_lost_wakeup_blocked :
    ∃ s, run (step 1) (init Bool 3) [.openFile false 0 ⟨true, true, false⟩ false,
        .pollSetup 0 0 ⟨true, false, false, false⟩, .read true 0 1, .bfsem true, .write false 0 [7],
        .bfsem false, .write false 0 [8, 9], .bfsem false] = some s ∧
      writeBlocked (s.pc false) ∧ s.ring.contents.length = 2 ∧ Told s ∧
      s.fds.map (fun fds => (fds.rose, fds.revents.any)) = [(true, true)] := by
  refine exists_of_run rfl fun s hrun => ?_
  have hwoken := pipe_no_lost_wakeup (show 2 ≤ 3 by decide) 1 _ s (by decide) hrun
  cases hrun
  exact ⟨rfl, hwoken.2.1 false rfl, hwoken.2.2, rfl⟩

/-- A write of two bytes in a pipe for one: the poller that asked for bytes is not notified of the first.
A writer whose wait a signal has interrupted waits again in an empty pipe. A reader is blocked in a pipe
that was closed meanwhile. -/
theorem pipe_wakeup_lost :
    (∃ s, run (step 1) (init Unit 2) [.openFile () 0 ⟨true, true, false⟩ false,
        .pollSetup 0 0 ⟨true, false, false, false⟩, .write () 0 [1, 2], .bfsem ()] = some s ∧
      s.ring.contents = [1] ∧
      s.fds.map (fun fds => (fds.events.pollin, fds.rose, fds.revents.any)) = [(true, true, false)]) ∧
    (∃ s, run (step 1) (init Bool 2) [.openFile false 0 ⟨true, true, false⟩ false, .write false 0 [1, 2],
        .bfsem false, .signal false, .read true 0 1, .bfsem true, .waitAgain false] = some s ∧
      writeBlocked (s.pc false) ∧ s.ring.contents = []) ∧
    ∃ s, run (step 1) (init Bool 2) [.openFile false 0 ⟨true, true, false⟩ false, .read true 0 1, .bfsem true,
        .close false 0] = some s ∧ readBlocked (s.pc true) ∧ s.files = [] :=
  ⟨⟨_, rfl, rfl, rfl⟩, ⟨_, rfl, rfl, rfl⟩, _, rfl, rfl, rfl⟩

end NbLot.Guarantees.PipeWakeup
