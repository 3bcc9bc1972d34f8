import NbLot.Source.Pipe.Model

/-!
# The bytes that go through a pipe

Writers release the buffer in the middle of a write when it is full, so that their bytes interleave.
For every interleaving of reads, writes, opens and closes, with waits interrupted by signals: the bytes
read and those in the buffer are the bytes placed, in order, unless the last close has emptied the
buffer; and the bytes that a writer has placed are, call by call, as many of its first bytes as the call
returned.
-/
namespace NbLot.Guarantees.PipeStream
open List Function

open Lib (RingBuffer)
open Lib.Fifo (Event puts takes)
open Lib.Transition Source.Pipe Source.Pipe.Dev

variable {τ : Type}

/-- The bytes that the call under way has placed. -/
def Pc.placed : Pc → List UInt8
  | .writeWait _ _ call | .writeAgain _ _ call | .writeAwake _ _ call => call.buffer.take call.nwritten
  | _ => []

/-- The bytes that the calls of `pipecommon_read` returned. -/
def returned (s : Dev τ) : List UInt8 :=
  s.results.flatMap fun
    | .ok bytes => bytes
    | .error _ => []

variable {s s' : Dev τ}

theorem placed_wakeReader (pc : Pc) : Pc.placed pc.wakeReader = Pc.placed pc := by
  cases pc <;> rfl

theorem placed_wakeWriter (pc : Pc) : Pc.placed pc.wakeWriter = Pc.placed pc := by
  cases pc <;> rfl

/-- The buffer and the history are the same, and so is what the calls under way have placed. -/
structure Same (s s' : Dev τ) : Prop where
  ring : s'.ring = s.ring
  events : s'.events = s.events
  placed : s'.placed = s.placed
  results : s'.results = s.results
  writes : s'.writes = s.writes
  pc : ∀ t, Pc.placed (s'.pc t) = Pc.placed (s.pc t)

namespace Same

theorem trans {s₁ s₂ s₃ : Dev τ} (h : Same s₁ s₂) (h' : Same s₂ s₃) : Same s₁ s₃ :=
  ⟨h'.ring.trans h.ring, h'.events.trans h.events, h'.placed.trans h.placed, h'.results.trans h.results,
    h'.writes.trans h.writes, fun t => (h'.pc t).trans (h.pc t)⟩

theorem refl (s : Dev τ) : Same s s := ⟨rfl, rfl, rfl, rfl, rfl, fun _ => rfl⟩

theorem wakeReaders (s : Dev τ) : Same s s.wakeReaders := by
  refine ⟨rfl, rfl, rfl, rfl, rfl, fun t => ?_⟩
  simp only [Dev.wakeReaders]
  split_ifs
  · exact placed_wakeReader _
  · rfl

theorem wakeWriters (s : Dev τ) : Same s s.wakeWriters := by
  refine ⟨rfl, rfl, rfl, rfl, rfl, fun t => ?_⟩
  simp only [Dev.wakeWriters]
  split_ifs
  · exact placed_wakeWriter _
  · rfl

theorem observe (before : RingBuffer UInt8) (s : Dev τ) : Same s (observe before s) :=
  ⟨rfl, rfl, rfl, rfl, rfl, fun _ => rfl⟩

theorem pollSetup (npollwaiters : Nat) (s : Dev τ) (key fd : Nat) (asked : Events) :
    Same s (s.pollSetup npollwaiters key fd asked) := by
  simp only [Dev.pollSetup]
  split_ifs
  · exact ⟨rfl, rfl, rfl, rfl, rfl, fun _ => rfl⟩
  · exact ⟨rfl, rfl, rfl, rfl, rfl, fun _ => rfl⟩
  · exact refl s

theorem of_nudged (h : Nudged s s') : Same s s' := by
  induction h with
  | refl => exact refl s
  | wakeReaders _ ih => exact ih.trans (wakeReaders _)
  | wakeWriters _ ih => exact ih.trans (wakeWriters _)
  | pollnotify _ eventset ih => exact ih.trans ⟨rfl, rfl, rfl, rfl, rfl, fun _ => rfl⟩

end Same

theorem close_same_or_reset (s : Dev τ) (fd : Nat) (mode : Mode) :
    ∃ u, Same s u ∧ (s.pipecommonClose fd mode = u ∨ s.pipecommonClose fd mode = u.reset) := by
  have hdrop : Same s (s.dropFile fd mode) := ⟨rfl, rfl, rfl, rfl, rfl, fun _ => rfl⟩
  have hcount : Same s ((s.dropFile fd mode).countClose mode) := ⟨rfl, rfl, rfl, rfl, rfl, fun _ => rfl⟩
  simp only [pipecommonClose]
  split_ifs
  · exact ⟨_, hcount.trans (.of_nudged (tellOthers_nudged _ mode)), .inl rfl⟩
  · exact ⟨_, hdrop, .inr rfl⟩
  · exact ⟨_, hdrop, .inl rfl⟩

variable [DecidableEq τ]

/-- The first bytes of the calls of a writer that have returned, as many as each returned. -/
def finished (s : Dev τ) (t : τ) : List UInt8 :=
  (s.writes.filter fun write => write.1 = t).flatMap fun write =>
    match write.2.2 with
    | .ok n => write.2.1.take n
    | .error _ => []

/-- The bytes that a writer has placed in the buffer. -/
def placedBy (s : Dev τ) (t : τ) : List UInt8 := (s.placed.filter fun byte => byte.1 = t).map Prod.snd

/-- The events are possible for a queue, which the buffer holds; the bytes taken are those returned;
and a writer has placed what its calls have, and `due` that is not yet counted. -/
structure Stream (size : Nat) (due : τ → List UInt8) (s : Dev τ) : Prop where
  valid : s.ring.Valid
  size : s.ring.size = size
  queue : run Lib.Fifo.step [] s.events = some s.ring.contents
  placed : puts s.events = s.placed.map Prod.snd
  taken : takes s.events = returned s
  writers : ∀ t, placedBy s t = finished s t ++ Pc.placed (s.pc t) ++ due t

variable {size : Nat} {due : τ → List UInt8} {t : τ} {pc : Pc}

theorem stream_init (hsize : 0 < size) : Stream size (fun _ => []) (init τ size) where
  valid := ⟨hsize, hsize⟩
  size := rfl
  queue := rfl
  placed := rfl
  taken := rfl
  writers := fun _ => rfl

namespace Same

/-- A task goes to a place with the same bytes placed. -/
theorem update (s : Dev τ) (hpc : Pc.placed pc = Pc.placed (s.pc t)) (u : τ) :
    Pc.placed (update s.pc t pc u) = Pc.placed (s.pc u) := by
  rw [update_apply]
  split_ifs with htu
  · rw [hpc, htu]
  · rfl

theorem pipecommonOpen (s : Dev τ) (hpc : s.pc t = .idle) (fd : Nat) (mode : Mode) (nomem : Bool) :
    Same s (s.pipecommonOpen t fd mode nomem) := by
  have hcount : Same s (s.countOpen fd mode) := ⟨rfl, rfl, rfl, rfl, rfl, fun _ => rfl⟩
  obtain heq | ⟨u, hu, hopen⟩ := pipecommonOpen_cases s t fd mode nomem
  · rw [heq]
    exact refl s
  · have hwoken : Same s u := by
      obtain rfl | rfl := hu
      · exact hcount
      · exact hcount.trans (wakeReaders _)
    obtain heq | heq := hopen
    · rw [heq]
      exact hwoken
    · rw [heq]
      refine hwoken.trans ⟨rfl, rfl, rfl, rfl, rfl, update u ?_⟩
      rw [hwoken.pc t, hpc]
      split_ifs <;> rfl

end Same

namespace Stream

variable {bytes buffer : List UInt8} {result : Except Errno (List UInt8)} {ring : RingBuffer UInt8}

section

variable (h : Stream size due s)
include h

theorem of_same (hsame : Same s s') : Stream size due s' := by
  refine ⟨?_, ?_, ?_, ?_, ?_, fun t => ?_⟩
  · rw [hsame.ring]
    exact h.valid
  · rw [hsame.ring]
    exact h.size
  · rw [hsame.ring, hsame.events]
    exact h.queue
  · rw [hsame.events, hsame.placed]
    exact h.placed
  · rw [hsame.events, returned, hsame.results]
    exact h.taken
  · rw [placedBy, finished, hsame.placed, hsame.writes, hsame.pc]
    exact h.writers t

theorem reset : Stream size due s.reset where
  valid := ⟨Nat.zero_lt_of_lt h.valid.head, Nat.zero_lt_of_lt h.valid.head⟩
  size := h.size
  queue := Lib.Fifo.run_flush h.queue
  placed := by
    have hputs : puts s.reset.events = puts s.events := by simp [puts]
    rw [hputs]
    exact h.placed
  taken := by
    have htakes : takes s.reset.events = takes s.events := by simp [takes]
    rw [htakes]
    exact h.taken
  writers := h.writers

theorem close (fd : Nat) (mode : Mode) : Stream size due (s.pipecommonClose fd mode) := by
  obtain ⟨u, hsame, heq | heq⟩ := close_same_or_reset s fd mode
  · rw [heq]
    exact h.of_same hsame
  · rw [heq]
    exact (h.of_same hsame).reset

theorem readReturn (hpc : Pc.placed (s.pc t) = [])
    (hbytes : (match result with | .ok bytes => bytes | .error _ => []) = bytes)
    (hvalid : ring.Valid) (hsize : ring.size = s.ring.size)
    (hcontents : s.ring.contents = bytes ++ ring.contents) :
    Stream size due ((s.take bytes ring).readReturn t result) := by
  refine ⟨hvalid, hsize.trans h.size, ?_, ?_, ?_, fun u => ?_⟩
  · have hqueue := h.queue
    rw [hcontents] at hqueue
    exact Lib.Fifo.run_takes hqueue
  · have hputs : puts (s.events ++ bytes.map Event.take) = puts s.events := by simp [puts]
    exact hputs.trans h.placed
  · have htakes : takes (s.events ++ bytes.map Event.take) = takes s.events ++ bytes := by
      simp [takes]
    show takes (s.events ++ bytes.map Event.take) = _
    rw [htakes, h.taken, ← hbytes]
    simp [returned]
  · refine (h.writers u).trans (congrArg (finished s u ++ · ++ due u) ?_)
    have hidle : Pc.placed .idle = Pc.placed (s.pc t) := hpc.symm
    exact (Same.update s hidle u).symm

end

theorem place (h : Stream size (fun _ => []) s) (t : τ) (bytes : List UInt8) (hvalid : ring.Valid)
    (hsize : ring.size = s.ring.size) (hcontents : ring.contents = s.ring.contents ++ bytes) :
    Stream size (update (fun _ => []) t bytes) (s.place t bytes ring) := by
  refine ⟨hvalid, hsize.trans h.size, ?_, ?_, ?_, fun u => ?_⟩
  · show run Lib.Fifo.step [] (s.events ++ bytes.map Event.put) = some ring.contents
    rw [hcontents]
    exact Lib.Fifo.run_puts h.queue bytes
  · have hputs : puts (s.events ++ bytes.map Event.put) = puts s.events ++ bytes := by simp [puts]
    show puts (s.events ++ bytes.map Event.put) = _
    rw [hputs, h.placed]
    simp
  · have htakes : takes (s.events ++ bytes.map Event.put) = takes s.events := by simp [takes]
    exact htakes.trans h.taken
  · have hold := h.writers u
    rw [append_nil] at hold
    have hnew : placedBy (s.place t bytes ring) u = placedBy s u ++ if t = u then bytes else [] := by
      by_cases htu : t = u <;> simp [placedBy, htu, filter_map]
    refine hnew.trans ?_
    rw [hold, update_apply]
    by_cases htu : u = t
    · rw [if_pos htu, if_pos htu.symm]
      rfl
    · rw [if_neg htu, if_neg (Ne.symm htu)]
      rfl

section

variable (h : Stream size (update (fun _ => []) t bytes) s)
include h

/-- The bytes that were due are counted to the call, which waits or returns. -/
theorem settle {wrsem : Int} (writes : List (τ × List UInt8 × Except Errno Nat))
    (hself : finished { s with writes := writes } t ++ Pc.placed pc = finished s t ++ Pc.placed (s.pc t) ++ bytes)
    (hothers : ∀ u ≠ t, finished { s with writes := writes } u = finished s u) :
    Stream size (fun _ => []) { s with wrsem := wrsem, pc := update s.pc t pc, writes := writes } := by
  refine ⟨h.valid, h.size, h.queue, h.placed, h.taken, fun u => ?_⟩
  have hold := h.writers u
  rw [append_nil]
  refine hold.trans ?_
  show _ = finished { s with writes := writes } u ++ Pc.placed (update s.pc t pc u)
  by_cases htu : u = t
  · subst htu
    rw [update_self, update_self, hself]
  · rw [update_of_ne htu, update_of_ne htu, hothers u htu, append_nil]

theorem writeReturn {result : Except Errno Nat}
    (hresult : (match result with | .ok n => buffer.take n | .error _ => []) = Pc.placed (s.pc t) ++ bytes) :
    Stream size (fun _ => []) (s.writeReturn t buffer result) := by
  refine h.settle (s.writes ++ [(t, buffer, result)]) ?_ fun u hu => ?_
  · rw [append_assoc, ← hresult]
    simp [finished, Pc.placed]
  · simp [finished, hu.symm]

end

theorem readNone (h : Stream size due s) (hpc : Pc.placed (s.pc t) = [])
    (hresult : (match result with | .ok bytes => bytes | .error _ => []) = []) :
    Stream size due (s.readReturn t result) := by
  have hnone : s.take [] s.ring = s := by simp [Dev.take]
  have hstream := h.readReturn hpc hresult h.valid rfl rfl
  rw [hnone] at hstream
  exact hstream

theorem read (h : Stream size due s) (hpc : Pc.placed (s.pc t) = []) (fd : Nat) (mode : Mode)
    (len : Nat) : Stream size due (s.pipecommonRead t fd mode len) := by
  simp only [pipecommonRead]
  split_ifs with hempty hnonblock hwriters
  · exact h.readNone hpc rfl
  · exact h.readNone hpc rfl
  · refine h.of_same ⟨rfl, rfl, rfl, rfl, rfl, Same.update s ?_⟩
    rw [hpc]
    split_ifs <;> rfl
  · obtain ⟨hvalid, hsize, hcontents⟩ := readLoop_spec len h.valid
    have hsame := Same.of_nudged (.pollnotify (.wakeWriters (.refl : Nudged s s)) ⟨false, true, false, false⟩)
    have hwoken := h.of_same hsame
    refine hwoken.readReturn ?_ rfl hvalid hsize hcontents
    rw [hsame.pc, hpc]

/-- The writer goes on from `call`: it places bytes, and returns or waits. -/
theorem write (h : Stream size (fun _ => []) s) {call : WriteCall}
    (hpc : Pc.placed (s.pc t) = call.buffer.take call.nwritten) (fd : Nat) (mode : Mode) :
    Stream size (fun _ => []) (s.pipecommonWrite t fd mode call) := by
  obtain ⟨hvalid, hsize, hcontents, -⟩ := writeLoop_spec (call.buffer.drop call.nwritten) h.valid
  have hplaced := h.place t _ hvalid hsize hcontents
  generalize hloop : writeLoop (call.buffer.drop call.nwritten) s.ring = result at hplaced
  obtain ⟨n, ring⟩ := result
  have hcases := pipecommonWrite_cases s t fd mode call hloop
  -- the bytes of the earlier passes and of this one
  have hsum : call.buffer.take (call.nwritten + n) =
      Pc.placed (s.pc t) ++ (call.buffer.drop call.nwritten).take n := by
    rw [hpc, take_add]
  have hupc : (s.place t ((call.buffer.drop call.nwritten).take n) ring).pc = s.pc := rfl
  rw [← hupc] at hsum
  generalize s.place t ((call.buffer.drop call.nwritten).take n) ring = placed at hplaced hcases hsum
  obtain ⟨-, heq⟩ | ⟨-, u, hu, hwrite⟩ := hcases
  · rw [heq]
    have hsame := Same.of_nudged
      (.pollnotify (.wakeReaders (.refl : Nudged placed placed)) ⟨true, false, false, false⟩)
    refine (hplaced.of_same hsame).writeReturn ?_
    rw [hsame.pc]
    exact hsum
  · have hsame : Same placed u := by
      obtain ⟨-, rfl⟩ | ⟨-, rfl⟩ := hu
      · exact .wakeReaders placed
      · exact .refl u
    have hwoken := hplaced.of_same hsame
    rw [← hsame.pc] at hsum
    obtain heq | heq := hwrite
    · rw [heq]
      refine hwoken.writeReturn ?_
      rw [← hsum]
      split_ifs with hzero
      · rw [hzero, take_zero]
      · rfl
    · rw [heq]
      refine hwoken.settle _ ?_ fun _ _ => rfl
      rw [append_assoc, ← hsum]
      split_ifs <;> rfl

theorem writeNone (h : Stream size (fun _ => []) s) (hpc : Pc.placed (s.pc t) = [])
    {result : Except Errno Nat}
    (hresult : (match result with | .ok n => buffer.take n | .error _ => []) = []) :
    Stream size (fun _ => []) (s.writeReturn t buffer result) := by
  have hnone : update (fun _ => []) t [] = (fun _ : τ => ([] : List UInt8)) := update_eq_self t _
  have hstream := h
  rw [← hnone] at hstream
  refine hstream.writeReturn ?_
  rw [hresult, hpc, append_nil]

theorem setPc (h : Stream size due s) (hpc : Pc.placed pc = Pc.placed (s.pc t)) :
    Stream size due (s.setPc t pc) :=
  h.of_same ⟨rfl, rfl, rfl, rfl, rfl, Same.update s hpc⟩

variable [Fintype τ] {npollwaiters : Nat} {a : Act τ}

theorem effect (h : Stream size (fun _ => []) s) (heffect : Effect npollwaiters s a s') :
    Stream size (fun _ => []) s' := by
  have hrdsem : ∀ rdsem, Stream size (fun _ => []) { s with rdsem := rdsem } := fun _ =>
    h.of_same ⟨rfl, rfl, rfl, rfl, rfl, fun _ => rfl⟩
  have hwrsem : ∀ wrsem, Stream size (fun _ => []) { s with wrsem := wrsem } := fun _ =>
    h.of_same ⟨rfl, rfl, rfl, rfl, rfl, fun _ => rfl⟩
  cases heffect with
  | opened hpc => exact h.of_same (.pipecommonOpen s hpc _ _ _)
  | closed => exact h.close _ _
  | readNone hpc => exact h.readNone (congrArg Pc.placed hpc) rfl
  | readEntered hpc => exact h.setPc (congrArg Pc.placed hpc).symm
  | writeNone hpc => exact h.writeNone (congrArg Pc.placed hpc) rfl
  | writeEntered hpc => exact h.setPc (congrArg Pc.placed hpc).symm
  | @openUndone t _ _ hpc =>
    have hidle : Stream size (fun _ => []) (s.setPc t .idle) := h.setPc (congrArg Pc.placed hpc).symm
    exact hidle.close _ _
  | reads hpc => exact h.read (congrArg Pc.placed hpc) _ _ _
  | writes hpc => exact h.write (congrArg Pc.placed hpc) _ _
  | writesOn hpc => exact h.write (congrArg Pc.placed hpc) _ _
  | openInterrupted hpc => exact (hrdsem _).setPc (congrArg Pc.placed hpc).symm
  | readUnentered hpc => exact h.readNone (congrArg Pc.placed hpc) rfl
  | readInterrupted hpc => exact (hrdsem (s.rdsem + 1)).readNone (congrArg Pc.placed hpc) rfl
  | writeUnentered hpc => exact h.writeNone (congrArg Pc.placed hpc) rfl
  | writeInterrupted hpc => exact (hwrsem _).setPc (congrArg Pc.placed hpc).symm
  | waitsAgain hpc =>
    refine h.of_same ⟨rfl, rfl, rfl, rfl, rfl, Same.update s ?_⟩
    rw [hpc]
    split_ifs <;> rfl
  | pollSetup => exact h.of_same (.pollSetup _ s _ _ _)
  | pollTeardown => exact h.of_same ⟨rfl, rfl, rfl, rfl, rfl, fun _ => rfl⟩
  | policy => exact h.of_same ⟨rfl, rfl, rfl, rfl, rfl, fun _ => rfl⟩

theorem step (h : Stream size (fun _ => []) s) (hstep : s.step npollwaiters a = some s') :
    Stream size (fun _ => []) s' := by
  obtain ⟨u, hact, rfl⟩ := Option.map_eq_some_iff.mp hstep
  exact (h.effect (act_effect hact)).of_same (.observe _ u)

omit [Fintype τ] in
theorem length_le (h : Stream size due s) : s.ring.contents.length ≤ size - 1 := by
  have hlt := h.valid.length_lt
  rw [RingBuffer.length_contents, ← h.size]
  omega

end Stream

/-- For every buffer size of at least 2 and every interleaving of readers and writers: the indices stay
in the buffer, which holds at most one byte less than its size; unless the last close has emptied it,
the bytes read, followed by those in it, are those that were placed; and a writer's bytes are in its
order, of each call that has returned `n` the first `n`, of one that has failed none, and of the one
under way as many as it has counted. -/
theorem pipe_stream [Fintype τ] {size : Nat} (hsize : 2 ≤ size) (npollwaiters : Nat) (acts : List (Act τ)) (s : Dev τ)
    (hrun : run (step npollwaiters) (init τ size) acts = some s) :
    s.ring.head < size ∧ s.ring.tail < size ∧ s.ring.contents.length ≤ size - 1 ∧
      (.flush ∉ s.events → returned s ++ s.ring.contents = s.placed.map Prod.snd) ∧
      ∀ t, placedBy s t = finished s t ++ Pc.placed (s.pc t) := by
  have hmeet : StepsMeet (step npollwaiters) (fun _ _ => True) (init τ size) acts :=
    stepsMeet_of_forall _ acts fun _ _ => trivial
  have hinv : Stream size (fun _ => []) s :=
    invariant_run (fun _ _ _ h _ hstep => h.step hstep) (stream_init (by omega)) hmeet hrun
  have hhead := hinv.valid.head
  have htail := hinv.valid.tail
  rw [hinv.size] at hhead htail
  refine ⟨hhead, htail, hinv.length_le, fun hflush => ?_, fun t => ?_⟩
  · have hputs := Lib.Fifo.puts_eq hflush hinv.queue
    rw [← hinv.taken, ← hinv.placed, ← hputs]
    rfl
  · exact (hinv.writers t).trans (append_nil _)

/-- A write of three bytes stalls in a pipe of size 3 and goes on when another task has read two. -/
theorem pipe_stream_stalls :
    ∃ s, run (step 2) (init Bool 3) [.openFile false 0 ⟨true, true, false⟩ false, .write false 0 [1, 2, 3],
        .bfsem false, .read true 0 4, .bfsem true, .bfsem false] = some s ∧
      s.results = [.ok [1, 2]] ∧ s.writes = [(false, [1, 2, 3], .ok 3)] ∧
      returned s ++ s.ring.contents = s.placed.map Prod.snd ∧
      placedBy s false = finished s false ++ Pc.placed (s.pc false) := by
  refine exists_of_run rfl fun s hrun => ?_
  have hstream := pipe_stream (show 2 ≤ 3 by decide) 2 _ s hrun
  cases hrun
  exact ⟨rfl, rfl, hstream.2.2.2.1 (by decide), hstream.2.2.2.2 false⟩

end NbLot.Guarantees.PipeStream
