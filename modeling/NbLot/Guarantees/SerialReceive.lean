import NbLot.Source.Serial.Receive

/-!
# The bytes that `uart_read` returns

The interrupt handler moves the head of the receive ring and `uart_read` its tail, without a lock.
For every interleaving, the bytes that the calls returned, those a call has taken and those in the
ring are the bytes received, less those that found all slots but one taken.
-/
namespace NbLot.Guarantees.SerialReceive

open Lib.Fifo (puts takes)
open Lib.Transition Source.Serial Source.Serial.Receive

/-- The bytes that the interrupts hand to `uart_recvchars`. -/
def received (acts : List Act) : List UInt8 :=
  acts.flatMap fun
    | .interrupt bytes => bytes
    | _ => []

/-- The events are those of a run without a flush. -/
structure History (size : Nat) (s : Receive) : Prop where
  stream : Stream s
  ringSize : s.ring.size = size
  puts : puts s.events = kept size s.arrivals
  flush : .flush ∉ s.events

variable {size : Nat} {s s' : Receive}

theorem History.of_same (h : History size s) (hstream : Stream s') (hring : s'.ring.size = s.ring.size)
    (harrivals : s'.arrivals = s.arrivals) (ch : List UInt8)
    (hevents : s'.events = s.events ++ ch.map .take) : History size s' := by
  refine ⟨hstream, hring.trans h.ringSize, ?_, ?_⟩
  · rw [harrivals, hevents, ← h.puts]
    simp [Lib.Fifo.puts]
  · rw [hevents, List.mem_append, not_or]
    exact ⟨h.flush, by simp⟩

theorem History.step (h : History size s) {a : Act} (hstep : s.step a = some s') :
    History size s' ∧ s'.arrivals.map Prod.fst = s.arrivals.map Prod.fst ++ received [a] := by
  have hstream := h.stream.step hstep
  cases a with
  | call buflen nonblock =>
    simp only [Receive.step] at hstep
    split at hstep
    · cases hstep
      exact ⟨h.of_same hstream rfl rfl [] (by simp), by simp [received]⟩
    · cases hstep
  | read =>
    obtain ⟨hring, harrivals, ch, hevents⟩ := read_frame hstep
    exact ⟨h.of_same hstream hring harrivals _ hevents, by simp [received, harrivals]⟩
  | signal =>
    simp only [Receive.step] at hstep
    split at hstep
    · cases hstep
      exact ⟨h.of_same hstream rfl rfl [] (by simp), by simp [received]⟩
    · cases hstep
  | interrupt bytes =>
    simp only [Receive.step] at hstep
    split_ifs at hstep
    cases hstep
    obtain ⟨accepted, t, harrived, -, hbytes, heq⟩ := uartRecvchars_spec s bytes h.stream.valid
    obtain ⟨hring, harrivals, hevents⟩ : (s.uartRecvchars bytes).ring = t.ring ∧
        (s.uartRecvchars bytes).arrivals = t.arrivals ∧ (s.uartRecvchars bytes).events = t.events := by
      rw [heq]
      split_ifs
      · exact uartDatareceived_frame t
      · exact ⟨rfl, rfl, rfl⟩
    have hkept := harrived.kept
    rw [h.ringSize] at hkept
    refine ⟨⟨hstream, ?_, ?_, ?_⟩, ?_⟩
    · rw [hring, harrived.size, h.ringSize]
    · rw [harrivals, hevents, hkept, harrived.events, ← h.puts]
      simp [Lib.Fifo.puts]
    · rw [hevents, harrived.events, List.mem_append, not_or]
      exact ⟨h.flush, by simp⟩
    · rw [harrivals, hbytes]
      simp [received]

theorem history_run (acts : List Act) (h : History size s) (hrun : run step s acts = some s') :
    History size s' ∧ s'.arrivals.map Prod.fst = s.arrivals.map Prod.fst ++ received acts := by
  induction acts generalizing s with
  | nil =>
    cases hrun
    exact ⟨h, by simp [received]⟩
  | cons a acts ih =>
    simp only [run] at hrun
    cases hstep : s.step a with
    | none =>
      rw [hstep] at hrun
      cases hrun
    | some t =>
      rw [hstep] at hrun
      obtain ⟨ht, hfirst⟩ := h.step hstep
      obtain ⟨hs', hrest⟩ := ih ht hrun
      refine ⟨hs', ?_⟩
      rw [hrest, hfirst]
      simp [received]

/-- Both indices stay below the size, and nothing is lost, doubled or reordered but the bytes that
arrive while all slots but one are taken. -/
theorem receive_stream {size : Nat} (hsize : 2 ≤ size) (acts : List Act) (s : Receive)
    (hrun : run step (init size) acts = some s) :
    s.ring.head < size ∧ s.ring.tail < size ∧
      s.returned ++ s.pc.inHand ++ s.ring.contents = kept size s.arrivals ∧
      s.arrivals.map Prod.fst = received acts := by
  have hinit : History size (init size) := ⟨stream_init (by omega), rfl, rfl, nofun⟩
  obtain ⟨h, hreceived⟩ := history_run acts hinit hrun
  have hqueue := Lib.Fifo.puts_eq h.flush h.stream.queue
  rw [h.puts, h.stream.taken] at hqueue
  rw [← h.ringSize] at hqueue ⊢
  exact ⟨h.stream.valid.head, h.stream.valid.tail, hqueue.symm, by simpa [init] using hreceived⟩

/-- Of two bytes that arrive for a ring of two slots the second is dropped; a third arrives while the
first is being read. -/
theorem receive_stream_two :
    ∃ s, run step (init 2) [.interrupt [1, 2], .call 4 false, .read, .read, .read, .interrupt [3], .read,
        .read, .read, .read] = some s ∧
      s.results = [.ok [1]] ∧ s.returned ++ s.pc.inHand ++ s.ring.contents = kept 2 s.arrivals ∧
      s.arrivals.map Prod.fst = [1, 2, 3] := by
  refine ⟨_, rfl, rfl, ?_⟩
  exact (receive_stream (Nat.le_refl 2) [.interrupt [1, 2], .call 4 false, .read, .read, .read,
    .interrupt [3], .read, .read, .read, .read] _ rfl).2.2

end NbLot.Guarantees.SerialReceive
