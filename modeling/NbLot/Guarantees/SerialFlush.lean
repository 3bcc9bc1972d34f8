import NbLot.Source.Serial.Device

/-!
# Flushing a serial device

TCFLSH sets both indices of a ring to 0 while the reader or the writer may hold an index that it has
loaded or computed, the writer even while it sleeps. When it then stores the index, the ring holds
characters that were sent or returned before, or that never were in it.

`flush_keeps_streams` shows the streams right for flushes that do not come between the load of an
index and its store.
-/
namespace NbLot.Guarantees.SerialFlush

open Lib.Fifo (puts takes)
open Lib.Transition Source.Serial

/-- The reader has loaded the tail and not stored it. -/
def holdsTail : ReadPc → Bool
  | .loaded .. | .nonempty .. | .copied .. => true
  | _ => false

/-- The writer has computed the next head and not stored it. -/
def holdsHead : WritePc → Bool
  | .put _ _ .begin | .put _ _ .interrupted => false
  | .put .. => true
  | _ => false

/-- A flush does not come between the load of an index of its ring and the store. -/
def Calm (s : Uart) : Uart.Act → Prop
  | .tcflsh arg => (arg.input → holdsTail s.rx.pc = false) ∧ (arg.output → holdsHead s.tx.pc = false)
  | _ => True

instance (s : Uart) (a : Uart.Act) : Decidable (Calm s a) :=
  match a with
  | .tcflsh _ => inferInstanceAs (Decidable (_ ∧ _))
  | .recv _ | .xmit _ => .isTrue trivial

theorem sees_of_not_holdsTail {pc : ReadPc} (h : holdsTail pc = false) (ring : Lib.RingBuffer UInt8) :
    Receive.Sees ring pc := by
  cases pc <;> trivial

theorem sees_of_not_holdsHead {pc : WritePc} (h : holdsHead pc = false) (oflag : Oflag)
    (ring : Lib.RingBuffer UInt8) : Transmit.Sees oflag ring pc := by
  cases pc with
  | put call lead pc => cases pc <;> trivial
  | _ => trivial

/-- The bytes received, taken by the reader and flushed are those of a queue, which the receive ring
holds, and those taken are what `uart_read` returned and holds; the characters put by the writer, sent
to the hardware and flushed are those of a queue, which the transmit ring holds. -/
theorem flush_keeps_streams {rxsize txsize : Nat} (hrx : 0 < rxsize) (htx : 0 < txsize) (oflag : Oflag)
    (acts : List Uart.Act) (s : Uart) (hcalm : StepsMeet Uart.step Calm (.init rxsize txsize oflag) acts)
    (hrun : run Uart.step (.init rxsize txsize oflag) acts = some s) :
    run Lib.Fifo.step [] s.rx.events = some s.rx.ring.contents ∧
      takes s.rx.events = s.rx.returned ++ s.rx.pc.inHand ∧
      run Lib.Fifo.step [] s.tx.events = some s.tx.ring.contents := by
  obtain ⟨hrecv, hxmit⟩ := Uart.run_invariant (fun _ _ _ h hstep => Receive.Stream.step h hstep)
    (fun _ _ _ h hstep => Transmit.Stream.step h hstep)
    (fun s _ hok hinput h => h.flush (sees_of_not_holdsTail (hok.1 hinput)))
    (fun s _ hok houtput h => h.flush (sees_of_not_holdsHead (hok.2 houtput) _))
    ⟨Receive.stream_init hrx, Transmit.stream_init htx oflag⟩ hcalm hrun
  exact ⟨hrecv.queue, hrecv.taken, hxmit.queue⟩

/-- The flags without output processing. -/
def raw : Oflag := ⟨false, false, false, false⟩

/-- Both rings are flushed, each with a character in it, between two calls. -/
theorem flush_keeps_streams_idle :
    ∃ s, run Uart.step (.init 3 3 raw) ([.recv (.interrupt [1]), .xmit (.call [2] true)] ++
        List.replicate 8 (.xmit (.write none)) ++ [.tcflsh .tcioflush, .recv (.interrupt [3])]) = some s ∧
      s.rx.events = [.put 1, .flush, .put 3] ∧ s.tx.events = [.put 2, .flush] ∧
      run Lib.Fifo.step [] s.rx.events = some s.rx.ring.contents := by
  refine exists_of_run rfl fun s hrun => ?_
  have hstreams := flush_keeps_streams (show 0 < 3 by decide) (show 0 < 3 by decide) raw _ s (by decide) hrun
  cases hrun
  exact ⟨rfl, rfl, hstreams.1⟩

/-- The output is flushed while the second character is on its way: behind it a third is sent that
never was put. The input is flushed while the byte is being read: two more are returned behind it. -/
theorem flush_breaks_streams :
    (∃ s, run Uart.step (.init 3 3 raw) (.xmit (.call [1, 2] true) ::
        List.replicate 9 (.xmit (.write none)) ++ [.tcflsh .tcoflush, .xmit (.write none),
          .xmit (.write none), .xmit (.write none), .xmit (.write none), .xmit (.interrupt 3)]) = some s ∧
      puts s.tx.events = [1, 2] ∧ takes s.tx.events = [2, 0]) ∧
    ∃ s, run Uart.step (.init 3 3 raw) ([.recv (.interrupt [1]), .recv (.call 3 true), .recv .read,
        .recv .read, .recv .read, .tcflsh .tciflush] ++ List.replicate 13 (.recv .read)) = some s ∧
      s.rx.arrivals = [(1, 0)] ∧ s.rx.results = [.ok [1, 0, 0]] := by
  refine ⟨⟨_, rfl, rfl, rfl⟩, _, rfl, rfl, rfl⟩

end NbLot.Guarantees.SerialFlush
