import NbLot.Source.Serial.Transmit

/-!
# A serial device with a reader, a writer and flushes

Source: nuttx/drivers/serial/serial.c:1297-1317. The two sides share nothing; TCFLSH empties the rings
in one critical section, without the semaphores that the reader and the writer hold.
-/
namespace NbLot.Source.Serial

open Lib.Transition

/-- The argument of TCFLSH. -/
inductive FlushArg where
  | tciflush
  | tcoflush
  | tcioflush
  deriving DecidableEq, Repr

def FlushArg.input (arg : FlushArg) : Bool := arg = .tciflush || arg = .tcioflush

def FlushArg.output (arg : FlushArg) : Bool := arg = .tcoflush || arg = .tcioflush

structure Uart where
  rx : Receive
  tx : Transmit

namespace Uart

def init (rxsize txsize : Nat) (oflag : Oflag) : Uart where
  rx := .init rxsize
  tx := .init txsize oflag

inductive Act where
  | recv (a : Receive.Act)
  | xmit (a : Transmit.Act)
  | tcflsh (arg : FlushArg)
  deriving DecidableEq, Repr

def step (s : Uart) : Act → Option Uart
  | .recv a => (s.rx.step a).map fun rx => { s with rx := rx }
  | .xmit a => (s.tx.step a).map fun tx => { s with tx := tx }
  | .tcflsh arg =>
    some { rx := if arg.input then s.rx.flush else s.rx, tx := if arg.output then s.tx.flush else s.tx }

variable {rxInv : Receive → Prop} {txInv : Transmit → Prop} {ok : Uart → Act → Prop}

/-- Invariants of the two sides hold along every run of the device. -/
theorem run_invariant (hrx : ∀ s a s', rxInv s → s.step a = some s' → rxInv s')
    (htx : ∀ s a s', txInv s → s.step a = some s' → txInv s')
    (hrxflush : ∀ s arg, ok s (.tcflsh arg) → arg.input → rxInv s.rx → rxInv s.rx.flush)
    (htxflush : ∀ s arg, ok s (.tcflsh arg) → arg.output → txInv s.tx → txInv s.tx.flush)
    {s s' : Uart} {acts : List Act} (hs : rxInv s.rx ∧ txInv s.tx) (hok : StepsMeet step ok s acts)
    (hrun : run step s acts = some s') : rxInv s'.rx ∧ txInv s'.tx := by
  have hstep : ∀ s a t, (rxInv s.rx ∧ txInv s.tx) → ok s a → step s a = some t →
      rxInv t.rx ∧ txInv t.tx := by
    intro s a t h hok hstep
    cases a with
    | recv a =>
      obtain ⟨rx, hrecv, rfl⟩ := Option.map_eq_some_iff.mp hstep
      exact ⟨hrx _ a rx h.1 hrecv, h.2⟩
    | xmit a =>
      obtain ⟨tx, hxmit, rfl⟩ := Option.map_eq_some_iff.mp hstep
      exact ⟨h.1, htx _ a tx h.2 hxmit⟩
    | tcflsh arg =>
      cases hstep
      constructor
      · show rxInv (if arg.input then s.rx.flush else s.rx)
        split_ifs with hinput
        · exact hrxflush s arg hok hinput h.1
        · exact h.1
      · show txInv (if arg.output then s.tx.flush else s.tx)
        split_ifs with houtput
        · exact htxflush s arg hok houtput h.2
        · exact h.2
  exact @invariant_run _ _ _ _ (fun s => rxInv s.rx ∧ txInv s.tx) hstep s s' acts hs hok hrun

end Uart

end NbLot.Source.Serial
