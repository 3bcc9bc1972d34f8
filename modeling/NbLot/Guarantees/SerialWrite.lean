import NbLot.Source.Serial.Transmit

/-!
# What `uart_write` returns

A caller relies on the count that `uart_write` returns: the characters in the transmit stream should be
the translation of that many bytes, and none after an error. `uart_write` gets this wrong in two
places, both at a newline that is put as carriage return and newline:

* when the carriage return cannot be put, the error is returned although bytes have been written;
* when the carriage return has been put and the newline cannot be, it is in the stream and the byte
  is not counted.

`write_accounted_iff` shows for every call of every run that these are the only ones.
-/
namespace NbLot.Guarantees.SerialWrite
open List

open Lib.Fifo (puts Event)
open Lib.Transition Source.Serial Source.Serial.Transmit

/-- The output translation of a byte. -/
def output (oflag : Oflag) (ch : UInt8) : List UInt8 :=
  if oflag.expands ch then [cr, oflag.mapped ch] else [oflag.mapped ch]

/-- What a call returns says what it has appended to the stream. -/
def Accounted (oflag : Oflag) (result : WriteResult) : Prop :=
  match result.nwritten with
  | .ok n => result.call.appended = (result.call.buffer.take n).flatMap (output oflag)
  | .error _ => result.call.appended = []

/-- If a put has failed, then that of the carriage return for the first byte, or that of a byte that
is not expanded. -/
def Clean (oflag : Oflag) (result : WriteResult) : Prop :=
  match result.failed with
  | none => True
  | some true => result.call.rest = result.call.buffer
  | some false => ∀ ch ∈ result.call.rest.head?, oflag.expands ch = false

/-- A call has put the translation of the bytes that are not left, and `extra`. -/
def Written (oflag : Oflag) (call : WriteCall) (extra : List UInt8) : Prop :=
  ∃ done, call.buffer = done ++ call.rest ∧ call.appended = done.flatMap (output oflag) ++ extra

/-- A call is putting a character: the carriage return in front, or the character for a byte, behind
the carriage return if there is one. -/
def Putting (oflag : Oflag) (call : WriteCall) (lead : Bool) : Prop :=
  ∃ ch rest, call.rest = ch :: rest ∧ (lead → oflag.expands ch) ∧
    Written oflag call (if oflag.expands ch && !lead then [cr] else [])

def Outcome (oflag : Oflag) (result : WriteResult) : Prop :=
  match result.failed with
  | none => result.call.rest = [] ∧ result.nwritten = .ok result.call.buffer.length ∧
      Written oflag result.call []
  | some lead => Putting oflag result.call lead ∧
      ∃ errcode, result.nwritten = failedCount result.call lead errcode

def InCall (oflag : Oflag) : WritePc → Prop
  | .idle => True
  | .start call => Written oflag call []
  | .loop call => Written oflag call []
  | .put call lead _ => Putting oflag call lead
  | .leave result => Outcome oflag result

/-- What the call under way has put. -/
def pending : WritePc → List UInt8
  | .idle => []
  | .start call | .loop call | .put call _ _ => call.appended
  | .leave result => result.call.appended

structure Calls (oflag : Oflag) (s : Transmit) : Prop where
  stream : Stream s
  flags : s.oflag = oflag
  outcome : ∀ result ∈ s.calls, Outcome oflag result
  current : InCall oflag s.pc
  appended : puts s.events = s.calls.flatMap (fun result => result.call.appended) ++ pending s.pc

variable {oflag : Oflag} {s s' : Transmit} {call : WriteCall} {lead : Bool}

theorem output_ne_nil (oflag : Oflag) (ch : UInt8) : output oflag ch ≠ [] := by
  unfold output
  split_ifs <;> exact cons_ne_nil _ _

theorem Putting.done (h : Putting oflag call lead) :
    let call' : WriteCall := { call with appended := call.appended ++ [oflag.character call.rest lead] }
    if lead then Putting oflag call' false else Written oflag { call' with rest := call.rest.tail } [] := by
  obtain ⟨ch, rest, hrest, hexpands, done, hbuffer, happended⟩ := h
  cases lead with
  | true =>
    refine ⟨ch, rest, hrest, nofun, done, hbuffer, ?_⟩
    simp [happended, hexpands rfl, Oflag.character]
  | false =>
    refine ⟨done ++ [ch], ?_, ?_⟩
    · simp [hbuffer, hrest]
    · by_cases hch : oflag.expands ch = true
      · simp [happended, hch, output, Oflag.character, hrest]
      · simp [happended, hch, output, Oflag.character, hrest]

namespace Calls

section

variable (h : Calls oflag s) {fake : Option Nat}
include h

theorem setPc {pc : WritePc} (hs' : Stream s') (hoflag : s'.oflag = s.oflag)
    (hcalls : s'.calls = s.calls) (hevents : puts s'.events = puts s.events) (hpc : s'.pc = pc)
    (hcurrent : InCall oflag pc) (hpending : pending pc = pending s.pc) : Calls oflag s' := by
  refine ⟨hs', hoflag.trans h.flags, ?_, ?_, ?_⟩
  · rw [hcalls]
    exact h.outcome
  · rw [hpc]
    exact hcurrent
  · rw [hevents, hcalls, hpc, hpending]
    exact h.appended

theorem drained (hdrained : Drained s s') : Calls oflag s' := by
  have hs' := h.stream.drained hdrained
  obtain ⟨⟨chars, hsent⟩, hoflag, hcalls, hpc⟩ := hdrained
  have hevents : puts s'.events = puts s.events := by
    rw [hsent.events]
    simp [puts]
  rcases hpc with hpc | hpc
  · exact h.setPc hs' hoflag hcalls hevents hpc h.current rfl
  · have hwake : InCall oflag s.pc.wake ∧ pending s.pc.wake = pending s.pc := by
      have hcurrent := h.current
      unfold WritePc.wake
      split
      · next heq =>
        rw [heq] at hcurrent ⊢
        exact ⟨hcurrent, rfl⟩
      · exact ⟨hcurrent, rfl⟩
    exact h.setPc hs' hoflag hcalls hevents hpc hwake.1 hwake.2

theorem put {pc : PutPc} (hpc : s.pc = .put call lead pc)
    (hput : s.put call lead fake pc = some s') : Calls oflag s' := by
  have hs' := h.stream.put hpc hput
  have hcurrent := h.current
  rw [hpc] at hcurrent
  have hstay : ∀ pc', InCall oflag (.put call lead pc') ∧
      pending (.put call lead pc') = pending s.pc := by
    intro pc'
    rw [hpc]
    exact ⟨hcurrent, rfl⟩
  have hfail : ∀ errcode, InCall oflag (.leave ⟨call, failedCount call lead errcode, some lead⟩) ∧
      pending (.leave ⟨call, failedCount call lead errcode, some lead⟩) = pending s.pc := by
    intro errcode
    rw [hpc]
    exact ⟨⟨hcurrent, errcode, rfl⟩, rfl⟩
  cases pc with
  | begin =>
    cases hput
    exact h.setPc hs' rfl rfl rfl rfl (hstay _).1 (hstay _).2
  | test nexthead =>
    simp only [Transmit.put] at hput
    split_ifs at hput
    · cases hput
      exact h.setPc hs' rfl rfl rfl rfl (hstay _).1 (hstay _).2
    · cases hput
      exact h.setPc hs' rfl rfl rfl rfl (hfail _).1 (hfail _).2
    · cases hput
      exact h.setPc hs' rfl rfl rfl rfl (hstay _).1 (hstay _).2
  | fill nexthead =>
    cases hput
    exact h.setPc hs' rfl rfl rfl rfl (hstay _).1 (hstay _).2
  | advance nexthead =>
    cases hput
    have happended := h.appended
    rw [hpc] at happended
    have hdone := Putting.done hcurrent
    rw [← h.flags] at hdone
    refine ⟨hs', h.flags, h.outcome, ?_, ?_⟩
    · rw [← h.flags]
      simp only [putDone]
      split_ifs at hdone ⊢ with hlead <;> exact hdone
    · have hputs : puts (s.events ++ [Event.put (s.oflag.character call.rest lead)]) =
          s.calls.flatMap (fun result => result.call.appended) ++
            (call.appended ++ [s.oflag.character call.rest lead]) := by
        rw [← append_assoc, ← show puts s.events = _ ++ call.appended from happended]
        simp [puts]
      simp only [putDone]
      split_ifs <;> exact hputs
  | full nexthead =>
    simp only [Transmit.put] at hput
    split_ifs at hput
    · cases hput
      exact h.setPc hs' rfl rfl rfl rfl (hstay _).1 (hstay _).2
    all_goals
      obtain ⟨⟨chars, hsent⟩, hoflag, hcalls, -⟩ :=
        uartEnabletxint_drained (s := { s with xmitwaiting := true }) h.stream.valid fake
      have hevents : puts (uartEnabletxint { s with xmitwaiting := true } fake).events = puts s.events := by
        rw [hsent.events]
        simp [puts]
      cases hput
      exact h.setPc hs' hoflag hcalls hevents rfl (hstay _).1 (hstay _).2
  | sleep nexthead => cases hput
  | awake nexthead =>
    cases hput
    exact h.setPc hs' rfl rfl rfl rfl (hstay _).1 (hstay _).2
  | interrupted =>
    cases hput
    exact h.setPc hs' rfl rfl rfl rfl (hfail _).1 (hfail _).2

theorem write (hwrite : s.write fake = some s') : Calls oflag s' := by
  have hs' := h.stream.write hwrite
  have hcurrent := h.current
  unfold Transmit.write at hwrite
  split at hwrite
  · cases hwrite
  · next call hpc =>
    rw [hpc] at hcurrent
    cases hwrite
    have hloop : InCall oflag (.loop call) := hcurrent
    exact h.setPc hs' rfl rfl rfl rfl hloop (by rw [hpc]; rfl)
  · next call hpc =>
    rw [hpc] at hcurrent
    split at hwrite
    · next hrest =>
      cases hwrite
      exact h.setPc hs' rfl rfl rfl rfl ⟨hrest, rfl, hcurrent⟩ (by rw [hpc]; rfl)
    · next ch rest hrest =>
      cases hwrite
      refine h.setPc hs' rfl rfl rfl rfl ⟨ch, rest, hrest, ?_, ?_⟩ (by rw [hpc]; rfl)
      · rw [h.flags]
        exact id
      · rw [h.flags, Bool.and_not_self]
        exact hcurrent
  · next hpc => exact h.put hpc hwrite
  · next result hpc =>
    cases hwrite
    -- the transmitter may be started before the call returns
    let t := if s.ring.head ≠ s.ring.tail then uartEnabletxint s fake else s
    have hdrained : Drained s t := by
      simp only [t]
      split_ifs
      · exact uartEnabletxint_drained h.stream.valid fake
      · exact drained_refl h.stream.valid _ _ _
    have ht := h.drained hdrained
    have htpc : t.pc = .leave result := by
      rcases hdrained.pc with heq | heq
      · rw [heq, hpc]
      · rw [heq, hpc]
        rfl
    have houtcome := ht.current
    have happended := ht.appended
    rw [htpc] at houtcome happended
    refine ⟨hs', ht.flags, fun r hr => ?_, trivial, ?_⟩
    · rcases mem_append.mp hr with hold | hnew
      · exact ht.outcome r hold
      · rw [mem_singleton.mp hnew]
        exact houtcome
    · show puts t.events = (t.calls ++ [result]).flatMap (fun result => result.call.appended) ++ []
      rw [happended]
      simp [pending]

theorem step {a : Act} (hstep : s.step a = some s') : Calls oflag s' := by
  have hs' := h.stream.step hstep
  have hcurrent := h.current
  cases a with
  | call buffer nonblock =>
    simp only [Transmit.step] at hstep
    split at hstep
    · next hpc =>
      cases hstep
      exact h.setPc hs' rfl rfl rfl rfl ⟨[], rfl, rfl⟩ (by rw [hpc]; rfl)
    · cases hstep
  | write fake => exact h.write hstep
  | signal =>
    simp only [Transmit.step] at hstep
    split at hstep
    · next call lead nexthead hpc =>
      rw [hpc] at hcurrent
      cases hstep
      have hput : InCall oflag (.put call lead .interrupted) := hcurrent
      exact h.setPc hs' rfl rfl rfl rfl hput (by rw [hpc]; rfl)
    · cases hstep
  | interrupt room =>
    simp only [Transmit.step] at hstep
    split_ifs at hstep
    cases hstep
    exact h.drained (uartXmitchars_drained h.stream.valid room)

end

end Calls

theorem calls_init {size : Nat} (hsize : 0 < size) (oflag : Oflag) : Calls oflag (init size oflag) :=
  ⟨stream_init hsize oflag, rfl, nofun, trivial, rfl⟩

/-- The count is right exactly when the call is clean. -/
theorem Outcome.accounted_iff {result : WriteResult} (h : Outcome oflag result) :
    Accounted oflag result ↔ Clean oflag result := by
  obtain ⟨call, nwritten, failed⟩ := result
  cases failed with
  | none =>
    simp only [Outcome] at h
    obtain ⟨hrest, rfl, done, hbuffer, happended⟩ := h
    rw [hrest] at hbuffer
    simp [Accounted, Clean, hbuffer, happended]
  | some lead =>
    simp only [Outcome] at h
    obtain ⟨⟨ch, rest, hrest, -, done, hbuffer, happended⟩, errcode, rfl⟩ := h
    have hempty : done.flatMap (output oflag) = [] ↔ done = [] := by
      cases done with
      | nil => simp
      | cons b done => simp [output_ne_nil]
    have hdone : call.rest = call.buffer ↔ done = [] := by
      rw [hbuffer]
      simp
    cases lead with
    | true =>
      have hnone : call.appended = done.flatMap (output oflag) := by simpa using happended
      simp only [Accounted, Clean, failedCount, if_true]
      rw [hnone, hempty, hdone]
    | false =>
      have htake : call.buffer.take (call.buffer.length - call.rest.length) = done := by
        rw [hbuffer]
        simp
      have hclean : Clean oflag ⟨call, failedCount call false errcode, some false⟩ ↔
          oflag.expands ch = false := by
        simp [Clean, hrest]
      rw [hclean]
      by_cases hfirst : done = []
      · have hnot : ¬call.rest.length < call.buffer.length := by
          rw [hbuffer, hfirst]
          simp
        simp [Accounted, failedCount, hnot, happended, hfirst]
      · have hlt : call.rest.length < call.buffer.length := by
          rw [hbuffer, length_append]
          have := length_pos_iff.mpr hfirst
          omega
        simp [Accounted, failedCount, hlt, happended, htake]

/-- For every run, every call that has returned is accounted for exactly when it is clean; what the
calls have appended is what has been put into the transmit stream. -/
theorem write_accounted_iff {size : Nat} (hsize : 0 < size) (oflag : Oflag) (acts : List Act)
    (s : Transmit) (hrun : run step (init size oflag) acts = some s) :
    (∀ result ∈ s.calls, Accounted oflag result ↔ Clean oflag result) ∧
      puts s.events = s.calls.flatMap (fun result => result.call.appended) ++ pending s.pc := by
  have hmeet : StepsMeet step (fun _ _ => True) (init size oflag) acts :=
    stepsMeet_of_forall _ acts fun _ _ => trivial
  have h : Calls oflag s := invariant_run (fun _ _ _ h _ hstep => h.step hstep)
    (calls_init hsize oflag) hmeet hrun
  exact ⟨fun result hresult => (h.outcome result hresult).accounted_iff, h.appended⟩

/-- The flags under which a newline is put as carriage return and newline. -/
def cooked : Oflag := ⟨true, false, true, false⟩

/-- Into a ring of three characters a newline is written, and a byte behind it is not. -/
theorem write_accounted_newline :
    ∃ s result, run step (init 3 cooked) (.call [nl, 0x61] true :: List.replicate 14 (.write none)) = some s ∧
      s.calls = [result] ∧ result.nwritten = .ok 1 ∧ result.call.appended = [cr, nl] ∧
      Accounted cooked result := by
  have h := (write_accounted_iff (show 0 < 3 by decide) cooked
    (.call [nl, 0x61] true :: List.replicate 14 (.write none)) _ rfl).1
  have hclean : Clean cooked ⟨⟨[nl, 0x61], true, [0x61], [cr, nl]⟩, .ok 1, some false⟩ := by
    intro ch hch
    cases hch
    decide
  exact ⟨_, _, rfl, rfl, rfl, rfl, (h _ mem_cons_self).mpr hclean⟩

/-- With room for one character, `a` is written and then the carriage return fails: the call returns
the error. With a newline alone the carriage return is written, and the call returns the error. -/
theorem write_miscounts :
    (∃ s result, run step (init 2 cooked) (.call [0x61, nl] true :: List.replicate 10 (.write none)) = some s ∧
      s.calls = [result] ∧ result.nwritten = .error .eagain ∧ result.call.appended = [0x61]) ∧
    ∃ s result, run step (init 2 cooked) (.call [nl] true :: List.replicate 9 (.write none)) = some s ∧
      s.calls = [result] ∧ result.nwritten = .error .eagain ∧ result.call.appended = [cr] := by
  refine ⟨⟨_, _, rfl, rfl, rfl, rfl⟩, _, _, rfl, rfl, rfl, rfl⟩

end NbLot.Guarantees.SerialWrite
