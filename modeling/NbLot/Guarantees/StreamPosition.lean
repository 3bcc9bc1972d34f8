import NbLot.Guarantees.StreamContents
import NbLot.Lib.Transition
import NbLot.Source.Stdio.Ungetc

/-!
# The position of a stream

`ftell` corrects the position of the file for what is in a buffer that was read into, and for
nothing else: it is wrong while bytes wait to be written, and when a character has been pushed back
onto a buffer that holds nothing (`ftell_ahead`). `fseek` from the current position goes wrong in the
second case only.
-/
namespace NbLot.Guarantees.StreamPosition
open Lib.Transition Source.Stdio StreamContents

variable {accepts : Nat → Nat} {s : Pushed} {data : List UInt8} {pos : Nat}

/-- Where the next byte is read or written: the position of the file behind the bytes that wait to
be written, less what was read ahead and what was pushed back. -/
def next (s : Pushed) : Int :=
  s.fd.pos + (if s.stream.bufread = 0 then s.stream.bufpos else 0 : Nat) -
    (s.stream.bufread - s.stream.bufpos : Nat) - s.ungotten.length

/-- The stream stands for a file, whatever has been pushed back. -/
def Ready (s : Pushed) : Prop :=
  0 < s.stream.bufsize ∧ ∃ data pos, Sim s.stream s.fd data pos

theorem next_eq (hs : Sim s.stream s.fd data pos) : next s = pos - s.ungotten.length := by
  unfold next
  rcases hs.mode with ⟨hread, hr⟩ | hw
  · have := hr.at_
    rw [if_neg hread]
    omega
  · have := hw.at_
    rw [if_pos hw.bufread, hw.bufread]
    omega

theorem rdflush_ready (hs : Ready s) : ∃ s₁ ok, s.libRdflush = (s₁, ok) ∧ Ready s₁ := by
  obtain ⟨hroom, data, pos, hsim⟩ := hs
  unfold Pushed.libRdflush
  split
  · exact ⟨_, _, rfl, hroom, _, _, Sim.empty hsim.size hroom rfl rfl⟩
  · exact ⟨s, true, rfl, hroom, data, pos, hsim⟩

/-- One call. -/
theorem step_ready (hs : Ready s) (c : Pushed.Call) : ∃ t, s.step accepts c = some t ∧ Ready t := by
  obtain ⟨s₁, ok, hflush, hready⟩ := rdflush_ready hs
  obtain ⟨hroom₁, data₁, pos₁, hsim₁⟩ := id hready
  obtain ⟨hroom, data, pos, hsim⟩ := hs
  cases c with
  | fread count =>
    obtain ⟨t, g, hread, hsim', hsize⟩ :=
      libFread_spec accepts (count - (s.ungotten.take count).length) hsim hroom
    rw [← hsize] at hroom
    simp only [Pushed.step, Pushed.libFread, hread]
    exact ⟨_, rfl, hroom, _, _, hsim'⟩
  | fwrite src =>
    obtain ⟨t, g, hwrite, hsim', hsize⟩ := libFwrite_spec accepts src hsim₁ hroom₁
    rw [← hsize] at hroom₁
    simp only [Pushed.step, Pushed.libFwrite, hflush]
    cases ok with
    | false => exact ⟨s₁, rfl, hready⟩
    | true =>
      simp only [hwrite]
      exact ⟨_, rfl, hroom₁, _, _, hsim'⟩
  | ungetc c =>
    refine ⟨s.ungetc c, rfl, ?_⟩
    unfold Pushed.ungetc
    split <;> exact ⟨hroom, data, pos, hsim⟩
  | fflush =>
    obtain ⟨t, g, hwrite, hsim', -, -, -, hsize⟩ := libFflush_spec accepts hsim
    rw [← hsize] at hroom
    simp only [Pushed.step, Pushed.fflush, hwrite]
    exact ⟨_, rfl, hroom, _, _, hsim'⟩
  | fseek offset whence =>
    obtain ⟨t, g, hsize, hseek⟩ := fseek_spec accepts offset whence hsim₁ hroom₁
    rw [← hsize] at hroom₁
    simp only [Pushed.step, Pushed.fseek, hflush]
    cases ok with
    | false => exact ⟨s₁, rfl, hready⟩
    | true =>
      split at hseek <;> simp only [hseek.1] <;>
        exact ⟨_, rfl, hroom₁, _, _, hseek.2⟩

theorem ftell_iff (hs : Ready s) :
    s.ftell = next s ↔ (s.stream.bufread = 0 → s.stream.bufpos = s.ungotten.length) := by
  obtain ⟨-, data, pos, hsim⟩ := hs
  rw [next_eq hsim, Pushed.ftell, Pushed.libGetrdoffset]
  rcases hsim.mode with ⟨-, hr⟩ | hw
  · have := hr.at_
    have := hr.pos_le
    omega
  · have := hw.at_
    have := hw.bufread
    omega

/-- A seek from the current position goes on from the next byte. -/
theorem fseek_next (hs : Ready s) (hpushed : s.stream.bufread = 0 → s.ungotten = [])
    (hnext : 0 ≤ next s) {offset : Int} (htarget : 0 ≤ next s + offset) :
    ∃ t, s.fseek accepts offset .cur = some (t, true) ∧ next t = next s + offset := by
  -- the file goes back to the next byte
  obtain ⟨s₁, hflush, hroom, data, pos, hsim, hpos⟩ : ∃ s₁, s.libRdflush = (s₁, true) ∧
      0 < s₁.stream.bufsize ∧ ∃ data pos, Sim s₁.stream s₁.fd data pos ∧ next s = pos := by
    obtain ⟨hroom, data, pos, hsim⟩ := hs
    unfold Pushed.libRdflush
    have heq := next_eq hsim
    rcases hsim.mode with ⟨hread, hr⟩ | hw
    · have hback : Fd.target s.fd.data s.fd.pos
          (-((s.stream.bufread : Int) - s.stream.bufpos + s.ungotten.length)) .cur = next s := by
        have := hr.at_
        have := hr.pos_le
        simp only [Fd.target]
        omega
      rw [if_pos hread]
      simp only [Fd.lseek, hback, if_neg (Int.not_lt.mpr hnext)]
      exact ⟨_, rfl, hroom, _, _, Sim.empty hsim.size hroom rfl rfl, (Int.toNat_of_nonneg hnext).symm⟩
    · rw [if_neg (not_not_intro hw.bufread)]
      refine ⟨s, rfl, hroom, data, pos, hsim, ?_⟩
      rw [heq, hpushed hw.bufread, List.length_nil, Int.natCast_zero, Int.sub_zero]
  obtain ⟨t, g, -, hseek⟩ := fseek_spec accepts offset .cur hsim hroom
  have hgoal : Fd.target data pos offset .cur = next s + offset := by rw [hpos]; rfl
  rw [if_neg (by omega)] at hseek
  refine ⟨⟨t, [], g⟩, by simp only [Pushed.fseek, hflush, hseek.1, Option.map_some], ?_⟩
  rw [next_eq hseek.2, hgoal, List.length_nil, Int.toNat_of_nonneg htarget, Int.natCast_zero, Int.sub_zero]

/-- After every sequence of calls `ftell` is the offset of the next byte iff, unless the buffer holds
bytes that were read, as many bytes wait to be written as characters have been pushed back. A seek
from the current position starts from that offset if no character was pushed back onto such a
buffer. -/
theorem ftell_next_iff (bufsize : Nat) (hbuf : 1 ≤ bufsize) (accepts : Nat → Nat)
    (data : List UInt8) (pos : Nat) (calls : List Pushed.Call) :
    ∃ s, run (Pushed.step accepts) ⟨opened bufsize, [], ⟨data, pos, 0⟩⟩ calls = some s ∧
      (∃ data' pos', Sim s.stream s.fd data' pos' ∧ next s = pos' - s.ungotten.length) ∧
      (s.ftell = next s ↔ (s.stream.bufread = 0 → s.stream.bufpos = s.ungotten.length)) ∧
      ((s.stream.bufread = 0 → s.ungotten = []) → 0 ≤ next s → ∀ offset, 0 ≤ next s + offset →
        ∃ t, s.fseek accepts offset .cur = some (t, true) ∧ next t = next s + offset) := by
  have hopened : Ready ⟨opened bufsize, [], ⟨data, pos, 0⟩⟩ :=
    ⟨hbuf, data, pos, Sim.empty (List.length_replicate ..) hbuf rfl rfl⟩
  obtain ⟨s, hrun, hready⟩ := progress_run (fun _ c hs (_ : True) => step_ready hs c) _ calls hopened
    (stepsMeet_of_forall _ _ fun _ _ => trivial)
  obtain ⟨-, data', pos', hsim⟩ := id hready
  exact ⟨s, hrun, ⟨data', pos', hsim, next_eq hsim⟩, ftell_iff hready, fun hpushed hnext offset =>
    fseek_next hready hpushed hnext⟩

theorem ftell_next_pushed : ∃ s, run (Pushed.step fun _ => 0)
    ⟨opened 4, [], ⟨[1, 2, 3, 4, 5, 6], 0, 0⟩⟩ [.fread 2, .ungetc 9] = some s ∧
      (s.ftell = next s ↔ (s.stream.bufread = 0 → s.stream.bufpos = s.ungotten.length)) := by
  obtain ⟨s, hrun, -, hiff, -⟩ := ftell_next_iff 4 (by decide) (fun _ => 0) [1, 2, 3, 4, 5, 6] 0
    [.fread 2, .ungetc 9]
  exact ⟨s, hrun, hiff⟩

/-- Three bytes that wait to be written are not counted, nor is a character that is pushed back after
a read past the buffer. -/
theorem ftell_ahead :
    (run (Pushed.step fun _ => 0) ⟨opened 4, [], ⟨[], 0, 0⟩⟩ [.fwrite [1, 2, 3]]).map
        (fun s => (s.ftell, next s)) = some (0, 3) ∧
      (run (Pushed.step fun _ => 0) ⟨opened 4, [], ⟨[1, 2, 3, 4, 5, 6], 0, 0⟩⟩
        [.fread 5, .ungetc 9]).map (fun s => (s.ftell, next s)) = some (5, 4) := by
  decide

end NbLot.Guarantees.StreamPosition
