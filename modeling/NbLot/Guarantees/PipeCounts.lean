import NbLot.Source.Pipe.Model

/-!
# The open counts of a pipe

`pipecommon_close` takes back what `pipecommon_open` counted, except when it is the last close, the
policy is to keep the buffer and there are bytes left: then it returns with `d_nwriters` and
`d_nreaders` as they are. The counts are of type `uint8_t`, and nothing limits the number of opens. In
every run in which neither happens they are the numbers of open descriptors.
-/
namespace NbLot.Guarantees.PipeCounts
open List Function

open Lib.Counting (countP_erase_add)
open Lib.Transition Source.Pipe Source.Pipe.Dev

variable {τ : Type} {s s' : Dev τ} {fd : Nat} {mode : Mode}

/-- The numbers of the descriptors that are open, of those open for writing and for reading. -/
structure Counts (s : Dev τ) : Prop where
  refs : s.refs = s.files.length
  nwriters : s.nwriters = s.files.countP fun file => file.2.wrok
  nreaders : s.nreaders = s.files.countP fun file => file.2.rdok

/-- The counts are right and below 2 ^ 8; the descriptors are different, and those that are being opened
are among them, each by one task. -/
structure CountsInv (s : Dev τ) : Prop where
  counts : Counts s
  room : s.files.length < 2 ^ 8
  nodup : (s.files.map Prod.fst).Nodup
  opening : ∀ t file, (s.pc t).opening = some file → file ∈ s.files
  alone : ∀ t u file file', (s.pc t).opening = some file → (s.pc u).opening = some file' → file.1 = file'.1 → t = u

/-- The counts and the descriptors are the same, and no task opens another one. -/
structure Same (s s' : Dev τ) : Prop where
  refs : s'.refs = s.refs
  nwriters : s'.nwriters = s.nwriters
  nreaders : s'.nreaders = s.nreaders
  files : s'.files = s.files
  opening : ∀ t file, (s'.pc t).opening = some file → (s.pc t).opening = some file

theorem opening_wakeReader {pc : Pc} {file : Nat × Mode} (h : pc.wakeReader.opening = some file) :
    pc.opening = some file := by
  cases pc <;> first | exact h | cases h

theorem opening_wakeWriter (pc : Pc) : pc.wakeWriter.opening = pc.opening := by
  cases pc <;> rfl

namespace Same

theorem trans {s₁ s₂ s₃ : Dev τ} (h : Same s₁ s₂) (h' : Same s₂ s₃) : Same s₁ s₃ :=
  ⟨h'.refs.trans h.refs, h'.nwriters.trans h.nwriters, h'.nreaders.trans h.nreaders, h'.files.trans h.files,
    fun t file hfile => h.opening t file (h'.opening t file hfile)⟩

theorem refl (s : Dev τ) : Same s s := ⟨rfl, rfl, rfl, rfl, fun _ _ h => h⟩

theorem wakeReaders (s : Dev τ) : Same s s.wakeReaders := by
  refine ⟨rfl, rfl, rfl, rfl, fun t file hfile => ?_⟩
  simp only [Dev.wakeReaders] at hfile
  split_ifs at hfile
  · exact opening_wakeReader hfile
  · exact hfile

theorem wakeWriters (s : Dev τ) : Same s s.wakeWriters := by
  refine ⟨rfl, rfl, rfl, rfl, fun t file hfile => ?_⟩
  simp only [Dev.wakeWriters] at hfile
  split_ifs at hfile
  · exact (opening_wakeWriter _).symm.trans hfile
  · exact hfile

theorem pollSetup (npollwaiters : Nat) (s : Dev τ) (key fd : Nat) (asked : Events) :
    Same s (s.pollSetup npollwaiters key fd asked) := by
  simp only [Dev.pollSetup]
  split_ifs
  · exact ⟨rfl, rfl, rfl, rfl, fun _ _ h => h⟩
  · exact ⟨rfl, rfl, rfl, rfl, fun _ _ h => h⟩
  · exact refl s

theorem of_nudged (h : Nudged s s') : Same s s' := by
  induction h with
  | refl => exact refl s
  | wakeReaders _ ih => exact ih.trans (wakeReaders _)
  | wakeWriters _ ih => exact ih.trans (wakeWriters _)
  | pollnotify _ eventset ih => exact ih.trans ⟨rfl, rfl, rfl, rfl, fun _ _ h => h⟩

end Same

namespace CountsInv

theorem init (size : Nat) : CountsInv (init τ size) where
  counts := ⟨rfl, rfl, rfl⟩
  room := Nat.two_pow_pos 8
  nodup := nodup_nil
  opening := nofun
  alone := nofun

theorem of_same (h : CountsInv s) (hsame : Same s s') : CountsInv s' where
  counts := by
    refine ⟨?_, ?_, ?_⟩
    · rw [hsame.refs, hsame.files, h.counts.refs]
    · rw [hsame.nwriters, hsame.files, h.counts.nwriters]
    · rw [hsame.nreaders, hsame.files, h.counts.nreaders]
  room := by
    rw [hsame.files]
    exact h.room
  nodup := by
    rw [hsame.files]
    exact h.nodup
  opening t file hfile := by
    rw [hsame.files]
    exact h.opening t file (hsame.opening t file hfile)
  alone t u file file' hfile hfile' :=
    h.alone t u file file' (hsame.opening t file hfile) (hsame.opening u file' hfile')

theorem countOpen (h : CountsInv s) (hfresh : ∀ file ∈ s.files, file.1 ≠ fd)
    (hroom : s.files.length < 2 ^ 8 - 1) (mode : Mode) : CountsInv (s.countOpen fd mode) := by
  have hwr := countP_le_length (p := fun file : Nat × Mode => file.2.wrok) (l := s.files)
  have hrd := countP_le_length (p := fun file : Nat × Mode => file.2.rdok) (l := s.files)
  refine ⟨⟨?_, ?_, ?_⟩, ?_, ?_, fun t file hfile => mem_cons_of_mem _ (h.opening t file hfile), h.alone⟩
  · have hrefs := h.counts.refs
    simp only [countOpen_refs, countOpen_files, length_cons]
    omega
  · have hnwriters := h.counts.nwriters
    simp only [countOpen_nwriters, countOpen_files, countP_cons]
    split_ifs <;> omega
  · have hnreaders := h.counts.nreaders
    simp only [countOpen_nreaders, countOpen_files, countP_cons]
    split_ifs <;> omega
  · simp only [countOpen_files, length_cons]
    omega
  · simp only [countOpen_files, map_cons, nodup_cons, mem_map, not_exists, not_and]
    exact ⟨hfresh, h.nodup⟩

theorem close (h : CountsInv s) (hmem : (fd, mode) ∈ s.files)
    (hfree : ∀ t file, (s.pc t).opening = some file → file.1 ≠ fd)
    (hlast : s.files.length = 1 → s.policy1 = false ∨ s.ring.head = s.ring.tail) :
    CountsInv (s.pipecommonClose fd mode) := by
  have hlength := length_erase_of_mem hmem
  have hpos := length_pos_of_mem hmem
  have hroom := h.room
  have hwr := countP_erase_add (p := fun file => file.2.wrok) hmem
  have hrd := countP_erase_add (p := fun file => file.2.rdok) hmem
  have hwrle := countP_le_length (p := fun file : Nat × Mode => file.2.wrok) (l := s.files)
  have hrdle := countP_le_length (p := fun file : Nat × Mode => file.2.rdok) (l := s.files)
  have hrefs : (s.dropFile fd mode).refs = s.files.length - 1 := by
    simp only [dropFile_refs, h.counts.refs]
    omega
  have hopening : ∀ t file, (s.pc t).opening = some file → file ∈ s.files.erase (fd, mode) := by
    intro t file hfile
    refine (mem_erase_of_ne fun heq => hfree t file hfile ?_).mpr (h.opening t file hfile)
    rw [heq]
  have hnodup : ((s.files.erase (fd, mode)).map Prod.fst).Nodup :=
    h.nodup.sublist (erase_sublist.map Prod.fst)
  simp only [pipecommonClose]
  split_ifs with hothers hpolicy
  · have hcount : CountsInv ((s.dropFile fd mode).countClose mode) := by
      refine ⟨⟨?_, ?_, ?_⟩, ?_, hnodup, hopening, h.alone⟩
      · simp only [countClose_refs, countClose_files, hrefs, dropFile_files, hlength]
      · have hnwriters := h.counts.nwriters
        simp only [countClose_nwriters, countClose_files, dropFile_nwriters, dropFile_files]
        split_ifs at hwr ⊢ <;> omega
      · have hnreaders := h.counts.nreaders
        simp only [countClose_nreaders, countClose_files, dropFile_nreaders, dropFile_files]
        split_ifs at hrd ⊢ <;> omega
      · simp only [countClose_files, dropFile_files]
        omega
    exact hcount.of_same (.of_nudged (tellOthers_nudged _ mode))
  · have hnone : s.files.erase (fd, mode) = [] := eq_nil_of_length_eq_zero (by omega)
    have hfiles : (s.dropFile fd mode).reset.files = [] := hnone
    refine ⟨⟨?_, ?_, ?_⟩, ?_, hnodup, hopening, h.alone⟩
    · rw [hfiles]
      rfl
    · rw [hfiles]
      rfl
    · rw [hfiles]
      rfl
    · rw [hfiles]
      exact Nat.two_pow_pos 8
  · exact absurd (hlast (by omega)) hpolicy

end CountsInv

variable [DecidableEq τ] {t : τ}

namespace Same

theorem update (s : Dev τ) {pc : Pc}
    (hpc : ∀ file, pc.opening = some file → (s.pc t).opening = some file) (u : τ)
    (file : Nat × Mode) (hfile : (update s.pc t pc u).opening = some file) :
    (s.pc u).opening = some file := by
  rw [update_apply] at hfile
  split_ifs at hfile with htu
  · rw [htu]
    exact hpc file hfile
  · exact hfile

theorem pipecommonRead (s : Dev τ) (t : τ) (fd : Nat) (mode : Mode) (len : Nat) :
    Same s (s.pipecommonRead t fd mode len) := by
  simp only [Dev.pipecommonRead]
  split_ifs
  · exact ⟨rfl, rfl, rfl, rfl, update s (by rintro _ ⟨⟩)⟩
  · exact ⟨rfl, rfl, rfl, rfl, update s (by rintro _ ⟨⟩)⟩
  · refine ⟨rfl, rfl, rfl, rfl, update s ?_⟩
    split_ifs <;> rintro _ ⟨⟩
  · have hwoken := of_nudged (.pollnotify (.wakeWriters (.refl : Nudged s s)) ⟨false, true, false, false⟩)
    exact hwoken.trans ⟨rfl, rfl, rfl, rfl, update _ (by rintro _ ⟨⟩)⟩

theorem pipecommonWrite (s : Dev τ) (t : τ) (fd : Nat) (mode : Mode) (call : WriteCall) :
    Same s (s.pipecommonWrite t fd mode call) := by
  generalize hloop : writeLoop (call.buffer.drop call.nwritten) s.ring = result
  obtain ⟨n, ring⟩ := result
  have hplaced : Same s (s.place t ((call.buffer.drop call.nwritten).take n) ring) :=
    ⟨rfl, rfl, rfl, rfl, fun _ _ h => h⟩
  have hcases := pipecommonWrite_cases s t fd mode call hloop
  generalize s.place t ((call.buffer.drop call.nwritten).take n) ring = placed at hplaced hcases
  obtain ⟨-, heq⟩ | ⟨-, u, hu, hwrite⟩ := hcases
  · rw [heq]
    have hwoken := of_nudged
      (.pollnotify (.wakeReaders (.refl : Nudged placed placed)) ⟨true, false, false, false⟩)
    exact (hplaced.trans hwoken).trans ⟨rfl, rfl, rfl, rfl, update _ nofun⟩
  · have hwoken : Same placed u := by
      obtain ⟨-, rfl⟩ | ⟨-, rfl⟩ := hu
      · exact wakeReaders placed
      · exact refl u
    refine (hplaced.trans hwoken).trans ?_
    obtain heq | heq := hwrite
    · rw [heq]
      exact ⟨rfl, rfl, rfl, rfl, update _ nofun⟩
    · rw [heq]
      refine ⟨rfl, rfl, rfl, rfl, update _ ?_⟩
      split_ifs <;> nofun

end Same

namespace CountsInv

theorem openWait (h : CountsInv s) (hmem : (fd, mode) ∈ s.files)
    (hfree : ∀ u file, (s.pc u).opening = some file → file.1 ≠ fd) :
    CountsInv (s.waitRdsem t (.openWait fd mode) .idle) := by
  by_cases hvalue : 0 < s.rdsem
  · refine h.of_same ⟨rfl, rfl, rfl, rfl, Same.update s ?_⟩
    rw [if_pos hvalue]
    nofun
  · -- what a task opens now is `fd` for `t` and what it was for the others
    have hcases : ∀ u file, ((s.waitRdsem t (.openWait fd mode) .idle).pc u).opening = some file →
        u = t ∧ file = (fd, mode) ∨ u ≠ t ∧ (s.pc u).opening = some file := by
      intro u file hfile
      rw [waitRdsem_pc, update_apply] at hfile
      split_ifs at hfile with htu
      · exact .inl ⟨htu, (Option.some.inj hfile).symm⟩
      · exact .inr ⟨htu, hfile⟩
    refine ⟨⟨h.counts.refs, h.counts.nwriters, h.counts.nreaders⟩, h.room, h.nodup, fun u file hfile => ?_,
      fun u v file file' hfile hfile' heq => ?_⟩
    · obtain ⟨-, rfl⟩ | ⟨-, hold⟩ := hcases u file hfile
      · exact hmem
      · exact h.opening u file hold
    · obtain ⟨rfl, rfl⟩ | ⟨-, hold⟩ := hcases u file hfile
      · obtain ⟨rfl, -⟩ | ⟨-, hold'⟩ := hcases v file' hfile'
        · rfl
        · exact absurd heq.symm (hfree v file' hold')
      · obtain ⟨rfl, rfl⟩ | ⟨-, hold'⟩ := hcases v file' hfile'
        · exact absurd heq (hfree u file hold)
        · exact h.alone u v file file' hold hold' heq

theorem pipecommonOpen (h : CountsInv s) (t : τ) (hfresh : ∀ file ∈ s.files, file.1 ≠ fd)
    (hroom : s.files.length < 2 ^ 8 - 1) (mode : Mode) (nomem : Bool) :
    CountsInv (s.pipecommonOpen t fd mode nomem) := by
  have hcount := h.countOpen hfresh hroom mode
  obtain heq | ⟨u, hu, hopen⟩ := pipecommonOpen_cases s t fd mode nomem
  · rw [heq]
    exact h
  · have hwoken : Same (s.countOpen fd mode) u := by
      obtain rfl | rfl := hu
      · exact .refl _
      · exact .wakeReaders _
    have hinv := hcount.of_same hwoken
    -- no other task opens `fd`, since the descriptors that are being opened are among the old ones
    have hfree : ∀ v file, (u.pc v).opening = some file → file.1 ≠ fd := fun v file hfile =>
      hfresh file (h.opening v file (hwoken.opening v file hfile))
    have hmem : (fd, mode) ∈ u.files := by
      rw [hwoken.files]
      exact mem_cons_self
    obtain heq | heq := hopen
    · rw [heq]
      exact hinv
    · rw [heq]
      exact hinv.openWait hmem hfree

theorem openUndone (h : CountsInv s) (hpc : s.pc t = .openFailed fd mode)
    (hlast : s.files.length = 1 → s.policy1 = false ∨ s.ring.head = s.ring.tail) :
    CountsInv ((s.setPc t .idle).pipecommonClose fd mode) := by
  have hopening : (s.pc t).opening = some (fd, mode) := congrArg Pc.opening hpc
  have hidle : CountsInv (s.setPc t .idle) := h.of_same ⟨rfl, rfl, rfl, rfl, Same.update s nofun⟩
  refine hidle.close (h.opening t _ hopening) (fun u file hfile heq => ?_) hlast
  rw [setPc_pc, update_apply] at hfile
  split_ifs at hfile with htu
  · contradiction
  · exact htu (h.alone u t file _ hfile hopening heq)

end CountsInv

/-- The open finds fewer than 255 descriptors open; the last close does not leave bytes to be kept. -/
def Fits (s : Dev τ) : Act τ → Prop
  | .openFile .. => s.files.length < 2 ^ 8 - 1
  | .close .. => s.files.length = 1 → s.policy1 = false ∨ s.ring.head = s.ring.tail
  | .bfsem t => (s.pc t).opening ≠ none → s.files.length = 1 → s.policy1 = false ∨ s.ring.head = s.ring.tail
  | _ => True

instance (s : Dev τ) : (a : Act τ) → Decidable (Fits s a)
  | .openFile .. | .close .. | .read .. | .write .. | .bfsem .. | .signal .. | .waitAgain .. | .pollSetup ..
  | .pollTeardown .. | .policy .. => by
    unfold Fits
    infer_instance

variable [Fintype τ] {npollwaiters : Nat} {a : Act τ}

/-- Only opens, closes and the undoing of an open change the counts. -/
theorem Same.of_effect (heffect : Effect npollwaiters s a s') :
    (∃ t fd mode nomem, a = .openFile t fd mode nomem ∧ (∀ file ∈ s.files, file.1 ≠ fd) ∧
      s' = s.pipecommonOpen t fd mode nomem) ∨
    (∃ t fd mode, a = .close t fd ∧ s.mode fd = some mode ∧ s' = s.pipecommonClose fd mode) ∨
    (∃ t fd mode, a = .bfsem t ∧ s.pc t = .openFailed fd mode ∧
      s' = (s.setPc t .idle).pipecommonClose fd mode) ∨ Same s s' := by
  cases heffect with
  | opened _ hfresh => exact .inl ⟨_, _, _, _, rfl, hfresh, rfl⟩
  | closed _ hmode => exact .inr (.inl ⟨_, _, _, rfl, hmode, rfl⟩)
  | openUndone hpc => exact .inr (.inr (.inl ⟨_, _, _, rfl, hpc, rfl⟩))
  | reads => exact .inr (.inr (.inr (.pipecommonRead s _ _ _ _)))
  | writes => exact .inr (.inr (.inr (.pipecommonWrite s _ _ _ _)))
  | writesOn => exact .inr (.inr (.inr (.pipecommonWrite s _ _ _ _)))
  | openInterrupted hpc =>
    refine .inr (.inr (.inr ⟨rfl, rfl, rfl, rfl, update s fun file hfile => ?_⟩))
    rw [hpc]
    exact hfile
  | waitsAgain =>
    refine .inr (.inr (.inr ⟨rfl, rfl, rfl, rfl, update s ?_⟩))
    split_ifs <;> nofun
  | pollSetup => exact .inr (.inr (.inr (.pollSetup _ s _ _ _)))
  | pollTeardown | policy => exact .inr (.inr (.inr ⟨rfl, rfl, rfl, rfl, fun _ _ h => h⟩))
  | readNone | readEntered | writeNone | writeEntered | readUnentered | readInterrupted | writeUnentered
  | writeInterrupted => exact .inr (.inr (.inr ⟨rfl, rfl, rfl, rfl, update s nofun⟩))

theorem CountsInv.effect (h : CountsInv s) (hfits : Fits s a)
    (heffect : Effect npollwaiters s a s') : CountsInv s' := by
  obtain ⟨t, fd, mode, nomem, rfl, hfresh, rfl⟩ | ⟨t, fd, mode, rfl, hmode, rfl⟩ |
    ⟨t, fd, mode, rfl, hpc, rfl⟩ | hsame := Same.of_effect heffect
  · exact h.pipecommonOpen t hfresh hfits mode nomem
  · obtain ⟨hmem, hfree⟩ := mem_files_of_mode hmode
    exact h.close hmem hfree hfits
  · refine h.openUndone hpc (hfits ?_)
    rw [hpc]
    nofun
  · exact h.of_same hsame

theorem CountsInv.step (h : CountsInv s) (hfits : Fits s a)
    (hstep : s.step npollwaiters a = some s') : CountsInv s' := by
  obtain ⟨u, hact, rfl⟩ := Option.map_eq_some_iff.mp hstep
  exact (h.effect hfits (act_effect hact)).of_same ⟨rfl, rfl, rfl, rfl, fun _ _ h => h⟩

/-- A blocking read of an empty pipe that counts no writer returns 0. -/
theorem read_end_of_file (npollwaiters : Nat) {len : Nat} (hpc : s.pc t = .reading fd mode len)
    (hblock : mode.nonblock = false) (hempty : s.ring.head = s.ring.tail)
    (hnwriters : s.nwriters = 0) :
    ∃ s', s.step npollwaiters (.bfsem t) = some s' ∧ s'.pc t = .idle ∧ s'.results = s.results ++ [.ok []] := by
  have hread : s.pipecommonRead t fd mode len = s.readReturn t (.ok []) := by
    simp [pipecommonRead, hempty, hblock, hnwriters]
  refine ⟨observe s.ring (s.readReturn t (.ok [])), ?_, update_self _ _ _, rfl⟩
  simp only [step, act, hpc, hread, Option.map_some]

/-- In every run in which no open finds 255 descriptors open and no last close leaves bytes to be kept,
the counts are the numbers of open descriptors, and a blocking read of an empty pipe that is not open
for writing returns 0. -/
theorem pipe_counts (size npollwaiters : Nat) (acts : List (Act τ)) (s : Dev τ)
    (hfits : StepsMeet (step npollwaiters) Fits (init τ size) acts)
    (hrun : run (step npollwaiters) (init τ size) acts = some s) :
    Counts s ∧ ∀ t fd mode len, s.pc t = .reading fd mode len → mode.nonblock = false →
      s.ring.head = s.ring.tail → (∀ file ∈ s.files, file.2.wrok = false) →
      ∃ s', s.step npollwaiters (.bfsem t) = some s' ∧ s'.pc t = .idle ∧
        s'.results = s.results ++ [.ok []] := by
  have hinv : CountsInv s :=
    invariant_run (fun _ _ _ h hok hstep => h.step hok hstep) (CountsInv.init size) hfits hrun
  refine ⟨hinv.counts, fun t fd mode len hpc hblock hempty hwriters => ?_⟩
  refine read_end_of_file npollwaiters hpc hblock hempty ?_
  rw [hinv.counts.nwriters, countP_eq_zero]
  intro file hfile
  rw [hwriters file hfile]
  exact Bool.false_ne_true

/-- A pipe with the policy to keep the buffer is written, read to the end, and closed; a reader that
opens it again reads 0 bytes. -/
theorem pipe_counts_reopened :
    ∃ s, run (step 1) (init Unit 3) [.openFile () 0 ⟨true, true, false⟩ false, .policy true, .write () 0 [7],
        .bfsem (), .read () 0 1, .bfsem (), .close () 0, .openFile () 1 ⟨true, true, false⟩ false,
        .openFile () 2 ⟨true, false, false⟩ false, .close () 1, .read () 2 1] = some s ∧ Counts s ∧
      s.files = [(2, ⟨true, false, false⟩)] ∧
      ∃ s', s.step 1 (.bfsem ()) = some s' ∧ s'.results = [.ok [7], .ok []] := by
  refine exists_of_run rfl fun s hrun => ?_
  have hcounts := pipe_counts 3 1 _ s (by decide) hrun
  cases hrun
  obtain ⟨s', hstep, -, hresults⟩ := hcounts.2 () 2 ⟨true, false, false⟩ 1 rfl rfl rfl (by decide)
  exact ⟨hcounts.1, rfl, s', hstep, hresults⟩

/-- With the policy to keep the buffer, a byte is written and the pipe closed: no descriptor is open, but
one writer is counted. A reader that opens it and reads the byte then waits for the next one, with no
writer. -/
theorem pipe_miscounts :
    ∃ s, run (step 1) (init Unit 3) [.openFile () 0 ⟨false, true, false⟩ false, .policy true, .write () 0 [7],
        .bfsem (), .close () 0] = some s ∧ s.files = [] ∧ s.nwriters = 1 ∧
      ∃ s', run (step 1) s [.openFile () 1 ⟨true, false, false⟩ false, .read () 1 1, .bfsem (),
          .read () 1 1, .bfsem ()] = some s' ∧
        s'.files = [(1, ⟨true, false, false⟩)] ∧ s'.results = [.ok [7]] ∧ s'.ring.contents = [] ∧
        s'.pc () = .readWait 1 ⟨true, false, false⟩ 1 :=
  ⟨_, rfl, rfl, rfl, _, rfl, rfl, rfl, rfl, rfl⟩

end NbLot.Guarantees.PipeCounts
