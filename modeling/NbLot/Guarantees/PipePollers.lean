import NbLot.Guarantees.PipeCounts

/-!
# The descriptors in use, and the pollers of a pipe

A call or a poller uses a descriptor; as long as none is closed while it is in use, those in use are
open, and the last close finds no call under way and no poller. A poller is notified when a write or a
read returns, but not when a write stalls. A set-up does not always report what can be read or written.
-/
namespace NbLot.Guarantees.PipePollers
open List Function

open Lib (RingBuffer)
open PipeCounts (CountsInv Same)
open Source.Pipe Source.Pipe.Dev

/-- The descriptor that the call under way reads or writes. -/
def uses : Pc → Option Nat
  | .reading fd .. | .readWait fd .. | .writing fd .. | .writeWait fd .. | .writeAgain fd .. | .writeAwake fd .. =>
    some fd
  | _ => none

theorem uses_wakeReader (pc : Pc) : uses pc.wakeReader = uses pc := by cases pc <;> rfl

theorem uses_wakeWriter (pc : Pc) : uses pc.wakeWriter = uses pc := by cases pc <;> rfl

variable {τ : Type} {s s' : Dev τ} {fd fd' npollwaiters : Nat} {mode : Mode} {t : τ} {nomem : Bool}
  {a : Act τ}

/-- A call or a poller uses the descriptor. -/
def Used (s : Dev τ) (fd : Nat) : Prop :=
  (∃ t, uses (s.pc t) = some fd) ∨ ∃ fds ∈ s.fds, fds.fd = fd

/-- The descriptor is open. -/
def Usable (s : Dev τ) (fd : Nat) : Prop :=
  (∃ mode, (fd, mode) ∈ s.files) ∧ ∀ t file, (s.pc t).opening = some file → file.1 ≠ fd

/-- The descriptors in use are open. -/
def Users (s : Dev τ) : Prop := ∀ fd, Used s fd → Usable s fd

namespace Used

theorem of_eq (h : Used s' fd) (hpc : s'.pc = s.pc) (hfds : s'.fds = s.fds) : Used s fd := by
  rw [Used, hpc, hfds] at h
  exact h

theorem of_nudged (hnudged : Nudged s s') (h : Used s' fd) : Used s fd := by
  induction hnudged with
  | refl => exact h
  | @wakeReaders u _ ih =>
    refine ih (h.imp_left fun ⟨t, huses⟩ => ⟨t, ?_⟩)
    simp only [wakeReaders_pc] at huses
    split_ifs at huses
    · rwa [uses_wakeReader] at huses
    · exact huses
  | @wakeWriters u _ ih =>
    refine ih (h.imp_left fun ⟨t, huses⟩ => ⟨t, ?_⟩)
    simp only [wakeWriters_pc] at huses
    split_ifs at huses
    · rwa [uses_wakeWriter] at huses
    · exact huses
  | pollnotify _ eventset ih =>
    refine ih (h.imp_right fun ⟨fds, hfds, heq⟩ => ?_)
    obtain ⟨old, hold, rfl⟩ := mem_map.mp hfds
    exact ⟨old, hold, heq⟩

theorem of_close (h : Used (s.pipecommonClose fd mode) fd') : Used s fd' := by
  simp only [pipecommonClose] at h
  split_ifs at h
  · exact (h.of_nudged (tellOthers_nudged _ mode)).of_eq rfl rfl
  · exact h.of_eq rfl rfl
  · exact h.of_eq rfl rfl

variable {fd : Nat}

theorem of_pollSetup {key : Nat} {asked : Events}
    (h : Used (s.pollSetup npollwaiters key fd asked) fd') : Used s fd' ∨ fd = fd' := by
  have hadded : Used (s.addPoller key fd asked) fd' → Used s fd' ∨ fd = fd' := by
    rintro (hcall | ⟨fds, hfds, heq⟩)
    · exact .inl (.inl hcall)
    · obtain hold | hnew := mem_append.mp hfds
      · exact .inl (.inr ⟨fds, hold, heq⟩)
      · rw [mem_singleton.mp hnew] at heq
        exact .inr heq
  simp only [Dev.pollSetup] at h
  split_ifs at h
  · exact hadded (h.of_nudged (.pollnotify .refl _))
  · exact hadded h
  · exact .inl h

variable [DecidableEq τ]

theorem of_update {pc : Pc} (h : Used s' fd) (hpc : s'.pc = update s.pc t pc)
    (hfds : s'.fds = s.fds) : Used s fd ∨ uses pc = some fd := by
  obtain ⟨u, huses⟩ | hpoll := h
  · rw [hpc, update_apply] at huses
    split_ifs at huses
    · exact .inr huses
    · exact .inl (.inl ⟨u, huses⟩)
  · rw [hfds] at hpoll
    exact .inl (.inr hpoll)

theorem of_open (h : Used (s.pipecommonOpen t fd mode nomem) fd') : Used s fd' := by
  obtain heq | ⟨u, hu, hopen⟩ := pipecommonOpen_cases s t fd mode nomem
  · rwa [heq] at h
  · have hback : Used u fd' → Used s fd' := by
      obtain rfl | rfl := hu
      · exact fun h => h.of_eq rfl rfl
      · exact fun h => (h.of_nudged (.wakeReaders .refl)).of_eq rfl rfl
    obtain heq | heq := hopen
    · rw [heq] at h
      exact hback h
    · rw [heq] at h
      obtain hold | hnew := h.of_update rfl rfl
      · exact hback hold
      · split_ifs at hnew <;> contradiction

theorem of_read {len : Nat} (h : Used (s.pipecommonRead t fd mode len) fd') :
    Used s fd' ∨ fd = fd' := by
  obtain ⟨-, ⟨_, -, heq⟩ | ⟨-, heq⟩⟩ | ⟨-, heq⟩ := pipecommonRead_cases s t fd mode len
  · rw [heq] at h
    exact .inl ((h.of_update rfl rfl).resolve_right nofun)
  · rw [heq] at h
    refine (h.of_update rfl rfl).imp_right fun hnew => ?_
    split_ifs at hnew <;> exact Option.some.inj hnew
  · rw [heq] at h
    have hold := (h.of_update rfl rfl).resolve_right nofun
    exact .inl ((hold.of_nudged (.pollnotify (.wakeWriters .refl) _)).of_eq rfl rfl)

theorem of_write {call : WriteCall} (h : Used (s.pipecommonWrite t fd mode call) fd') :
    Used s fd' ∨ fd = fd' := by
  generalize hloop : writeLoop (call.buffer.drop call.nwritten) s.ring = result
  obtain ⟨n, ring⟩ := result
  have hplaced : Used (s.place t ((call.buffer.drop call.nwritten).take n) ring) fd' → Used s fd' :=
    fun h => h.of_eq rfl rfl
  have hcases := pipecommonWrite_cases s t fd mode call hloop
  obtain ⟨-, heq⟩ | ⟨-, u, hu, hwrite⟩ := hcases
  · rw [heq] at h
    have hold := (h.of_update rfl rfl).resolve_right nofun
    exact .inl (hplaced (hold.of_nudged (.pollnotify (.wakeReaders .refl) _)))
  · have hback : Used u fd' → Used s fd' := by
      obtain ⟨-, rfl⟩ | ⟨-, rfl⟩ := hu
      · exact fun h => hplaced (h.of_nudged (.wakeReaders .refl))
      · exact hplaced
    obtain heq | heq := hwrite
    · rw [heq] at h
      exact .inl (hback ((h.of_update rfl rfl).resolve_right nofun))
    · rw [heq] at h
      refine (h.of_update rfl rfl).imp hback fun hnew => ?_
      split_ifs at hnew <;> exact Option.some.inj hnew

theorem of_effect [Fintype τ] (heffect : Effect npollwaiters s a s') (h : Used s' fd) :
    Used s fd ∨ (s.mode fd).isSome := by
  cases heffect with
  | opened => exact .inl h.of_open
  | closed => exact .inl h.of_close
  | openUndone => exact .inl ((h.of_close.of_update rfl rfl).resolve_right nofun)
  | @readEntered _ _ _ _ _ hmode =>
    refine (h.of_update rfl rfl).imp_right fun hnew => ?_
    rw [← Option.some.inj hnew, hmode]
    rfl
  | @writeEntered _ _ _ _ _ hmode =>
    refine (h.of_update rfl rfl).imp_right fun hnew => ?_
    rw [← Option.some.inj hnew, hmode]
    rfl
  | reads hpc =>
    obtain hold | rfl := h.of_read
    · exact .inl hold
    · exact .inl (.inl ⟨_, congrArg uses hpc⟩)
  | writes hpc =>
    obtain hold | rfl := h.of_write
    · exact .inl hold
    · exact .inl (.inl ⟨_, congrArg uses hpc⟩)
  | writesOn hpc =>
    obtain hold | rfl := h.of_write
    · exact .inl hold
    · exact .inl (.inl ⟨_, congrArg uses hpc⟩)
  | writeInterrupted hpc =>
    obtain hold | hnew := h.of_update rfl rfl
    · exact .inl hold
    · exact .inl (.inl ⟨_, (congrArg uses hpc).trans hnew⟩)
  | waitsAgain hpc =>
    obtain hold | hnew := h.of_update rfl rfl
    · exact .inl hold
    · refine .inl (.inl ⟨_, (congrArg uses hpc).trans ?_⟩)
      split_ifs at hnew <;> exact hnew
  | pollSetup hmode =>
    obtain hold | rfl := h.of_pollSetup
    · exact .inl hold
    · exact .inr hmode
  | pollTeardown =>
    refine .inl (h.imp_right fun ⟨fds, hfds, heq⟩ => ⟨fds, ?_, heq⟩)
    exact mem_of_mem_filter hfds
  | policy => exact .inl (h.of_eq rfl rfl)
  | readNone | writeNone | openInterrupted | readUnentered | readInterrupted | writeUnentered =>
    exact .inl ((h.of_update rfl rfl).resolve_right nofun)

end Used

namespace Usable

theorem of_same (hsame : Same s s') (h : Usable s fd) : Usable s' fd := by
  obtain ⟨⟨mode, hmem⟩, hopening⟩ := h
  refine ⟨⟨mode, ?_⟩, fun t file hfile => hopening t file (hsame.opening t file hfile)⟩
  rw [hsame.files]
  exact hmem

theorem of_mode [Fintype τ] (h : (s.mode fd).isSome) : Usable s fd := by
  obtain ⟨mode, hmode⟩ := Option.isSome_iff_exists.mp h
  obtain ⟨hmem, hopening⟩ := mem_files_of_mode hmode
  exact ⟨⟨mode, hmem⟩, hopening⟩

theorem close (hne : fd' ≠ fd) (h : Usable s fd') : Usable (s.pipecommonClose fd mode) fd' := by
  have hdrop : Usable (s.dropFile fd mode) fd' := by
    obtain ⟨⟨mode', hmem⟩, hopening⟩ := h
    refine ⟨⟨mode', (mem_erase_of_ne fun heq => hne ?_).mpr hmem⟩, hopening⟩
    exact congrArg Prod.fst heq
  simp only [pipecommonClose]
  split_ifs
  · have hcount : Usable ((s.dropFile fd mode).countClose mode) fd' := hdrop
    exact hcount.of_same (.of_nudged (tellOthers_nudged _ mode))
  · exact hdrop
  · exact hdrop

theorem openFile [DecidableEq τ] (hfresh : ∀ file ∈ s.files, file.1 ≠ fd) (h : Usable s fd') :
    Usable (s.pipecommonOpen t fd mode nomem) fd' := by
  obtain ⟨⟨mode', hmem⟩, -⟩ := id h
  have hne : fd ≠ fd' := (hfresh _ hmem).symm
  have hcount : Usable (s.countOpen fd mode) fd' := ⟨⟨mode', mem_cons_of_mem _ hmem⟩, h.2⟩
  obtain heq | ⟨u, hu, hopen⟩ := pipecommonOpen_cases s t fd mode nomem
  · rw [heq]
    exact h
  · have hwoken : Usable u fd' := by
      obtain rfl | rfl := hu
      · exact hcount
      · exact hcount.of_same (.wakeReaders _)
    obtain heq | heq := hopen
    · rw [heq]
      exact hwoken
    · rw [heq]
      refine ⟨hwoken.1, fun v file hfile => ?_⟩
      rw [waitRdsem_pc, update_apply] at hfile
      split_ifs at hfile
      · contradiction
      · rw [← Option.some.inj hfile]
        exact hne
      · exact hwoken.2 v file hfile

end Usable

/-- The last close finds nothing in use. -/
theorem Users.not_used_of_last (h : Users s) (hcounts : CountsInv s) (hmem : (fd, mode) ∈ s.files)
    (hunused : ¬Used s fd) (hlast : (s.dropFile fd mode).refs = 0) : ∀ fd, ¬Used s fd := by
  intro fd' hused
  obtain ⟨⟨mode', hmem'⟩, -⟩ := h fd' hused
  have hroom := hcounts.room
  have hrefs := hcounts.counts.refs
  have hlength : s.files.length = 1 := by
    simp only [dropFile_refs] at hlast
    omega
  obtain ⟨file, hfile⟩ := length_eq_one_iff.mp hlength
  rw [hfile, mem_singleton] at hmem hmem'
  have heq : fd' = fd := congrArg Prod.fst (hmem'.trans hmem.symm)
  rw [heq] at hused
  exact hunused hused

theorem Users.observe (h : Users s) (before : RingBuffer UInt8) : Users (observe before s) := by
  intro fd hused
  refine h fd (hused.imp_right fun ⟨fds, hfds, heq⟩ => ?_)
  obtain ⟨old, hold, rfl⟩ := mem_map.mp hfds
  exact ⟨old, hold, heq⟩

/-- A poller that asked for it has been notified of the bytes and of the room that came since. -/
def Told (s : Dev τ) : Prop :=
  ∀ fds ∈ s.fds, (fds.events.pollin → fds.rose → fds.revents.any) ∧
    (fds.events.pollout → fds.drained → fds.revents.any)

/-- The same, with what has happened in this step since the buffer was `before`. -/
def Informed (before : RingBuffer UInt8) (s : Dev τ) : Prop :=
  ∀ fds ∈ s.fds,
    (fds.events.pollin → fds.rose ∨ before.head = before.tail ∧ s.ring.head ≠ s.ring.tail → fds.revents.any) ∧
    (fds.events.pollout → fds.drained ∨ before.next before.head = before.tail ∧
      s.ring.next s.ring.head ≠ s.ring.tail → fds.revents.any)

section Notify

variable {fds : Poller} {eventset : Events}

theorem notify_any (h : fds.revents.any) : (notify eventset fds).revents.any := by
  simp only [notify, Events.any] at h ⊢
  split_ifs <;> grind

theorem notify_pollin (h : fds.events.pollin) : (notify ⟨true, false, false, false⟩ fds).revents.any := by
  simp only [notify, Events.any]
  split_ifs <;> grind

theorem notify_pollout (h : fds.events.pollout) : (notify ⟨false, true, false, false⟩ fds).revents.any := by
  simp only [notify, Events.any]
  split_ifs <;> grind

end Notify

variable {before : RingBuffer UInt8}

namespace Told

theorem of_fds (h : Told s) (hfds : s'.fds = s.fds) : Told s' := by
  rw [Told, hfds]
  exact h

theorem pollnotify (h : Told s) (eventset : Events) : Told (s.pollnotify eventset) := by
  intro fds hfds
  obtain ⟨old, hold, rfl⟩ := mem_map.mp hfds
  obtain ⟨hpollin, hpollout⟩ := h old hold
  exact ⟨fun hasked hrose => notify_any (hpollin hasked hrose),
    fun hasked hdrained => notify_any (hpollout hasked hdrained)⟩

theorem of_nudged (h : Told s) (hnudged : Nudged s s') : Told s' := by
  induction hnudged with
  | refl => exact h
  | wakeReaders _ ih => exact ih.of_fds rfl
  | wakeWriters _ ih => exact ih.of_fds rfl
  | pollnotify _ eventset ih => exact ih.pollnotify eventset

end Told

namespace Informed

theorem of_told (h : Told s) (hring : s.ring = before) : Informed before s := by
  intro fds hfds
  obtain ⟨hpollin, hpollout⟩ := h fds hfds
  refine ⟨fun hasked hcame => hpollin hasked (hcame.resolve_right ?_),
    fun hasked hcame => hpollout hasked (hcame.resolve_right ?_)⟩
  · rw [hring]
    exact fun hcame => hcame.2 hcame.1
  · rw [hring]
    exact fun hcame => hcame.2 hcame.1

theorem of_eq (h : Informed before s) (hfds : s'.fds = s.fds) (hring : s'.ring = s.ring) : Informed before s' := by
  rw [Informed, hfds, hring]
  exact h

/-- The pollers are notified of bytes, and no room was made. -/
theorem pollin (h : Told s)
    (hroom : before.next before.head = before.tail → s.ring.next s.ring.head = s.ring.tail) :
    Informed before (s.pollnotify ⟨true, false, false, false⟩) := by
  intro fds hfds
  obtain ⟨old, hold, rfl⟩ := mem_map.mp hfds
  refine ⟨fun hasked _ => notify_pollin hasked, fun hasked hcame => ?_⟩
  exact notify_any ((h old hold).2 hasked (hcame.resolve_right fun hcame => hcame.2 (hroom hcame.1)))

/-- The pollers are notified of room, and the pipe did not get its first bytes. -/
theorem pollout (h : Told s) (hbytes : before.head = before.tail → s.ring.head = s.ring.tail) :
    Informed before (s.pollnotify ⟨false, true, false, false⟩) := by
  intro fds hfds
  obtain ⟨old, hold, rfl⟩ := mem_map.mp hfds
  refine ⟨fun hasked hcame => ?_, fun hasked _ => notify_pollout hasked⟩
  exact notify_any ((h old hold).1 hasked (hcame.resolve_right fun hcame => hcame.2 (hbytes hcame.1)))

/-- The pipe is full, and those who asked for its first bytes know of them. -/
theorem stall (h : Told s) (hfull : s.ring.next s.ring.head = s.ring.tail)
    (hpolled : before.head = before.tail → ∀ fds ∈ s.fds, fds.events.pollin → fds.revents.any) :
    Informed before s := by
  intro fds hfds
  refine ⟨fun hasked hcame => ?_, fun hasked hcame => ?_⟩
  · obtain hrose | ⟨hempty, -⟩ := hcame
    · exact (h fds hfds).1 hasked hrose
    · exact hpolled hempty fds hfds hasked
  · exact (h fds hfds).2 hasked (hcame.resolve_right fun hcame => hcame.2 hfull)

theorem close (h : Told s) (hlast : (s.dropFile fd mode).refs = 0 → s.fds = []) :
    Informed s.ring (s.pipecommonClose fd mode) := by
  simp only [pipecommonClose]
  split_ifs with hothers
  · have hcount : Told ((s.dropFile fd mode).countClose mode) := h.of_fds rfl
    have hnudged := tellOthers_nudged ((s.dropFile fd mode).countClose mode) mode
    exact of_told (hcount.of_nudged hnudged) hnudged.ring_eq
  · intro fds hfds
    rw [reset_fds, dropFile_fds, hlast (Nat.eq_zero_of_not_pos hothers)] at hfds
    contradiction
  · exact of_told (h.of_fds rfl) rfl

theorem observe (h : Informed before s) : Told (observe before s) := by
  intro fds hfds
  obtain ⟨old, hold, rfl⟩ := mem_map.mp hfds
  obtain ⟨hpollin, hpollout⟩ := h old hold
  refine ⟨fun hasked hrose => hpollin hasked ?_, fun hasked hdrained => hpollout hasked ?_⟩
  · simp only [Bool.and_eq_true, Bool.or_eq_true, decide_eq_true_eq] at hrose
    exact hrose.2.imp_right fun hempty => ⟨hempty, hrose.1⟩
  · simp only [Bool.and_eq_true, Bool.or_eq_true, decide_eq_true_eq] at hdrained
    exact hdrained.2.imp_right fun hfull => ⟨hfull, hdrained.1⟩

end Informed

/-- What a set-up that asks for all events should report. -/
structure Reported (s : Dev τ) (r : Events) : Prop where
  pollin : r.pollin ↔ (readLoop 1 s.ring).1 ≠ []
  pollout : r.pollout → ∀ byte, (writeLoop [byte] s.ring).1 = 1
  pollhup : r.pollhup ↔ s.ring.head = s.ring.tail ∧ s.nwriters = 0
  pollerr : r.pollerr → (∀ byte, (writeLoop [byte] s.ring).1 = 1) ∧ s.policy1 = false ∧ s.nreaders = 0

/-- POLLERR takes the place of POLLIN and POLLOUT, and POLLHUP that of POLLOUT. -/
theorem notify_fresh (key fd : Nat) (e : Events) :
    (notify e ⟨key, fd, ⟨true, true, true, true⟩, ⟨false, false, false, false⟩, false, false⟩).revents =
      ⟨e.pollin && !e.pollerr, e.pollout && !e.pollerr && !e.pollhup, e.pollhup, e.pollerr⟩ := by
  obtain ⟨_ | _, _ | _, _ | _, _ | _⟩ := e <;> rfl

/-- A pipe of two slots with a byte in the second one, and a reader and a writer. -/
def wrapped : Dev Unit :=
  { init Unit 2 with ring := ⟨2, 0, 1, fun _ => 0⟩, nwriters := 1, nreaders := 1 }

variable [DecidableEq τ]

/-- The descriptor of an open that was interrupted is not in use. -/
theorem Users.not_used_of_opening (h : Users s) (hpc : s.pc t = .openFailed fd mode) :
    ¬Used (s.setPc t .idle) fd := by
  intro hused
  have hold := (hused.of_update rfl rfl).resolve_right nofun
  exact (h fd hold).2 t (fd, mode) (congrArg Pc.opening hpc) rfl

/-- If the undoing of an open is the last close, nothing is in use. -/
theorem Users.not_used_of_last_undone (h : Users s) (hcounts : CountsInv s)
    (hpc : s.pc t = .openFailed fd mode) (hlast : ((s.setPc t .idle).dropFile fd mode).refs = 0) :
    ∀ fd, ¬Used (s.setPc t .idle) fd := by
  have hsame : Same s (s.setPc t .idle) := ⟨rfl, rfl, rfl, rfl, Same.update s nofun⟩
  have husers : Users (s.setPc t .idle) := fun fd hused =>
    (h fd ((hused.of_update rfl rfl).resolve_right nofun)).of_same hsame
  exact husers.not_used_of_last (hcounts.of_same hsame)
    (hcounts.opening t (fd, mode) (congrArg Pc.opening hpc)) (h.not_used_of_opening hpc) hlast

variable [Fintype τ]

theorem Users.effect (h : Users s) (hclose : ∀ t fd, a = .close t fd → ¬Used s fd)
    (heffect : Effect npollwaiters s a s') : Users s' := by
  intro fd' hused
  obtain ⟨t, fd, mode, nomem, rfl, hfresh, rfl⟩ | ⟨t, fd, mode, rfl, hmode, rfl⟩ |
    ⟨t, fd, mode, rfl, hpc, rfl⟩ | hsame := Same.of_effect heffect
  · exact (h fd' hused.of_open).openFile hfresh
  · have hold := hused.of_close
    refine (h fd' hold).close fun heq => hclose t fd rfl ?_
    rwa [heq] at hold
  · have hold := (hused.of_close.of_update rfl rfl).resolve_right nofun
    have hidle : Same s (s.setPc t .idle) := ⟨rfl, rfl, rfl, rfl, Same.update s nofun⟩
    exact ((h fd' hold).of_same hidle).close fun heq => (h fd' hold).2 t (fd, mode) (congrArg Pc.opening hpc) heq.symm
  · obtain hold | hmode := hused.of_effect heffect
    · exact (h fd' hold).of_same hsame
    · exact (Usable.of_mode hmode).of_same hsame

namespace Informed

omit [Fintype τ] in
theorem openFile (h : Told s) (t : τ) (fd : Nat) (mode : Mode) (nomem : Bool) :
    Informed s.ring (s.pipecommonOpen t fd mode nomem) := by
  obtain heq | ⟨u, hu, hopen⟩ := pipecommonOpen_cases s t fd mode nomem
  · rw [heq]
    exact of_told h rfl
  · have hwoken : Informed s.ring u := by
      obtain rfl | rfl := hu
      · exact of_told (h.of_fds rfl) rfl
      · exact of_told (h.of_fds rfl) rfl
    obtain heq | heq := hopen
    · rw [heq]
      exact hwoken
    · rw [heq]
      exact hwoken.of_eq rfl rfl

omit [Fintype τ] in
theorem read (h : Told s) (t : τ) (fd : Nat) (mode : Mode) (len : Nat) :
    Informed s.ring (s.pipecommonRead t fd mode len) := by
  obtain ⟨-, ⟨_, -, heq⟩ | ⟨-, heq⟩⟩ | ⟨hsome, heq⟩ := pipecommonRead_cases s t fd mode len
  · rw [heq]
    exact of_told (h.of_fds rfl) rfl
  · rw [heq]
    exact of_told (h.of_fds rfl) rfl
  · rw [heq]
    have htaken : Told (s.take (readLoop len s.ring).1 (readLoop len s.ring).2).wakeWriters := h.of_fds rfl
    exact (pollout htaken fun hempty => absurd hempty hsome).of_eq rfl rfl

omit [Fintype τ] in
/-- A write that stalls leaves those uninformed who asked for the first bytes. -/
theorem write (h : Told s) (hvalid : s.ring.Valid) (t : τ) (fd : Nat) (mode : Mode) (call : WriteCall)
    (hpolled : s.ring.head = s.ring.tail →
      (writeLoop (call.buffer.drop call.nwritten) s.ring).1 ≠ (call.buffer.drop call.nwritten).length →
      ∀ fds ∈ s.fds, fds.events.pollin → fds.revents.any) :
    Informed s.ring (s.pipecommonWrite t fd mode call) := by
  obtain ⟨-, -, -, hfull⟩ := writeLoop_spec (call.buffer.drop call.nwritten) hvalid
  have hroom := writeLoop_full (call.buffer.drop call.nwritten) s.ring
  generalize hloop : writeLoop (call.buffer.drop call.nwritten) s.ring = result at hfull hpolled hroom
  obtain ⟨n, ring⟩ := result
  obtain ⟨-, heq⟩ | ⟨hstall, u, hu, hwrite⟩ := pipecommonWrite_cases s t fd mode call hloop
  · rw [heq]
    have hplaced : Told (s.place t ((call.buffer.drop call.nwritten).take n) ring).wakeReaders := h.of_fds rfl
    refine (pollin hplaced fun hbefore => ?_).of_eq rfl rfl
    obtain ⟨-, rfl⟩ := Prod.mk.inj (hroom hbefore)
    exact hbefore
  · have hstalled : Informed s.ring u := by
      obtain ⟨-, rfl⟩ | ⟨-, rfl⟩ := hu
      · exact stall (h.of_fds rfl) (hfull hstall) fun hempty => hpolled hempty hstall
      · exact stall (h.of_fds rfl) (hfull hstall) fun hempty => hpolled hempty hstall
    obtain heq | heq := hwrite
    · rw [heq]
      exact hstalled.of_eq rfl rfl
    · rw [heq]
      exact hstalled.of_eq rfl rfl

omit [DecidableEq τ] [Fintype τ] in
theorem pollSetup (h : Told s) (npollwaiters key fd : Nat) (asked : Events) :
    Informed s.ring (s.pollSetup npollwaiters key fd asked) := by
  have hadded : Told (s.addPoller key fd asked) := by
    intro fds hfds
    obtain hold | hnew := mem_append.mp hfds
    · exact h fds hold
    · rw [mem_singleton.mp hnew]
      exact ⟨nofun, nofun⟩
  simp only [Dev.pollSetup]
  split_ifs
  · exact of_told (hadded.pollnotify _) rfl
  · exact of_told hadded rfl
  · exact of_told h rfl

end Informed

end NbLot.Guarantees.PipePollers
