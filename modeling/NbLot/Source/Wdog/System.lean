import NbLot.Lib.Transition
import NbLot.Source.Wdog.Queue

/-!
# Watchdogs over whole runs

Source: nuttx/sched/wdog/wd_start.c:110-183, 222-393, 487-522 (without
CONFIG_SCHED_TICKLESS), wd_cancel.c, wd_delete.c, wd_create.c.

A run is a list of calls and of steps of the timer interrupt. `tick` is the entry of
`wd_timer`, `expire` one pass of the loop of `wd_expiration`, which ends with the call of
a watchdog function, and `leave` the end of that loop. Calls may come at any point, so
those between `tick` and `leave` include the calls made by the watchdog functions.
The log and the counted ticks are not read by the code. A handle is live from
`wd_create` or `wd_static` to `wd_delete`, which assumes that the watchdog is no longer
in use after it.
-/
namespace NbLot.Source.Wdog
open Lib DeltaList List Function

inductive WdAct where
  | wdStatic (w : Nat)
  | wdCreate (irq : Bool) (heap : Nat)
  | wdStart (w : Nat) (delay : Int) (func : Nat) (parms : List Nat)
  | wdCancel (w : Nat)
  | wdDelete (w : Nat)
  | tick
  | expire
  | leave
  deriving DecidableEq, Repr

/-- What can happen to a watchdog: it is started, it is cancelled or deleted, or its
function is called with its parameters. -/
inductive WdHappened where
  | started (delay : Int) (call : Nat × List Nat)
  | stopped
  | ran (call : Nat × List Nat)
  deriving DecidableEq, Repr

structure WdEvent where
  tick : Nat
  wdog : Nat
  what : WdHappened
  deriving DecidableEq, Repr

/-- The log has the latest event first. -/
structure WdSys where
  wd : WdState
  live : Nat → Bool
  ticks : Nat
  expiring : Bool
  log : List WdEvent

def wdBoot : WdSys where
  wd := wdInitialize
  live := fun _ => false
  ticks := 0
  expiring := false
  log := []

namespace WdSys

def event (s : WdSys) (w : Nat) (what : WdHappened) : WdEvent := ⟨s.ticks, w, what⟩

def step (s : WdSys) : WdAct → Option WdSys
  | .wdStatic w => some { s with wd := wdStatic s.wd w, live := Function.update s.live w true }
  | .wdCreate irq heap =>
    let made := wdCreate s.wd irq heap
    if made.2 = 0 then some { s with wd := made.1 }
    else some { s with wd := made.1, live := Function.update s.live made.2 true }
  | .wdStart w delay func parms =>
    match wdStart s.wd w delay func parms with
    | none => none
    | some (_, false) => some s
    | some (wd, true) =>
      some { s with wd := wd, log := s.event w (.started delay (func, parms)) :: s.log }
  | .wdCancel w =>
    match wdCancel s.wd w with
    | none => none
    | some (_, false) => some s
    | some (wd, true) => some { s with wd := wd, log := s.event w .stopped :: s.log }
  | .wdDelete w =>
    match wdDelete s.wd w with
    | none => none
    | some wd =>
      some { s with
        wd := wd, live := Function.update s.live w false, log := s.event w .stopped :: s.log }
  | .tick =>
    if s.expiring = true then none
    else
      match s.wd.activelist with
      | [] => some { s with ticks := s.ticks + 1 }
      | _ :: _ =>
        some { s with wd := decrementHead s.wd 1, ticks := s.ticks + 1, expiring := true }
  | .expire =>
    if s.expiring = true ∧ headExpired s.wd = true then
      let gone := expireHead s.wd
      some { s with wd := gone.1, log := s.event gone.2 (.ran (s.wd.call gone.2)) :: s.log }
    else none
  | .leave =>
    if s.expiring = true ∧ headExpired s.wd = false then some { s with expiring := false } else none

/-- The calls that keep to the interface: a handle that is used is NULL or live, a new
watchdog is not one that is in use, and a delay is an `int32_t`. A tick comes when the
previous one has been handled, and the loop of wd_expiration follows its condition. -/
def Legal (s : WdSys) : WdAct → Prop
  | .wdStatic w => w ≠ 0 ∧ s.live w = false ∧ w ∉ s.wd.freelist
  | .wdCreate _ heap => heap ≠ 0 → s.live heap = false ∧ heap ∉ s.wd.freelist
  | .wdStart w delay _ _ => (w ≠ 0 → s.live w = true) ∧ delay ≤ int32Max
  | .wdCancel w => w ≠ 0 → s.live w = true
  | .wdDelete w => s.live w = true
  | .tick => s.expiring = false
  | .expire => s.expiring = true ∧ headExpired s.wd = true
  | .leave => s.expiring = true ∧ headExpired s.wd = false

instance decidableLegal (s : WdSys) : ∀ a, Decidable (s.Legal a)
  | .wdStatic _ => inferInstanceAs (Decidable (_ ∧ _ ∧ _))
  | .wdCreate _ _ => inferInstanceAs (Decidable (_ → _ ∧ _))
  | .wdStart _ _ _ _ => inferInstanceAs (Decidable ((_ → _) ∧ _))
  | .wdCancel _ => inferInstanceAs (Decidable (_ → _))
  | .wdDelete _ => inferInstanceAs (Decidable (_ = _))
  | .tick => inferInstanceAs (Decidable (_ = _))
  | .expire => inferInstanceAs (Decidable (_ ∧ _))
  | .leave => inferInstanceAs (Decidable (_ ∧ _))

end WdSys

/-- A start that is in effect: its place in the log, its tick, delay and call. -/
structure Start where
  index : Nat
  tick : Nat
  delay : Int
  call : Nat × List Nat

/-- The tick a started watchdog is due at. -/
def Start.due (st : Start) : Int := st.tick + delayTicks st.delay

/-- The start of `w` that was not followed by another event of `w`. -/
def armed : List WdEvent → Nat → Option Start
  | [], _ => none
  | e :: rest, w =>
    if e.wdog = w then
      match e.what with
      | .started delay call => some ⟨rest.length, e.tick, delay, call⟩
      | _ => none
    else armed rest w

/-- `w` was armed and due at this tick, its call is the one given at the start, and no
other armed watchdog due at the tick was started earlier. -/
def RanOk (tick w : Nat) (call : Nat × List Nat) (earlier : List WdEvent) : Prop :=
  ∃ st, armed earlier w = some st ∧ (tick : Int) = st.due ∧ call = st.call ∧
    ∀ x other, x ≠ w → armed earlier x = some other → other.due = st.due → st.index < other.index

/-- Every start in the log has a delay wd_start accepts, and every call in it was right
when it was made. -/
def History : List WdEvent → Prop
  | [] => True
  | e :: rest =>
    (match e.what with
      | .started delay _ => 0 ≤ delay ∧ delay ≤ int32Max
      | .stopped => True
      | .ran call => RanOk e.tick e.wdog call rest) ∧ History rest

/-- `a` is due before `b`, or at the same tick and was started first. -/
def Ahead (log : List WdEvent) (a b : Nat × Int) : Prop :=
  ∀ sa sb, armed log a.1 = some sa → armed log b.1 = some sb →
    sa.due < sb.due ∨ sa.due = sb.due ∧ sa.index < sb.index

/-- The queue is the timetable of the starts in effect. -/
structure Timetable (s : WdSys) : Prop where
  armed : ∀ w, w ∈ s.wd.activelist ↔ (armed s.log w).isSome = true
  agenda : ∀ e ∈ times s.ticks s.wd.entries,
    ∃ st, Wdog.armed s.log e.1 = some st ∧ e.2 = st.due ∧ s.wd.call e.1 = st.call
  order : (times s.ticks s.wd.entries).Pairwise (Ahead s.log)
  history : History s.log

structure Handles (s : WdSys) : Prop where
  live : ∀ w ∈ s.wd.activelist, s.live w = true
  null : s.live 0 = false
  free : ∀ w ∈ s.wd.freelist, s.live w = false ∧ w ≠ 0
  freeNodup : s.wd.freelist.Nodup

structure WdInv (s : WdSys) : Prop where
  queue : Queue s.wd
  handles : Handles s
  head : s.expiring = false → ∀ e ∈ s.wd.entries.head?, 1 ≤ e.2
  timetable : Timetable s

theorem wdBoot_inv : WdInv wdBoot := by
  refine ⟨⟨nodup_nil, ?_, nofun, nofun, by decide⟩, ⟨nofun, rfl, ?_, ?_⟩, nofun,
    ⟨?_, nofun, List.Pairwise.nil, trivial⟩⟩
  · intro w
    exact ⟨nofun, nofun⟩
  · intro w hw
    have : 1 ≤ w := (mem_range'_1.mp hw).1
    exact ⟨rfl, by omega⟩
  · exact nodup_range'
  · intro w
    exact ⟨nofun, nofun⟩

theorem armed_index {log : List WdEvent} {w : Nat} {st : Start} (h : armed log w = some st) :
    st.index < log.length := by
  induction log with
  | nil => cases h
  | cons e rest ih =>
    simp only [armed] at h
    split at h
    · split at h
      · cases h
        exact Nat.lt_succ_self _
      · cases h
    · exact Nat.lt_succ_of_lt (ih h)

theorem armed_other (e : WdEvent) (log : List WdEvent) {x : Nat} (h : x ≠ e.wdog) :
    armed (e :: log) x = armed log x := by
  simp only [armed]
  rw [if_neg (Ne.symm h)]

theorem ahead_other (e : WdEvent) (log : List WdEvent) (a b : Nat × Int) (ha : a.1 ≠ e.wdog)
    (hb : b.1 ≠ e.wdog) : Ahead (e :: log) a b ↔ Ahead log a b := by
  unfold Ahead
  rw [armed_other e log ha, armed_other e log hb]

theorem times_stopped (start : Int) (l : List (Nat × Int)) (w : Nat)
    (hnodup : (l.map Prod.fst).Nodup) :
    (times start (removeLag w l)).Sublist (times start l) ∧
      ∀ e ∈ times start (removeLag w l), e.1 ≠ w := by
  have hkeys : (times start (removeLag w l)).map Prod.fst = (l.map Prod.fst).erase w := by
    rw [map_fst_times, map_fst_removeLag]
  constructor
  · rw [times_removeLag]
    exact eraseP_sublist
  · intro e he heq
    have hmem : e.1 ∈ (times start (removeLag w l)).map Prod.fst := mem_map.mpr ⟨e, he, rfl⟩
    rw [hkeys, heq] at hmem
    exact hnodup.not_mem_erase hmem

variable {s t : WdSys} {w : Nat} (wd : WdState)

theorem Timetable.stop (tt : Timetable s) (q : Queue s.wd) (what : WdHappened)
    (hwhat : ∀ delay call, what ≠ .started delay call) (hstop : Stopped s.wd w t.wd)
    (hticks : t.ticks = s.ticks) (hlog : t.log = s.event w what :: s.log)
    (hhist : History t.log) : Timetable t := by
  obtain ⟨hsub, hkeys⟩ := times_stopped s.ticks s.wd.entries w
    (by rw [map_fst_entries]; exact q.nodup)
  have hlist : ∀ x, x ∈ t.wd.activelist ↔ x ≠ w ∧ x ∈ s.wd.activelist := by
    intro x
    rw [← map_fst_entries t.wd, hstop.entries, map_fst_removeLag, map_fst_entries,
      q.nodup.mem_erase_iff]
  have hself : Wdog.armed t.log w = none := by
    rw [hlog]
    simp only [Wdog.armed, WdSys.event, if_true]
  have hother : ∀ x, x ≠ w → Wdog.armed t.log x = Wdog.armed s.log x := by
    intro x hx
    rw [hlog]
    exact armed_other _ s.log hx
  refine ⟨?_, ?_, ?_, hhist⟩
  · intro x
    rw [hlist]
    by_cases hx : x = w
    · simp [hx, hself]
    · rw [hother x hx, ← tt.armed x]
      simp [hx]
  · rw [hticks, hstop.entries]
    intro e he
    obtain ⟨st, hst, hdue, hcall⟩ := tt.agenda e (hsub.subset he)
    refine ⟨st, ?_, hdue, ?_⟩
    · rw [hother e.1 (hkeys e he), hst]
    · rw [hstop.call, hcall]
  · rw [hticks, hstop.entries, hlog]
    apply (tt.order.sublist hsub).imp_of_mem
    intro a b ha hb hahead
    exact (ahead_other _ s.log a b (hkeys a ha) (hkeys b hb)).mpr hahead

theorem Timetable.start (tt : Timetable s) (q : Queue s.wd) (delay : Int) (call : Nat × List Nat)
    (h0 : 0 ≤ delay) (hmax : delay ≤ int32Max)
    (hstart : Started s.wd w (delayTicks delay) call t.wd) (hticks : t.ticks = s.ticks)
    (hlog : t.log = s.event w (.started delay call) :: s.log) : Timetable t := by
  obtain ⟨hsub, hkeys⟩ := times_stopped s.ticks s.wd.entries w
    (by rw [map_fst_entries]; exact q.nodup)
  have hself : Wdog.armed t.log w = some ⟨s.log.length, s.ticks, delay, call⟩ := by
    rw [hlog]
    simp only [Wdog.armed, WdSys.event, if_true]
  have hother : ∀ x, x ≠ w → Wdog.armed t.log x = Wdog.armed s.log x := by
    intro x hx
    rw [hlog]
    exact armed_other _ s.log hx
  obtain ⟨before, after, hold, hnew, hbefore, hafter⟩ := insertTime_split w
    (s.ticks + delayTicks delay) (times_sorted s.ticks (lag_removeLag w q.lags_entries))
  have htimes : times t.ticks t.wd.entries = before ++ (w, s.ticks + delayTicks delay) :: after := by
    rw [hticks, hstart.entries, times_insertLag, hnew]
  -- the entries around the new one are old ones
  have haround : ∀ e, e ∈ before ∨ e ∈ after → e ∈ times s.ticks s.wd.entries ∧ e.1 ≠ w := by
    intro e he
    have hmem : e ∈ times s.ticks (removeLag w s.wd.entries) := by
      rw [hold]
      exact mem_append.mpr he
    exact ⟨hsub.subset hmem, hkeys e hmem⟩
  have hahead : ∀ a b, (a ∈ before ∨ a ∈ after) → (b ∈ before ∨ b ∈ after) →
      Ahead s.log a b → Ahead t.log a b := by
    intro a b ha hb h
    rw [hlog]
    exact (ahead_other _ s.log a b (haround a ha).2 (haround b hb).2).mpr h
  refine ⟨?_, ?_, ?_, ?_⟩
  · intro x
    rw [← map_fst_entries t.wd, hstart.entries, mem_insertLag, map_fst_removeLag,
      map_fst_entries]
    by_cases hx : x = w
    · simp [hx, hself]
    · rw [hother x hx, ← tt.armed x]
      simp [hx]
  · rw [htimes]
    intro e he
    have hcases : e = (w, s.ticks + delayTicks delay) ∨ e ∈ before ∨ e ∈ after := by
      simp only [mem_append, mem_cons] at he
      tauto
    cases hcases with
    | inl he =>
      refine ⟨⟨s.log.length, s.ticks, delay, call⟩, ?_, ?_, ?_⟩
      · rw [he, hself]
      · rw [he]
        rfl
      · rw [he, hstart.call, if_pos rfl]
    | inr he =>
      obtain ⟨hmem, hne⟩ := haround e he
      obtain ⟨st, hst, hdue, hcall⟩ := tt.agenda e hmem
      refine ⟨st, by rw [hother e.1 hne, hst], hdue, ?_⟩
      rw [hstart.call, if_neg hne, hcall]
  · have horder := tt.order.sublist hsub
    rw [hold, pairwise_append] at horder
    rw [htimes, pairwise_append, pairwise_cons]
    refine ⟨?_, ⟨?_, ?_⟩, ?_⟩
    · exact horder.1.imp_of_mem fun ha hb h => hahead _ _ (.inl ha) (.inl hb) h
    · intro b hb sa sb ha hsb
      obtain ⟨hmem, hne⟩ := haround b (.inr hb)
      obtain ⟨st, hst, hdue, _⟩ := tt.agenda b hmem
      rw [hself] at ha
      rw [hother b.1 hne, hst] at hsb
      cases ha
      cases hsb
      left
      rw [← hdue]
      exact hafter b hb
    · exact horder.2.1.imp_of_mem fun ha hb h => hahead _ _ (.inr ha) (.inr hb) h
    · intro a ha b hb
      cases mem_cons.mp hb with
      | inr hb => exact hahead a b (.inl ha) (.inr hb) (horder.2.2 a ha b hb)
      | inl hb =>
        obtain ⟨hmem, hne⟩ := haround a (.inl ha)
        obtain ⟨st, hst, hdue, _⟩ := tt.agenda a hmem
        have hle := hbefore a ha
        intro sa sb hsa hsb
        rw [hother a.1 hne, hst] at hsa
        rw [hb, hself] at hsb
        cases hsa
        cases hsb
        have hindex := armed_index hst
        have hnew : Start.due ⟨s.log.length, s.ticks, delay, call⟩ = s.ticks + delayTicks delay :=
          rfl
        simp only
        omega
  · rw [hlog]
    exact ⟨⟨h0, hmax⟩, tt.history⟩

theorem decrementHead_entries (head : Nat) (rest : List Nat) (decr : Int)
    (hlist : wd.activelist = head :: rest) (hnodup : wd.activelist.Nodup) :
    (decrementHead wd decr).entries = (head, wd.lag head - decr) :: rest.map fun x => (x, wd.lag x) := by
  rw [hlist, nodup_cons] at hnodup
  unfold decrementHead WdState.entries
  simp only [hlist, WdState.setLag_activelist, WdState.setLag_lag, map_cons]
  congr 1
  apply map_congr_left
  intro x hx
  have hne : x ≠ head := fun heq => hnodup.1 (heq ▸ hx)
  rw [if_neg hne]

theorem decrementHead_isActive (decr : Int) (x : Nat) :
    ((decrementHead wd decr).wdog x).isActive = (wd.wdog x).isActive := by
  unfold decrementHead
  split
  · rfl
  · simp

theorem decrementHead_call (decr : Int) (x : Nat) : (decrementHead wd decr).call x = wd.call x := by
  unfold decrementHead
  split
  · rfl
  · simp

theorem decrementHead_freelist (decr : Int) : (decrementHead wd decr).freelist = wd.freelist := by
  unfold decrementHead
  split
  · rfl
  · rfl

/-- The head's lag may go down to zero; time passes and no watchdog is due earlier. -/
theorem Queue.decrementHead {wd : WdState} (q : Queue wd) (head : Nat) (rest : List Nat)
    (decr : Int) (hlist : wd.activelist = head :: rest) (h0 : 0 ≤ decr)
    (hdecr : decr ≤ wd.lag head) :
    Queue (Wdog.decrementHead wd decr) ∧
      ∀ start, times (start + decr) (Wdog.decrementHead wd decr).entries =
        times start wd.entries := by
  have hentries := decrementHead_entries wd head rest decr hlist q.nodup
  have hold : wd.entries = (head, wd.lag head) :: rest.map fun x => (x, wd.lag x) := by
    unfold WdState.entries
    rw [hlist]
    rfl
  have hkeys : (Wdog.decrementHead wd decr).entries.map Prod.fst = wd.entries.map Prod.fst := by
    rw [hentries, hold]
    rfl
  have hlags := q.lags_entries
  have hbound := q.bound
  rw [hold] at hlags hbound
  constructor
  · apply Queue.of_entries
    · rw [hkeys, map_fst_entries]
      exact q.nodup
    · intro w
      rw [hkeys, map_fst_entries, decrementHead_isActive]
      exact q.flag w
    · rw [hkeys, map_fst_entries]
      exact q.null
    · rw [hentries]
      intro e he
      cases mem_cons.mp he with
      | inl h =>
        rw [h]
        omega
      | inr h => exact hlags e (mem_cons_of_mem _ h)
    · rw [hentries]
      simp only [total] at hbound ⊢
      omega
  · intro start
    rw [hentries, hold]
    have hsum : start + decr + (wd.lag head - decr) = start + wd.lag head := by omega
    simp only [times, hsum]

theorem set_flags_lag (w x : Nat) (active alloced static : Bool) :
    (wd.set w { wd.wdog w with
      isActive := active, isAlloced := alloced, isStatic := static }).lag x = wd.lag x := by
  unfold WdState.lag WdState.set
  by_cases hx : x = w
  · simp [hx]
  · simp [hx]

variable (inv : WdInv s)
include inv

theorem WdInv.stop (what : WdHappened)
    (hwhat : ∀ delay call, what ≠ .started delay call) (hstop : Stopped s.wd w t.wd)
    (hlive : t.live = s.live) (hticks : t.ticks = s.ticks) (hexp : t.expiring = s.expiring)
    (hlog : t.log = s.event w what :: s.log) (hhist : History t.log) : WdInv t := by
  have hsub : ∀ x ∈ t.wd.activelist, x ∈ s.wd.activelist := by
    intro x hx
    rw [← map_fst_entries t.wd, hstop.entries, map_fst_removeLag, map_fst_entries] at hx
    exact mem_of_mem_erase hx
  refine ⟨inv.queue.stopped hstop, ⟨?_, ?_, ?_, ?_⟩, ?_,
    inv.timetable.stop inv.queue what hwhat hstop hticks hlog hhist⟩
  · intro x hx
    rw [hlive]
    exact inv.handles.live x (hsub x hx)
  · rw [hlive]
    exact inv.handles.null
  · rw [hstop.freelist, hlive]
    exact inv.handles.free
  · rw [hstop.freelist]
    exact inv.handles.freeNodup
  · intro h
    rw [hexp] at h
    rw [hstop.entries]
    exact head_removeLag w inv.queue.lags_entries (inv.head h)

theorem WdInv.start (delay : Int) (call : Nat × List Nat) (hw : w ≠ 0)
    (h0 : 0 ≤ delay) (hmax : delay ≤ int32Max) (hwlive : s.live w = true)
    (hstart : Started s.wd w (delayTicks delay) call t.wd) (hlive : t.live = s.live)
    (hticks : t.ticks = s.ticks) (hexp : t.expiring = s.expiring)
    (hlog : t.log = s.event w (.started delay call) :: s.log) : WdInv t := by
  have hdelay := delayTicks_eq h0 hmax
  have hint : (1 : Int) ≤ int32Max := by decide
  have hmem : ∀ x ∈ t.wd.activelist, x = w ∨ x ∈ s.wd.activelist := by
    intro x hx
    rw [← map_fst_entries t.wd, hstart.entries, mem_insertLag, map_fst_removeLag,
      map_fst_entries] at hx
    exact hx.imp_right mem_of_mem_erase
  refine ⟨inv.queue.started hstart hw (by omega) (by omega), ⟨?_, ?_, ?_, ?_⟩, ?_,
    inv.timetable.start inv.queue delay call h0 hmax hstart hticks hlog⟩
  · intro x hx
    rw [hlive]
    cases hmem x hx with
    | inl h => rw [h, hwlive]
    | inr h => exact inv.handles.live x h
  · rw [hlive]
    exact inv.handles.null
  · rw [hstart.freelist, hlive]
    exact inv.handles.free
  · rw [hstart.freelist]
    exact inv.handles.freeNodup
  · intro h
    rw [hexp] at h
    rw [hstart.entries]
    exact head_insertLag w _ (by omega)
      (head_removeLag w inv.queue.lags_entries (inv.head h))

/-- A change of handles, of the free list or of an inactive watchdog. -/
theorem WdInv.same (hlist : t.wd.activelist = s.wd.activelist)
    (hlag : ∀ x, t.wd.lag x = s.wd.lag x)
    (hactive : ∀ x, (t.wd.wdog x).isActive = (s.wd.wdog x).isActive)
    (hcall : ∀ x, t.wd.call x = s.wd.call x) (hticks : t.ticks = s.ticks)
    (hexp : t.expiring = s.expiring) (hlog : t.log = s.log) (hhandles : Handles t) : WdInv t := by
  have hentries : t.wd.entries = s.wd.entries := by
    unfold WdState.entries
    simp only [hlist, hlag]
  refine ⟨⟨?_, ?_, ?_, ?_, ?_⟩, hhandles, ?_, ⟨?_, ?_, ?_, ?_⟩⟩
  · rw [hlist]
    exact inv.queue.nodup
  · intro w
    rw [hlist, hactive]
    exact inv.queue.flag w
  · rw [hlist]
    exact inv.queue.null
  · intro w hw
    rw [hlist] at hw
    rw [hlag]
    exact inv.queue.lags w hw
  · rw [hentries]
    exact inv.queue.bound
  · rw [hentries, hexp]
    exact inv.head
  · intro w
    rw [hlist, hlog]
    exact inv.timetable.armed w
  · rw [hticks, hentries, hlog]
    simp only [hcall]
    exact inv.timetable.agenda
  · rw [hticks, hentries, hlog]
    exact inv.timetable.order
  · rw [hlog]
    exact inv.timetable.history

theorem WdInv.handOut (alloced static : Bool) (freelist : List Nat) (nfree : Nat)
    (hw : w ≠ 0) (hdead : s.live w = false) (hfree : freelist.Sublist s.wd.freelist)
    (hnot : w ∉ freelist)
    (ht : t = { s with
      wd := { s.wd with freelist := freelist, nfree := nfree }.set w
        { s.wd.wdog w with isActive := false, isAlloced := alloced, isStatic := static }
      live := update s.live w true }) : WdInv t ∧ dueCount t.wd.entries ≤ dueCount s.wd.entries := by
  have hinactive : w ∉ s.wd.activelist := by
    intro hmem
    have := inv.handles.live w hmem
    rw [hdead] at this
    cases this
  have hlag := set_flags_lag { s.wd with freelist := freelist, nfree := nfree } w
  rw [ht]
  refine ⟨?_, Nat.le_of_eq ?_⟩
  swap
  · unfold WdState.entries
    simp only [hlag]
    rfl
  apply inv.same
  · rfl
  · exact fun x => hlag x false alloced static
  · intro x
    unfold WdState.set
    by_cases hx : x = w
    · simp only [hx, update_self]
      rw [eq_comm, Bool.eq_false_iff]
      exact fun h => hinactive ((inv.queue.flag w).mp h)
    · simp [hx]
  · intro x
    unfold WdState.call WdState.set
    by_cases hx : x = w
    · simp [hx]
    · simp [hx]
  · rfl
  · rfl
  · rfl
  · refine ⟨?_, ?_, ?_, ?_⟩
    · intro x hx
      have hne : x ≠ w := fun heq => hinactive (heq ▸ hx)
      simp only [update_of_ne hne]
      exact inv.handles.live x hx
    · simp only [update_of_ne (Ne.symm hw)]
      exact inv.handles.null
    · intro x hx
      have hne : x ≠ w := fun heq => hnot (heq ▸ hx)
      simp only [update_of_ne hne]
      exact inv.handles.free x (hfree.subset hx)
    · exact inv.handles.freeNodup.sublist hfree

theorem step_wdCreate (irq : Bool) (heap : Nat) (h : s.Legal (.wdCreate irq heap)) :
    ∃ t, s.step (.wdCreate irq heap) = some t ∧ WdInv t ∧ dueCount t.wd.entries ≤ dueCount s.wd.entries := by
  simp only [WdSys.step, wdCreate]
  split
  · cases hfree : s.wd.freelist with
    | nil => exact ⟨s, by simp, inv, le_rfl⟩
    | cons w rest =>
      have hw := inv.handles.free w (by rw [hfree]; exact mem_cons_self)
      have hnodup := inv.handles.freeNodup
      rw [hfree, nodup_cons] at hnodup
      simp only [hw.2]
      refine ⟨_, rfl, inv.handOut false false rest _ hw.2 hw.1 ?_ hnodup.1 rfl⟩
      rw [hfree]
      exact sublist_cons_self w rest
  · by_cases hheap : heap = 0
    · simp only [hheap]
      exact ⟨s, rfl, inv, le_rfl⟩
    · simp only [hheap, if_false]
      have hfresh := h hheap
      exact ⟨_, rfl, inv.handOut true false s.wd.freelist s.wd.nfree hheap hfresh.1
        (List.Sublist.refl _) hfresh.2 rfl⟩

theorem step_wdDelete (h : s.live w = true) :
    ∃ t, s.step (.wdDelete w) = some t ∧ WdInv t ∧ dueCount t.wd.entries ≤ dueCount s.wd.entries := by
  obtain ⟨wd, wd', hdelete, hstop, hwdog, hlist, hfree⟩ := wdDelete_spec inv.queue w
  have hw : w ≠ 0 := by
    intro heq
    rw [heq, inv.handles.null] at h
    cases h
  have hmid : WdInv { s with wd := wd, log := s.event w .stopped :: s.log } :=
    inv.stop .stopped nofun hstop rfl rfl rfl rfl ⟨trivial, inv.timetable.history⟩
  have hgone := hstop.not_mem inv.queue
  simp only [WdSys.step, hdelete]
  refine ⟨_, rfl, ?_, ?_⟩
  swap
  · have hentries : wd'.entries = wd.entries := by
      unfold WdState.entries WdState.lag
      simp only [hlist, hwdog]
    rw [hentries]
    exact hstop.dueCount_le inv.queue
  refine hmid.same ?_ ?_ ?_ ?_ ?_ ?_ ?_ ⟨?_, ?_, ?_, ?_⟩
  · exact hlist
  · intro x
    unfold WdState.lag
    simp only [hwdog]
  · intro x
    simp only [hwdog]
  · intro x
    unfold WdState.call
    simp only [hwdog]
  · rfl
  · rfl
  · rfl
  · intro x hx
    simp only [hlist] at hx
    have hne : x ≠ w := fun heq => hgone (heq ▸ hx)
    simp only [update_of_ne hne]
    exact hmid.handles.live x hx
  · simp only [update_of_ne (Ne.symm hw)]
    exact inv.handles.null
  · intro x hx
    have hcases : x ∈ wd.freelist ∨ x = w := by
      cases hfree with
      | inl hf =>
        left
        rw [← hf]
        exact hx
      | inr hf =>
        simp only [hf, mem_append, mem_singleton] at hx
        exact hx
    cases hcases with
    | inl hx =>
      have hdead := hmid.handles.free x hx
      refine ⟨?_, hdead.2⟩
      by_cases hxw : x = w
      · rw [hxw]
        exact update_self ..
      · simp only [update_of_ne hxw]
        exact hdead.1
    | inr hx =>
      rw [hx]
      exact ⟨update_self .., hw⟩
  · have hnodup := hmid.handles.freeNodup
    cases hfree with
    | inl hf =>
      simp only [hf]
      exact hnodup
    | inr hf =>
      simp only [hf]
      rw [nodup_append]
      refine ⟨hnodup, by simp, ?_⟩
      intro x hx y hy heq
      rw [mem_singleton] at hy
      have hdead := (hmid.handles.free x hx).1
      rw [heq, hy] at hdead
      simp only [h] at hdead
      cases hdead

theorem step_tick (h : s.expiring = false) :
    ∃ t, s.step .tick = some t ∧ WdInv t := by
  simp only [WdSys.step, h]
  cases hlist : s.wd.activelist with
  | nil =>
    refine ⟨_, rfl, inv.queue, ⟨?_, inv.handles.null, inv.handles.free, inv.handles.freeNodup⟩,
      ?_, ⟨inv.timetable.armed, ?_, ?_, inv.timetable.history⟩⟩
    · exact inv.handles.live
    · exact fun _ => inv.head h
    · simp [WdState.entries, hlist, times]
    · simp [WdState.entries, hlist, times]
  | cons head rest =>
    have hfirst : 1 ≤ s.wd.lag head := by
      apply inv.head h (head, s.wd.lag head)
      unfold WdState.entries
      rw [hlist]
      rfl
    obtain ⟨hqueue, htimes⟩ := inv.queue.decrementHead head rest 1 hlist (by decide) hfirst
    have hactive : (decrementHead s.wd 1).activelist = s.wd.activelist := by
      unfold decrementHead
      simp only [hlist]
      rw [WdState.setLag_activelist, hlist]
    have hnow := htimes s.ticks
    refine ⟨_, rfl, hqueue, ⟨?_, inv.handles.null, ?_, ?_⟩, by simp, ⟨?_, ?_, ?_,
      inv.timetable.history⟩⟩
    · simp only [hactive]
      exact inv.handles.live
    · simp only [decrementHead_freelist]
      exact inv.handles.free
    · simp only [decrementHead_freelist]
      exact inv.handles.freeNodup
    · simp only [hactive]
      exact inv.timetable.armed
    · simp only [Nat.cast_add, Nat.cast_one, hnow, decrementHead_call]
      exact inv.timetable.agenda
    · simp only [Nat.cast_add, Nat.cast_one, hnow]
      exact inv.timetable.order

/-- The watchdog taken out of the queue by wd_expiration is due now and was started
before all others that are due now. -/
theorem step_expire (h : s.expiring = true ∧ headExpired s.wd = true) :
    ∃ t, s.step .expire = some t ∧ WdInv t ∧
      dueCount t.wd.entries + 1 ≤ dueCount s.wd.entries := by
  simp only [WdSys.step]
  rw [if_pos h]
  obtain ⟨head, rest, hlist, -, hentries⟩ := headExpired_entries inv.queue h.2
  obtain ⟨hhead, hstop⟩ := expireHead_spec inv.queue hlist
  have htimes : times s.ticks s.wd.entries =
      (head, (s.ticks : Int)) :: times s.ticks (rest.map fun x => (x, s.wd.lag x)) := by
    rw [hentries]
    simp only [times, Int.add_zero]
  have hagenda := inv.timetable.agenda
  have horder := inv.timetable.order
  rw [htimes] at hagenda horder
  obtain ⟨st, hst, hdue, hcall⟩ := hagenda (head, (s.ticks : Int)) mem_cons_self
  rw [hhead]
  refine ⟨_, rfl, inv.stop (.ran (s.wd.call head)) (by simp) hstop rfl rfl rfl rfl
    ⟨⟨st, hst, hdue, hcall, ?_⟩, inv.timetable.history⟩, dueCount_expired inv.queue h.2⟩
  intro x other hx hother hsame
  -- the other watchdog is armed, so it is in the queue, behind the head
  have hmem : x ∈ s.wd.activelist := by
    rw [inv.timetable.armed, hother]
    rfl
  rw [← map_fst_entries, ← map_fst_times s.ticks, htimes, map_cons, mem_cons] at hmem
  obtain ⟨e, he, hex⟩ := mem_map.mp (hmem.resolve_left hx)
  have hahead := (pairwise_cons.mp horder).1 e he st other hst (by rw [hex]; exact hother)
  omega

theorem step_leave (h : s.expiring = true ∧ headExpired s.wd = false) :
    ∃ t, s.step .leave = some t ∧ WdInv t ∧ dueCount t.wd.entries ≤ dueCount s.wd.entries := by
  simp only [WdSys.step]
  rw [if_pos h]
  refine ⟨_, rfl, ⟨inv.queue, ⟨inv.handles.live, inv.handles.null, inv.handles.free,
    inv.handles.freeNodup⟩, ?_, ⟨inv.timetable.armed, inv.timetable.agenda,
    inv.timetable.order, inv.timetable.history⟩⟩, le_rfl⟩
  exact fun _ => headExpired_false h.2

theorem step_wdStart (delay : Int) (func : Nat) (parms : List Nat)
    (hlive : w ≠ 0 → s.live w = true) (hmax : delay ≤ int32Max) :
    ∃ t, s.step (.wdStart w delay func parms) = some t ∧ WdInv t ∧ dueCount t.wd.entries ≤ dueCount s.wd.entries := by
  simp only [WdSys.step]
  by_cases hrefused : w = 0 ∨ maxWdogParms < parms.length ∨ delay < 0
  · rw [wdStart_refused s.wd func parms hrefused]
    exact ⟨s, rfl, inv, le_rfl⟩
  · have hw : w ≠ 0 := fun heq => hrefused (.inl heq)
    have h0 : 0 ≤ delay := by omega
    have hint : (1 : Int) ≤ int32Max := by decide
    have hticks := delayTicks_eq h0 hmax
    obtain ⟨wd, hstart, hstarted⟩ := wdStart_spec inv.queue delay func parms hw (by omega) h0
    rw [hstart]
    exact ⟨_, rfl, inv.start delay (func, parms) hw h0 hmax (hlive hw) hstarted rfl rfl rfl rfl,
      hstarted.dueCount_le inv.queue (by omega)⟩

theorem step_wdCancel (w : Nat) :
    ∃ t, s.step (.wdCancel w) = some t ∧ WdInv t ∧ dueCount t.wd.entries ≤ dueCount s.wd.entries := by
  simp only [WdSys.step]
  by_cases hw : w ∈ s.wd.activelist
  · obtain ⟨wd, hcancel, hstop⟩ := wdCancel_active inv.queue hw
    rw [hcancel]
    exact ⟨_, rfl, inv.stop .stopped nofun hstop rfl rfl rfl rfl ⟨trivial, inv.timetable.history⟩,
      hstop.dueCount_le inv.queue⟩
  · rw [wdCancel_inactive inv.queue hw]
    exact ⟨s, rfl, inv, le_rfl⟩

theorem step_call (a : WdAct) (h : s.Legal a) (htick : a ≠ .tick)
    (hexpire : a ≠ .expire) : ∃ t, s.step a = some t ∧ WdInv t ∧ dueCount t.wd.entries ≤ dueCount s.wd.entries := by
  cases a with
  | wdStatic w =>
    exact ⟨_, rfl, inv.handOut false true s.wd.freelist s.wd.nfree h.1 h.2.1
      (List.Sublist.refl _) h.2.2 rfl⟩
  | wdCreate irq heap => exact step_wdCreate inv irq heap h
  | wdStart w delay func parms => exact step_wdStart inv delay func parms h.1 h.2
  | wdCancel w => exact step_wdCancel inv w
  | wdDelete w => exact step_wdDelete inv h
  | tick => exact absurd rfl htick
  | expire => exact absurd rfl hexpire
  | leave => exact step_leave inv h

theorem wd_step (a : WdAct) (h : s.Legal a) : ∃ t, s.step a = some t ∧ WdInv t := by
  by_cases htick : a = .tick
  · rw [htick] at h ⊢
    exact step_tick inv h
  · by_cases hexpire : a = .expire
    · rw [hexpire] at h ⊢
      obtain ⟨t, hstep, hinv, _⟩ := step_expire inv h
      exact ⟨t, hstep, hinv⟩
    · obtain ⟨t, hstep, hinv, _⟩ := step_call inv a h htick hexpire
      exact ⟨t, hstep, hinv⟩

end NbLot.Source.Wdog
