import NbLot.Source.Mqueue.Moves

/-!
# Where the message structures are

A structure is in one of the two lists of free ones, in a queue, or with a task that is
inside a call. `Owned` says that it is in one place only, that the structures allocated at
boot are somewhere, those from the heap as long as the heap has them given out, that the
lists of free ones hold their own only, and that `nmsgs` is the length of the queue.
-/
namespace NbLot.Source.Mqueue

open Lib.Mailbox Lib.Places Source.Sched List Function

/-- Where a message structure can be. -/
inductive Store where
  | free
  | freeirq
  | queue (msgq : Nat)
  | task (tcb : Nat)

def MqData.contents (d : MqData) : Store → List Nat
  | .free => d.msgfree
  | .freeirq => d.msgfreeirq
  | .queue msgq => d.msglist msgq
  | .task tcb => (d.pc tcb).held.toList

/-- The pool that a structure comes from. -/
def home (mqmsg : Nat) : MqAlloc :=
  if mqmsg < preallocMqMsgs then .fixed else if mqmsg < numPrealloc then .irq else .dyn

/-- The lists of free structures are for those of one pool. -/
def Store.Accepts : Store → Nat → Prop
  | .free, mqmsg => home mqmsg = .fixed
  | .freeirq, mqmsg => home mqmsg = .irq
  | _, _ => True

/-- The invariant of the message structures. -/
structure Owned (d : MqData) : Prop where
  apart : Apart d.contents
  accepted : ∀ p, ∀ m ∈ d.contents p, p.Accepts m
  typed : ∀ p, ∀ m ∈ d.contents p, (d.mqmsg m).type = home m
  kept : ∀ m, home m ≠ .dyn → ∃ p, m ∈ d.contents p
  dynamic : ∀ m, m ∈ d.heap ↔ home m = .dyn ∧ ∃ p, m ∈ d.contents p
  heap_nodup : d.heap.Nodup
  heap_le : d.heap.length ≤ dynMsgsMax
  count : ∀ msgq, d.nmsgs msgq = (d.msglist msgq).length

variable {d d' d₁ : MqData} {t mqmsg msgq m : Nat} {pc : Pc} {p q : Store} {o : Outgoing}

theorem home_eq_fixed : home m = .fixed ↔ m < preallocMqMsgs := by
  unfold home
  split
  · simp [*]
  · split <;> simp [*]

theorem home_eq_irq : home m = .irq ↔ preallocMqMsgs ≤ m ∧ m < numPrealloc := by
  unfold home
  split
  · simp
    omega
  · split <;> simp <;> omega

theorem home_eq_dyn : home m = .dyn ↔ numPrealloc ≤ m := by
  unfold home
  split
  · next h =>
    simp only [reduceCtorEq, numPrealloc, false_iff]
    omega
  · split <;> simp <;> omega

theorem contents_setPc_of_ne (hp : p ≠ .task t) : (d.setPc t pc).contents p = d.contents p := by
  cases p with
  | task u =>
    have hu : u ≠ t := fun heq => hp (congrArg _ heq)
    simp [MqData.contents, hu]
  | _ => rfl

@[simp]
theorem contents_setPc_self : (d.setPc t pc).contents (.task t) = pc.held.toList := by
  simp [MqData.contents]

theorem contents_task (h : (d.pc t).held = some mqmsg) : d.contents (.task t) = [mqmsg] := by
  simp [MqData.contents, h]

theorem contents_task_none (h : (d.pc t).held = none) : d.contents (.task t) = [] := by
  simp [MqData.contents, h]

section

variable (h : Owned d)
include h

theorem Owned.length_le (msgq : Nat) : (d.msglist msgq).length ≤ numPrealloc + dynMsgsMax := by
  have hsub : d.msglist msgq ⊆ List.range numPrealloc ++ d.heap := by
    intro m hm
    rw [mem_append, mem_range]
    rcases Nat.lt_or_ge m numPrealloc with hlt | hge
    · exact .inl hlt
    · exact .inr ((h.dynamic m).mpr ⟨home_eq_dyn.mpr hge, .queue msgq, hm⟩)
  have hle := (subperm_of_subset (h.apart.nodup (.queue msgq)) hsub).length_le
  rw [length_append] at hle
  exact hle.trans (Nat.add_le_add_left h.heap_le _)

theorem Owned.handed {a : Nat} (hm : Handed d.contents d'.contents p q a) (haccepts : q.Accepts a)
    (htype : ∀ m, (d'.mqmsg m).type = (d.mqmsg m).type) (hheap : d'.heap = d.heap)
    (hcount : ∀ k, d'.nmsgs k = (d'.msglist k).length) :
    Owned d' where
  apart := hm.apart h.apart
  accepted r m hr := by
    rcases hm.mem hr with hr | ⟨rfl, rfl⟩
    · exact h.accepted r m hr
    · exact haccepts
  typed r m hr := by
    obtain ⟨r', hr'⟩ := hm.placed_iff.mp ⟨r, hr⟩
    rw [htype, h.typed r' m hr']
  kept m hm' := hm.placed_iff.mpr (h.kept m hm')
  dynamic m := by rw [hheap, h.dynamic, hm.placed_iff]
  heap_nodup := hheap ▸ h.heap_nodup
  heap_le := hheap ▸ h.heap_le
  count := hcount

theorem Owned.congr (hcontents : d'.contents = d.contents) (hmqmsg : d'.mqmsg = d.mqmsg)
    (hheap : d'.heap = d.heap) (hnmsgs : d'.nmsgs = d.nmsgs) : Owned d' := by
  have hlist : ∀ k, d'.msglist k = d.msglist k := fun k => congrFun hcontents (.queue k)
  refine ⟨hcontents ▸ h.apart, hcontents ▸ h.accepted, hcontents ▸ hmqmsg ▸ h.typed,
    hcontents ▸ h.kept, hcontents ▸ hheap ▸ h.dynamic, hheap ▸ h.heap_nodup,
    hheap ▸ h.heap_le, fun k => ?_⟩
  rw [hnmsgs, hlist, h.count]

theorem Owned.setPc (hheld : pc.held = (d.pc t).held) : Owned (d.setPc t pc) := by
  refine h.congr (funext fun p => ?_) rfl rfl rfl
  by_cases hp : p = .task t
  · subst hp
    rw [contents_setPc_self, hheld]
    rfl
  · exact contents_setPc_of_ne hp

theorem Owned.alloc {msgfree : List Nat} (hfree : d.msgfree = mqmsg :: msgfree)
    (hnone : (d.pc t).held = none) (hheld : pc.held = some mqmsg) :
    Owned ((d.setMsgfree msgfree).setPc t pc) := by
  refine h.handed (p := .free) (q := .task t) (a := mqmsg) ⟨by simp, ?_, ?_, ?_⟩ trivial
    (fun m => rfl) rfl h.count
  · intro r hr ht
    rw [contents_setPc_of_ne ht]
    cases r with
    | free => exact absurd rfl hr
    | _ => rfl
  · exact hfree ▸ List.Perm.refl _
  · rw [contents_setPc_self, hheld, contents_task_none hnone]
    exact List.Perm.refl _

theorem Owned.malloc (hunused : d.Unused (some mqmsg)) (hnone : (d.pc t).held = none)
    (hheld : pc.held = some mqmsg) :
    Owned (((d.setHeap (mqmsg :: d.heap)).setMqmsg mqmsg
      { d.mqmsg mqmsg with type := .dyn }).setPc t pc) := by
  obtain ⟨hge, hnot, hroom⟩ := hunused mqmsg rfl
  have hdyn := home_eq_dyn.mpr hge
  have hnew : ∀ r, mqmsg ∉ d.contents r := fun r hr =>
    hnot ((h.dynamic mqmsg).mpr ⟨hdyn, r, hr⟩)
  generalize hd' : (((d.setHeap _).setMqmsg mqmsg _).setPc t pc) = d'
  have hother : ∀ r, r ≠ .task t → d'.contents r = d.contents r := by
    intro r hr
    rw [← hd', contents_setPc_of_ne hr]
    cases r <;> rfl
  have hself : d'.contents (.task t) = [mqmsg] := by
    rw [← hd', contents_setPc_self, hheld]
    rfl
  have hmem : ∀ r m, m ∈ d'.contents r ↔ (r = .task t ∧ m = mqmsg) ∨ m ∈ d.contents r := by
    intro r m
    by_cases hr : r = .task t
    · subst hr
      simp [hself, contents_task_none hnone]
    · simp [hother r hr, hr]
  subst hd'
  refine ⟨?_, fun r m hr => ?_, fun r m hr => ?_, fun m hm => ?_, fun m => ?_, ?_, ?_, h.count⟩
  · exact h.apart.add hnew hother (by rw [hself, contents_task_none hnone])
  · rcases (hmem r m).mp hr with ⟨rfl, -⟩ | hr
    · trivial
    · exact h.accepted r m hr
  · rcases (hmem r m).mp hr with ⟨-, rfl⟩ | hr
    · simp [hdyn]
    · have hne : m ≠ mqmsg := fun heq => hnew r (heq ▸ hr)
      simpa [hne] using h.typed r m hr
  · obtain ⟨r, hr⟩ := h.kept m hm
    exact ⟨r, (hmem r m).mpr (.inr hr)⟩
  · simp only [MqData.setPc_heap, MqData.setMqmsg_heap, MqData.setHeap_heap, mem_cons,
      h.dynamic m, hmem]
    by_cases hm : m = mqmsg
    · simp [hm, hdyn]
    · simp [hm]
  · exact nodup_cons.mpr ⟨hnot, h.heap_nodup⟩
  · exact hroom

theorem Owned.free (hheld : (d.pc t).held = some mqmsg) (hnone : pc.held = none) :
    Owned ((mqMsgfree d mqmsg).setPc t pc) := by
  have hmem : mqmsg ∈ d.contents (.task t) := by simp [contents_task hheld]
  have htype := h.typed _ _ hmem
  have hself : ∀ d₁ : MqData, (d₁.setPc t pc).contents (.task t) = [] := by
    intro d₁
    rw [contents_setPc_self, hnone]
    rfl
  unfold mqMsgfree
  split
  · next hfixed =>
    -- back to the list of free structures
    rw [htype] at hfixed
    refine h.handed (p := .task t) (q := .free) ⟨by simp, ?_, ?_, ?_⟩ hfixed
      (fun m => rfl) rfl h.count
    · intro r ht hr
      rw [contents_setPc_of_ne ht]
      cases r with
      | free => exact absurd rfl hr
      | _ => rfl
    · rw [hself, contents_task hheld]
    · exact perm_append_singleton mqmsg d.msgfree
  · next hirq =>
    rw [htype] at hirq
    refine h.handed (p := .task t) (q := .freeirq) ⟨by simp, ?_, ?_, ?_⟩ hirq
      (fun m => rfl) rfl h.count
    · intro r ht hr
      rw [contents_setPc_of_ne ht]
      cases r with
      | freeirq => exact absurd rfl hr
      | _ => rfl
    · rw [hself, contents_task hheld]
    · exact perm_append_singleton mqmsg d.msgfreeirq
  · next hdyn =>
    -- the heap has it back, and it is in no place any more
    rw [htype] at hdyn
    have hother : ∀ r, r ≠ .task t →
        ((d.setHeap (d.heap.erase mqmsg)).setPc t pc).contents r = d.contents r := by
      intro r hr
      rw [contents_setPc_of_ne hr]
      cases r <;> rfl
    have hsub : ∀ r m, m ∈ ((d.setHeap (d.heap.erase mqmsg)).setPc t pc).contents r ↔
        m ≠ mqmsg ∧ m ∈ d.contents r := by
      intro r m
      by_cases hr : r = .task t
      · subst hr
        simp [hself, contents_task hheld]
      · rw [hother r hr]
        refine ⟨fun hm => ⟨fun heq => hr ?_, hm⟩, fun hm => hm.2⟩
        exact h.apart.disjoint r (.task t) mqmsg (heq ▸ hm) hmem
    refine ⟨?_, fun r m hr => ?_, fun r m hr => ?_, fun m hm => ?_, fun m => ?_, ?_, ?_, h.count⟩
    · exact (h.apart.drop hother (by rw [hself, contents_task hheld])).1
    · exact h.accepted r m ((hsub r m).mp hr).2
    · exact h.typed r m ((hsub r m).mp hr).2
    · obtain ⟨r, hr⟩ := h.kept m hm
      exact ⟨r, (hsub r m).mpr ⟨fun heq => hm (heq ▸ hdyn), hr⟩⟩
    · simp only [MqData.setPc_heap, MqData.setHeap_heap, h.heap_nodup.mem_erase_iff,
        h.dynamic m, hsub]
      constructor
      · rintro ⟨hne, hm, r, hr⟩
        exact ⟨hm, r, hne, hr⟩
      · rintro ⟨hm, r, hne, hr⟩
        exact ⟨hne, hm, r, hr⟩
    · exact h.heap_nodup.erase mqmsg
    · exact (length_erase_le).trans h.heap_le

end

/-- The queue after an insertion, in any order. -/
theorem perm_mqInsert : ((mqInsert d o mqmsg).msglist o.msgq).Perm (mqmsg :: d.msglist o.msgq) := by
  simp only [mqInsert, MqData.logSent_msglist, MqData.setMsglist_msglist, update_self]
  exact perm_orderedInsert _ _ _

theorem contents_mqInsert (hp : p ≠ .queue o.msgq) :
    (mqInsert d o mqmsg).contents p = d.contents p := by
  cases p with
  | queue k =>
    have hk : k ≠ o.msgq := fun heq => hp (congrArg _ heq)
    simp [MqData.contents, mqInsert, hk]
  | _ => rfl

theorem type_mqInsert (m : Nat) : ((mqInsert d o mqmsg).mqmsg m).type = (d.mqmsg m).type := by
  by_cases hm : m = mqmsg
  · subst hm
    simp [mqInsert]
  · simp [mqInsert, hm]

section

variable (h : Owned d)
include h

theorem Owned.count_insert (hlist : d₁.msglist = d.msglist) (hnmsgs : d₁.nmsgs = d.nmsgs)
    (k : Nat) : (mqInsert d₁ o mqmsg).nmsgs k = ((mqInsert d₁ o mqmsg).msglist k).length := by
  by_cases hk : k = o.msgq
  · subst hk
    have hle := h.length_le o.msgq
    have hcount := h.count o.msgq
    simp only [numPrealloc, preallocMqMsgs, numInterruptMsgs, dynMsgsMax] at hle
    rw [perm_mqInsert.length_eq, length_cons, hlist]
    simp only [mqInsert, MqData.logSent_nmsgs, MqData.setMsglist_nmsgs, update_self,
      MqData.setMqmsg_nmsgs, hnmsgs, wrap16]
    omega
  · simpa [mqInsert, hk, hlist, hnmsgs] using h.count k

theorem Owned.insert (hpc : d.pc t = .dosend o mqmsg) :
    Owned ((mqInsert d o mqmsg).setPc t (.wake o.msgq)) := by
  have hheld : (d.pc t).held = some mqmsg := by
    rw [hpc]
    rfl
  refine h.handed (p := .task t) (q := .queue o.msgq) (a := mqmsg) ⟨by simp, ?_, ?_, ?_⟩
    trivial type_mqInsert rfl (h.count_insert rfl rfl)
  · intro r ht hr
    rw [contents_setPc_of_ne ht, contents_mqInsert hr]
  · rw [contents_setPc_self, contents_task hheld]
    exact List.Perm.refl _
  · exact perm_mqInsert

theorem Owned.insertIrq (halloc : mqMsgallocIrq d = some (d₁, mqmsg)) :
    Owned (mqInsert d₁ o mqmsg) := by
  unfold mqMsgallocIrq at halloc
  split at halloc
  · next m msgfree hfree =>
    obtain ⟨rfl, rfl⟩ : d.setMsgfree msgfree = d₁ ∧ m = mqmsg := by simpa using halloc
    refine h.handed (p := .free) (q := .queue o.msgq) (a := m) ⟨by simp, ?_, ?_, ?_⟩
      trivial type_mqInsert rfl (h.count_insert rfl rfl)
    · intro r hr hq
      rw [contents_mqInsert hq]
      cases r with
      | free => exact absurd rfl hr
      | _ => rfl
    · exact hfree ▸ List.Perm.refl _
    · exact perm_mqInsert
  · split at halloc
    · next m msgfreeirq hfree =>
      obtain ⟨rfl, rfl⟩ : d.setMsgfreeirq msgfreeirq = d₁ ∧ m = mqmsg := by simpa using halloc
      refine h.handed (p := .freeirq) (q := .queue o.msgq) (a := m) ⟨by simp, ?_, ?_, ?_⟩
        trivial type_mqInsert rfl (h.count_insert rfl rfl)
      · intro r hr hq
        rw [contents_mqInsert hq]
        cases r with
        | freeirq => exact absurd rfl hr
        | _ => rfl
      · exact hfree ▸ List.Perm.refl _
      · exact perm_mqInsert
    · cases halloc

theorem Owned.take {rest : List Nat} (hqueue : d.msglist msgq = mqmsg :: rest)
    (hpc : d.pc t = .idle ∨ d.pc t = .waitreceive msgq) :
    Owned ((d.setMsglist msgq rest (wrap16 (d.nmsgs msgq - 1))).setPc t
      (.doreceive msgq mqmsg)) := by
  have hnone : (d.pc t).held = none := by rcases hpc with hpc | hpc <;> simp [hpc, Pc.held]
  refine h.handed (p := .queue msgq) (q := .task t) (a := mqmsg) ⟨by simp, ?_, ?_, ?_⟩
    trivial (fun m => rfl) rfl ?_
  · intro r hr ht
    rw [contents_setPc_of_ne ht]
    cases r with
    | queue k =>
      have hk : k ≠ msgq := fun heq => hr (congrArg _ heq)
      simp [MqData.contents, hk]
    | _ => rfl
  · simp [MqData.contents, hqueue]
  · rw [contents_setPc_self, contents_task_none hnone]
    exact List.Perm.refl _
  · intro k
    by_cases hk : k = msgq
    · subst hk
      have hle := h.length_le k
      have hcount := h.count k
      rw [hqueue, length_cons] at hle hcount
      simp only [numPrealloc, preallocMqMsgs, numInterruptMsgs, dynMsgsMax] at hle
      simp only [MqData.setPc_nmsgs, MqData.setMsglist_nmsgs, MqData.setPc_msglist,
        MqData.setMsglist_msglist, update_self, wrap16]
      omega
    · simpa [hk] using h.count k

theorem Owned.move (hmove : Move d d') : Owned d' := by
  cases hmove with
  | stay => exact h
  | advance t pc hheld => exact h.setPc hheld
  | alloc t pc mqmsg msgfree hfree hnone hheld => exact h.alloc hfree hnone hheld
  | malloc t pc mqmsg hunused hnone hheld => exact h.malloc hunused hnone hheld
  | free t pc mqmsg hheld hnone => exact h.free hheld hnone
  | insert t o mqmsg hpc => exact h.insert hpc
  | insertIrq o d₁ mqmsg halloc => exact h.insertIrq halloc
  | take t msgq mqmsg rest hqueue hpc => exact h.take hqueue hpc
  | give t r hpc =>
    have hheld : Pc.idle.held = (d.pc t).held := by
      rw [hpc]
      rfl
    exact (h.setPc hheld).congr rfl rfl rfl rfl

end

theorem mqStart_owned (attr : Nat → MqAttr) : Owned (mqStart attr).data := by
  have hmem : ∀ p m, m ∈ (mqStart attr).data.contents p ↔
      (p = .free ∧ home m = .fixed) ∨ (p = .freeirq ∧ home m = .irq) := by
    intro p m
    cases p with
    | free => simp [MqData.contents, mqStart, home_eq_fixed]
    | freeirq => simp [MqData.contents, mqStart, home_eq_irq, numPrealloc]
    | queue k => simp [MqData.contents, mqStart]
    | task t => simp [MqData.contents, mqStart, Pc.held]
  refine ⟨⟨fun p => ?_, fun p q m hp hq => ?_⟩, fun p m hp => ?_, fun p m hp => ?_,
    fun m hm => ?_, fun m => ?_, nodup_nil, Nat.zero_le _, fun k => rfl⟩
  · cases p with
    | free => exact nodup_range
    | freeirq => exact nodup_range'
    | queue k => exact nodup_nil
    | task t => exact nodup_nil
  · rw [hmem] at hp hq
    rcases hp with ⟨rfl, hp⟩ | ⟨rfl, hp⟩ <;> rcases hq with ⟨rfl, hq⟩ | ⟨rfl, hq⟩ <;> simp_all
  · rcases (hmem p m).mp hp with ⟨rfl, hm⟩ | ⟨rfl, hm⟩ <;> exact hm
  · rcases (hmem p m).mp hp with ⟨-, hm⟩ | ⟨-, hm⟩
    · simp [mqStart, hm, home_eq_fixed.mp hm]
    · simp [mqStart, hm, not_lt.mpr (home_eq_irq.mp hm).1]
  · cases hhome : home m with
    | fixed => exact ⟨.free, (hmem _ _).mpr (.inl ⟨rfl, hhome⟩)⟩
    | irq => exact ⟨.freeirq, (hmem _ _).mpr (.inr ⟨rfl, hhome⟩)⟩
    | dyn => exact absurd hhome hm
  · refine ⟨fun hm => absurd hm not_mem_nil, ?_⟩
    rintro ⟨hdyn, p, hp⟩
    rcases (hmem p m).mp hp with ⟨-, hm⟩ | ⟨-, hm⟩ <;> simp [hdyn] at hm

end NbLot.Source.Mqueue
