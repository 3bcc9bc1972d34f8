import NbLot.Source.Sem.Ranks
import NbLot.Source.Sem.Steps

/-!
# What the holders of a semaphore inherit

`PiInv` says what the holder lists and the pending priorities are worth as long as a task
holds one count at a time and waits at its base priority: the holders record the
priorities of all tasks that wait for them. With `exact` they record nothing else.
-/
namespace NbLot.Source.Sem

open Lib.Inheritance Source.Sched List Function PiSys

/-- The priorities of the tasks that wait for the semaphore. -/
def waiting (s : PiSys) (sem : Nat) : Multiset Nat :=
  ((waiters s.toSemSys sem).map s.tasks.schedPriority : List Nat)

/-- The invariant of the semaphores with priority inheritance. -/
structure PiInv (exact : Bool) (s : PiSys) : Prop where
  sem : SemInv s.toSemSys
  priority_le : ∀ t, s.tasks.schedPriority t ≤ schedPriorityMax
  nodup : ∀ k, (s.holderTcbs k).Nodup
  holder : ∀ k, ∀ h ∈ s.holders k, h.counts ≤ (s.held h.htcb).length ∧
    (s.held h.htcb = [k] ∨ ∃ base, s.inPost h.htcb = some (k, base))
  held : ∀ t, s.held t = [] ∨ ∃ k, s.held t = [k] ∧ t ∈ s.holderTcbs k
  posting : ∀ t k base, s.inPost t = some (k, base) →
    s.held t = [] ∧ (base = none ∨ base = some (s.basePriority t))
  waiter : ∀ t, s.waitsem t ≠ none →
    s.held t = [] ∧ s.inPost t = none ∧ s.tasks.schedPriority t = s.basePriority t
  known : ∀ t, t ∉ s.tasks.pids → s.held t = [] ∧ s.inPost t = none
  ranked : exact = true → ∀ k, ∀ t ∈ s.holderTcbs k, schedPriorityMin ≤ s.basePriority t
  unclaimed : ∀ t, s.held t = [] → Records exact 0 (s.rank t)
  claimed : ∀ t k, s.held t = [k] → Records exact (waiting s k) (s.rank t)

variable {exact : Bool} {s s' : PiSys} {t w k sem rtcb p : Nat}

section

variable (h : PiInv exact s)
include h

theorem PiInv.sound (t : Nat) : (s.rank t).Sound := by
  rcases h.held t with hfree | ⟨k, hk, -⟩
  · exact (h.unclaimed t hfree).sound
  · exact (h.claimed t k hk).sound

/-- A task on a list of holders has the count, or is still inside the post of it. -/
theorem PiInv.holder_of_mem (ht : t ∈ s.holderTcbs k) :
    s.held t = [k] ∨ ∃ base, s.inPost t = some (k, base) := by
  obtain ⟨holder, hmem, rfl⟩ := mem_map.mp ht
  exact (h.holder k holder hmem).2

theorem PiInv.waiter_not_holder (hw : s.waitsem t ≠ none) : t ∉ s.holderTcbs k := by
  intro ht
  obtain ⟨hheld, hpost, -⟩ := h.waiter t hw
  rcases h.holder_of_mem ht with hk | ⟨base, hk⟩
  · simp [hheld] at hk
  · simp [hpost] at hk

theorem PiInv.holder_not_waitSem (ht : t ∈ s.holderTcbs k) :
    s.tasks.taskState t ≠ .waitSem := fun hst =>
  h.waiter_not_holder ((h.sem.waits t).mp hst) ht

end

theorem mem_waiters (h : SemInv s.toSemSys) : t ∈ waiters s.toSemSys k ↔ s.waitsem t = some k := by
  unfold waiters
  rw [mem_filter, mem_waitSem h.sched.lists, h.waits, decide_eq_true_eq]
  refine ⟨fun hk => hk.2, fun hk => ⟨by simp [hk], hk⟩⟩

/-- The priorities of the waiting tasks, with the tasks and their priorities the same. -/
theorem waiting_congr {l : List Nat} (hl : waiters s'.toSemSys k = l)
    (hprio : ∀ t ∈ l, s'.tasks.schedPriority t = s.tasks.schedPriority t) :
    waiting s' k = (l.map s.tasks.schedPriority : List Nat) := by
  rw [waiting, hl]
  exact congrArg _ (map_congr_left hprio)

/-- Requests that keep who holds and posts and the base priorities, with what they leave to
show of the waiting tasks and the records. -/
theorem PiInv.sameHolders (h : PiInv exact s) (hsem : SemInv s'.toSemSys)
    (hpids : s'.tasks.pids = s.tasks.pids) (hbase : ∀ t, s'.basePriority t = s.basePriority t)
    (hholders : s'.holders = s.holders) (hpost : s'.inPost = s.inPost) (hheld : s'.held = s.held)
    (hmax : ∀ t, s'.tasks.schedPriority t ≤ schedPriorityMax) (hwaiter : ∀ t, s'.waitsem t ≠ none →
      s.held t = [] ∧ s.inPost t = none ∧ s'.tasks.schedPriority t = s.basePriority t)
    (hunclaimed : ∀ t, s.held t = [] → Records exact 0 (s'.rank t))
    (hclaimed : ∀ t k, s.held t = [k] → Records exact (waiting s' k) (s'.rank t)) :
    PiInv exact s' := by
  have htcbs : ∀ k, s'.holderTcbs k = s.holderTcbs k := fun k => by
    rw [PiSys.holderTcbs, hholders]
    rfl
  refine ⟨hsem, hmax, fun k => (htcbs k).symm ▸ h.nodup k, ?_, ?_, ?_, ?_, ?_, ?_, ?_, ?_⟩
  · rw [hholders, hheld, hpost]
    exact h.holder
  · simp only [hheld, htcbs]
    exact h.held
  · simp only [hheld, hpost, hbase]
    exact h.posting
  · simp only [hheld, hpost, hbase]
    exact hwaiter
  · simp only [hpids, hheld, hpost]
    exact h.known
  · simp only [htcbs, hbase]
    exact h.ranked
  · rwa [hheld]
  · rwa [hheld]

theorem PiInv.quiet (h : PiInv exact s) (hsem : SemInv s'.toSemSys)
    (hpids : s'.tasks.pids = s.tasks.pids)
    (hlist : s'.tasks.list .waitingforsemaphore = s.tasks.list .waitingforsemaphore)
    (hwaitsem : s'.waitsem = s.waitsem) (hrank : ∀ t, s'.rank t = s.rank t)
    (hholders : s'.holders = s.holders) (hpost : s'.inPost = s.inPost)
    (hheld : s'.held = s.held) : PiInv exact s' := by
  have hprio : ∀ t, s'.tasks.schedPriority t = s.tasks.schedPriority t := fun t =>
    congrArg Rank.priority (hrank t)
  have hwaiting : ∀ k, waiting s' k = waiting s k := fun k =>
    waiting_congr (by rw [waiters, hlist, hwaitsem]; rfl) fun t _ => hprio t
  refine h.sameHolders hsem hpids (fun t => congrArg Rank.base (hrank t)) hholders hpost hheld
    (fun t => (hprio t).trans_le (h.priority_le t)) ?_ ?_ ?_
  · simp only [hwaitsem, hprio]
    exact h.waiter
  · simp only [hrank]
    exact h.unclaimed
  · simp only [hrank, hwaiting]
    exact h.claimed

theorem PiInv.not_holder (h : PiInv exact s) (hheld : s.held t = [])
    (hpost : s.inPost t = none) : t ∉ s.holderTcbs k := by
  intro ht
  rcases h.holder_of_mem ht with hk | ⟨base, hk⟩
  · simp [hheld] at hk
  · simp [hpost] at hk

/-- The task gets a count: it goes on the list of holders. -/
theorem semAddholderTcb_new (hnot : t ∉ s.holderTcbs sem) :
    semAddholderTcb s t sem = s.setHolders sem (⟨t, 1⟩ :: s.holders sem) :=
  if_neg hnot

theorem PiInv.held_of_holder (h : PiInv exact s) (hheld : s.held t = [k])
    (ht : t ∈ s.holderTcbs sem) : k = sem := by
  rcases h.holder_of_mem ht with hk | ⟨base, hk⟩
  · simpa [hheld] using hk
  · simp [(h.posting t sem base hk).1] at hheld

theorem PiInv.mem_of_held (h : PiInv exact s) (hheld : s.held t = [k]) : t ∈ s.holderTcbs k := by
  rcases h.held t with hfree | ⟨k', hk', hmem⟩
  · simp [hfree] at hheld
  · obtain rfl : k' = k := by simpa [hk'] using hheld
    exact hmem

/-- A holder that is lowered records those who still wait. -/
theorem Lowered.records {W : Multiset Nat} {x y : Rank} (hlow : Lowered x p y)
    (h : Records exact (p ::ₘ W) x) (hp : x.base < p ∨ above x.base W = 0)
    (hrank : exact = true → schedPriorityMin ≤ x.base) : Records exact W y := by
  rcases hlow with rfl | ⟨rfl, hlow⟩
  · exact h.lower hp
  · cases exact with
    | true => exact absurd (hrank rfl) (not_le.mpr hlow)
    | false => exact h.drop

theorem Lowered.records_free {x y : Rank} (hlow : Lowered x p y) (h : Records exact 0 x) :
    Records exact 0 y := by
  rcases hlow with rfl | ⟨rfl, -⟩
  · exact h.lower_free
  · exact h

theorem Lowered.priority_le {x y : Rank} (hlow : Lowered x p y) (h : x.Sound) :
    y.priority ≤ x.priority := by
  rcases hlow with rfl | ⟨rfl, -⟩
  · exact h.priority_lower_le
  · exact le_rfl

section

variable (h : PiInv exact s) {base : Option Nat}
include h

/-- A task stops waiting and the holders of its semaphore are lowered. A holder that its
wait has not raised must have no other waiting task above its base priority. -/
theorem PiInv.released (hw : s.waitsem w = some sem) (hsem : SemInv s'.toSemSys)
    (hpids : s'.tasks.pids = s.tasks.pids)
    (hwaiters : ∀ k, waiters s'.toSemSys k = (waiters s.toSemSys k).erase w)
    (hwaitsem : s'.waitsem = update s.waitsem w none)
    (hkept : ∀ t ∉ s.holderTcbs sem, s'.rank t = s.rank t)
    (hlow : ∀ t ∈ s.holderTcbs sem, Lowered (s.rank t) (s.tasks.schedPriority w) (s'.rank t))
    (hside : ∀ t ∈ s.holderTcbs sem, s.basePriority t < s.tasks.schedPriority w ∨ ∀ u ∈ (waiters s.toSemSys sem).erase w, s.tasks.schedPriority u ≤ s.basePriority t)
    (hholders : s'.holders = s.holders) (hpost : s'.inPost = s.inPost) (hheld : s'.held = s.held) :
    PiInv exact s' := by
  have hbase : ∀ t, s'.basePriority t = s.basePriority t := by
    intro t
    by_cases ht : t ∈ s.holderTcbs sem
    · exact (hlow t ht).base_eq
    · exact congrArg Rank.base (hkept t ht)
  have hprio : ∀ t, s.waitsem t ≠ none →
      s'.tasks.schedPriority t = s.tasks.schedPriority t := fun t ht =>
    congrArg Rank.priority (hkept t (h.waiter_not_holder ht))
  have hwaiting : ∀ k, waiting s' k =
      (((waiters s.toSemSys k).erase w).map s.tasks.schedPriority : List Nat) := fun k =>
    waiting_congr (hwaiters k) fun t ht => hprio t
      (by simp [(mem_waiters h.sem).mp (mem_of_mem_erase ht)])
  -- the others that wait for the semaphore, and those that wait for another one
  have hrest : waiting s sem = s.tasks.schedPriority w ::ₘ waiting s' sem := by
    have hperm := (perm_cons_erase ((mem_waiters h.sem).mpr hw)).map s.tasks.schedPriority
    rw [hwaiting, waiting, Multiset.cons_coe, Multiset.coe_eq_coe]
    exact hperm
  have hother : ∀ k, k ≠ sem → waiting s' k = waiting s k := by
    intro k hk
    have hnot : w ∉ waiters s.toSemSys k := fun hmem => by
      have := (mem_waiters h.sem).mp hmem
      exact hk (by simpa [hw] using this.symm)
    rw [hwaiting, erase_of_not_mem hnot]
    rfl
  refine h.sameHolders hsem hpids hbase hholders hpost hheld (fun t => ?_) (fun t ht => ?_)
    (fun t ht => ?_) fun t k hk => ?_
  · by_cases ht : t ∈ s.holderTcbs sem
    · exact ((hlow t ht).priority_le (h.sound t)).trans (h.priority_le t)
    · exact (congrArg Rank.priority (hkept t ht)).trans_le (h.priority_le t)
  · have hold : s.waitsem t ≠ none := by
      rw [hwaitsem] at ht
      by_cases htw : t = w
      · simp [htw] at ht
      · simpa [htw] using ht
    rw [hprio t hold]
    exact h.waiter t hold
  · by_cases hmem : t ∈ s.holderTcbs sem
    · exact (hlow t hmem).records_free (h.unclaimed t ht)
    · rw [hkept t hmem]
      exact h.unclaimed t ht
  · by_cases hmem : t ∈ s.holderTcbs sem
    · obtain rfl := h.held_of_holder hk hmem
      refine (hlow t hmem).records (hrest ▸ h.claimed t k hk) ?_ fun hexact =>
        h.ranked hexact k t hmem
      refine (hside t hmem).imp_right fun hle => above_eq_zero.mpr fun q hq => ?_
      rw [hwaiting] at hq
      obtain ⟨u, hu, rfl⟩ := mem_map.mp hq
      exact hle u hu
    · have hne : k ≠ sem := fun heq => hmem (heq ▸ h.mem_of_held hk)
      rw [hother k hne, hkept t hmem]
      exact h.claimed t k hk

theorem PiInv.addHolder (sem : Nat) (hheld : s.held t = []) (hpost : s.inPost t = none)
    (hwaits : s.waitsem t = none) (hpid : t ∈ s.tasks.pids)
    (hrank : exact = true → schedPriorityMin ≤ s.basePriority t)
    (hrec : Records exact (waiting s sem) (s.rank t)) :
    PiInv exact ((s.setHolders sem (⟨t, 1⟩ :: s.holders sem)).setHeld t [sem]) := by
  have hnot : ∀ k, t ∉ s.holderTcbs k := fun k => h.not_holder hheld hpost
  have htcbs : ∀ k, ((s.setHolders sem (⟨t, 1⟩ :: s.holders sem)).setHeld t [sem]).holderTcbs k =
      if k = sem then t :: s.holderTcbs sem else s.holderTcbs k := by
    intro k
    by_cases hk : k = sem <;> simp [PiSys.holderTcbs, hk]
  refine ⟨h.sem, h.priority_le, fun k => ?_, fun k holder hmem => ?_, fun u => ?_,
    fun u k base hu => ?_, fun u hu => ?_, fun u hu => ?_, fun hexact k u hu => ?_,
    fun u hu => ?_, fun u k hu => ?_⟩
  · rw [htcbs]
    split
    · exact nodup_cons.mpr ⟨hnot sem, h.nodup sem⟩
    · exact h.nodup k
  · have hcases : k = sem ∧ holder = ⟨t, 1⟩ ∨ holder ∈ s.holders k := by
      by_cases hk : k = sem
      · subst hk
        simpa using hmem
      · exact .inr (by simpa [hk] using hmem)
    rcases hcases with ⟨rfl, rfl⟩ | hold
    · simp
    · have hne : holder.htcb ≠ t := fun heq => hnot k (heq ▸ mem_map_of_mem hold)
      simpa [hne] using h.holder k holder hold
  · by_cases hu : u = t
    · exact .inr ⟨sem, by simp [hu], by simp [htcbs, hu]⟩
    · refine (h.held u).imp (fun hfree => by simpa [hu] using hfree) ?_
      rintro ⟨k, hk, hmem⟩
      refine ⟨k, by simpa [hu] using hk, ?_⟩
      rw [htcbs]
      split
      · next heq => exact mem_cons_of_mem _ (heq ▸ hmem)
      · exact hmem
  · have hu' : s.inPost u = some (k, base) := hu
    have hne : u ≠ t := fun heq => by simp [heq, hpost] at hu'
    simpa [hne] using h.posting u k base hu'
  · have hne : u ≠ t := fun heq => hu (heq ▸ hwaits)
    simpa [hne] using h.waiter u hu
  · have hne : u ≠ t := fun heq => hu (heq ▸ hpid)
    simpa [hne] using h.known u hu
  · rw [htcbs] at hu
    by_cases hut : u = t
    · exact hut ▸ hrank hexact
    · have hu : u ∈ s.holderTcbs k := by
        split at hu
        · next heq => exact heq ▸ (mem_cons.mp hu).resolve_left hut
        · exact hu
      exact h.ranked hexact k u hu
  · have hne : u ≠ t := fun heq => by simp [heq] at hu
    exact h.unclaimed u (by simpa [hne] using hu)
  · by_cases hut : u = t
    · obtain rfl : sem = k := by simpa [hut] using hu
      exact hut ▸ hrec
    · exact h.claimed u k (by simpa [hut] using hu)

/-- A task that has no count, and is at its base priority, goes to wait: the holders of the
semaphore are raised. In the exact form a holder that is only inside its post must not
be raised. -/
theorem PiInv.block (sem : Nat) (hheld : s.held rtcb = []) (hpost : s.inPost rtcb = none)
    (hown : s.tasks.schedPriority rtcb = s.basePriority rtcb) (hsem : SemInv s'.toSemSys)
    (hpids : s'.tasks.pids = s.tasks.pids)
    (hwaiters : ∀ k, (waiters s'.toSemSys k).Perm (if k = sem then rtcb :: waiters s.toSemSys k else waiters s.toSemSys k))
    (hwaitsem : s'.waitsem = update s.waitsem rtcb (some sem))
    (hrank : ∀ t, s'.rank t = if t ∈ s.holderTcbs sem then (s.rank t).raise (s.tasks.schedPriority rtcb) else s.rank t)
    (hside : exact = true → ∀ t ∈ s.holderTcbs sem, s.held t = [] → s.tasks.schedPriority rtcb ≤ s.basePriority t)
    (hholders : s'.holders = s.holders) (hinPost : s'.inPost = s.inPost)
    (hheld' : s'.held = s.held) : PiInv exact s' := by
  have hkept : ∀ t ∉ s.holderTcbs sem, s'.rank t = s.rank t := fun t ht => by
    rw [hrank, if_neg ht]
  have hbase : ∀ t, s'.basePriority t = s.basePriority t := by
    intro t
    have := congrArg Rank.base (hrank t)
    by_cases ht : t ∈ s.holderTcbs sem
    · rw [if_pos ht] at this
      exact this.trans Rank.base_raise
    · rw [if_neg ht] at this
      exact this
  have hprio : ∀ t, s.waitsem t ≠ none ∨ t = rtcb →
      s'.tasks.schedPriority t = s.tasks.schedPriority t := by
    rintro t (ht | rfl)
    · exact congrArg Rank.priority (hkept t (h.waiter_not_holder ht))
    · exact congrArg Rank.priority (hkept t (h.not_holder hheld hpost))
  have hwaiting : ∀ k, waiting s' k =
      if k = sem then s.tasks.schedPriority rtcb ::ₘ waiting s k else waiting s k := by
    intro k
    have hjoin := (hwaiters k).map s.tasks.schedPriority
    have hmem : ∀ t ∈ waiters s'.toSemSys k, s.waitsem t ≠ none ∨ t = rtcb := by
      intro t ht
      by_cases htr : t = rtcb
      · exact .inr htr
      · have := (mem_waiters hsem).mp ht
        rw [hwaitsem, update_of_ne htr] at this
        exact .inl (by simp [this])
    rw [waiting_congr rfl fun t ht => hprio t (hmem t ht)]
    by_cases hk : k = sem
    · rw [if_pos hk] at hjoin ⊢
      exact Multiset.coe_eq_coe.mpr hjoin
    · rw [if_neg hk] at hjoin ⊢
      exact Multiset.coe_eq_coe.mpr hjoin
  refine h.sameHolders hsem hpids hbase hholders hinPost hheld' (fun t => ?_) (fun t ht => ?_)
    (fun t ht => ?_) fun t k hk => ?_
  · have hle := h.priority_le t
    by_cases ht : t ∈ s.holderTcbs sem
    · have := congrArg Rank.priority (hrank t)
      rw [if_pos ht] at this
      refine this.trans_le ((Rank.priority_raise_le).trans (max_le hle (h.priority_le rtcb)))
    · exact (congrArg Rank.priority (hkept t ht)).trans_le hle
  · by_cases htr : t = rtcb
    · subst htr
      rw [hprio t (.inr rfl)]
      exact ⟨hheld, hpost, hown⟩
    · rw [hwaitsem, update_of_ne htr] at ht
      rw [hprio t (.inl ht)]
      exact h.waiter t ht
  · rw [hrank]
    split
    · next hmem =>
      exact (h.unclaimed t ht).raise_free fun hexact => hside hexact t hmem ht
    · exact h.unclaimed t ht
  · rw [hrank, hwaiting]
    by_cases hmem : t ∈ s.holderTcbs sem
    · obtain rfl := h.held_of_holder hk hmem
      rw [if_pos hmem, if_pos rfl]
      exact (h.claimed t k hk).raise
    · have hne : k ≠ sem := fun heq => hmem (heq ▸ h.mem_of_held hk)
      rw [if_neg hmem, if_neg hne]
      exact h.claimed t k hk

/-- Lists of holders with the same tasks and no higher counts. -/
theorem PiInv.setHolders {f : Holder → Holder}
    (hf : ∀ holder, (f holder).htcb = holder.htcb ∧ (f holder).counts ≤ holder.counts) :
    PiInv exact (s.setHolders sem ((s.holders sem).map f)) := by
  have htcbs : ∀ k, (s.setHolders sem ((s.holders sem).map f)).holderTcbs k =
      s.holderTcbs k := by
    intro k
    by_cases hk : k = sem
    · subst hk
      simp [PiSys.holderTcbs, hf]
    · simp [PiSys.holderTcbs, hk]
  refine ⟨h.sem, h.priority_le, fun k => (htcbs k).symm ▸ h.nodup k, fun k holder hmem => ?_,
    fun t => ?_, h.posting, h.waiter, h.known, fun hexact k t ht => ?_, h.unclaimed,
    h.claimed⟩
  · by_cases hk : k = sem
    · subst hk
      simp only [setHolders_holders, update_self] at hmem
      obtain ⟨old, hold, rfl⟩ := mem_map.mp hmem
      obtain ⟨hcounts, hhas⟩ := h.holder k old hold
      rw [(hf old).1]
      exact ⟨(hf old).2.trans hcounts, hhas⟩
    · exact h.holder k holder (by simpa [hk] using hmem)
  · simp only [htcbs]
    exact h.held t
  · rw [htcbs] at ht
    exact h.ranked hexact k t ht

theorem PiInv.releaseholder : PiInv exact (semReleaseholder s t sem) :=
  h.setHolders fun holder => by split <;> simp

/-- The count of the task that posts is 0 in its slot then. -/
theorem PiInv.counts_releaseholder {holder : Holder}
    (hmem : holder ∈ (semReleaseholder s t sem).holders sem) (ht : holder.htcb = t) :
    holder.counts = 0 := by
  simp only [semReleaseholder, setHolders_holders, update_self] at hmem
  obtain ⟨old, hold, rfl⟩ := mem_map.mp hmem
  have hcounts := (h.holder sem old hold).1
  have hone : (s.held old.htcb).length ≤ 1 := by
    rcases h.held old.htcb with hk | ⟨k, hk, -⟩ <;> simp [hk]
  by_cases hold : old.htcb = t
  · simp only [hold, if_true]
    omega
  · simp only [hold, if_false] at ht

theorem PiInv.lock : PiInv exact (s.schedule (schedLock s.tasks)) := by
  refine h.quiet h.sem.lock.1 ?_ ?_ rfl (fun t => ?_) rfl rfl rfl <;>
    simp [PiSys.rank]

theorem PiInv.unlock {tasks : Tasks} (hrun : schedUnlock s.tasks = some tasks) :
    PiInv exact (s.schedule tasks) := by
  obtain ⟨rtcb, n, hcall⟩ := schedUnlock_call h.sem.sched.lists hrun
  refine h.quiet (h.sem.unlock hrun).1 hcall.frame.pids
    (hcall.frame.list _ (by decide) (by decide) (by simp)) rfl (fun t => ?_) rfl rfl rfl
  ext : 1
  · exact hcall.frame.priority t
  · rfl
  · rfl

/-- The task has given its count away and is still inside `sem_post`. In the exact form no
task above its base priority waits on. -/
theorem PiInv.giveAway (hheld : s.held rtcb = [sem])
    (hzero : ∀ holder ∈ s.holders sem, holder.htcb = rtcb → holder.counts = 0)
    (hbase : base = none ∨ base = some (s.basePriority rtcb))
    (hfree : exact = true → ∀ u ∈ waiters s.toSemSys sem, s.tasks.schedPriority u ≤ s.basePriority rtcb) :
    PiInv exact ((s.setHeld rtcb []).setInPost rtcb (some (sem, base))) := by
  refine ⟨h.sem, h.priority_le, h.nodup, fun k holder hh => ?_, fun t => ?_,
    fun t k b ht => ?_, fun t ht => ?_, fun t ht => ?_, h.ranked, fun t ht => ?_,
    fun t k ht => ?_⟩
  · by_cases hr : holder.htcb = rtcb
    · have hk : sem = k := h.held_of_holder hheld (hr ▸ mem_map_of_mem hh)
      subst hk
      rw [hzero holder hh hr]
      simp [hr]
    · simpa [hr] using h.holder k holder hh
  · by_cases ht : t = rtcb
    · exact .inl (by simp [ht])
    · simpa [ht, PiSys.holderTcbs] using h.held t
  · by_cases htr : t = rtcb
    · obtain ⟨rfl, rfl⟩ : sem = k ∧ base = b := by simpa [htr] using ht
      simpa [htr] using hbase
    · simpa [htr] using h.posting t k b (by simpa [htr] using ht)
  · have hne : t ≠ rtcb := fun heq => by
      have := (h.waiter t ht).1
      simp [heq, hheld] at this
    simpa [hne] using h.waiter t ht
  · have hne : t ≠ rtcb := fun heq => by
      have := (h.known t ht).1
      simp [heq, hheld] at this
    simpa [hne] using h.known t ht
  · by_cases htr : t = rtcb
    · subst htr
      refine (h.claimed t sem hheld).forget fun hexact => above_eq_zero.mpr fun q hq => ?_
      obtain ⟨u, hu, rfl⟩ := mem_map.mp (Multiset.mem_coe.mp hq)
      exact hfree hexact u hu
    · exact h.unclaimed t (by simpa [htr] using ht)
  · have hne : t ≠ rtcb := fun heq => by simp [heq] at ht
    exact h.claimed t k (by simpa [hne] using ht)

theorem PiInv.finishPost (hpost : s.inPost rtcb = some (sem, base))
    (hrun : postEnd (s.setInPost rtcb none) rtcb sem base = some s') : PiInv exact s' := by
  obtain ⟨hheld, hbase⟩ := h.posting rtcb sem base hpost
  obtain ⟨tasks, hunlock, rfl⟩ := Option.map_eq_some_iff.mp hrun
  refine PiInv.unlock ?_ hunlock
  -- the base priority is there already, and the list of pending priorities is emptied
  have hstore : ∃ pend, storeBase (s.setInPost rtcb none) rtcb base =
        (s.setInPost rtcb none).setPend rtcb pend ∧
      Records exact 0 ⟨s.tasks.schedPriority rtcb, s.basePriority rtcb, pend⟩ := by
    rcases hbase with rfl | rfl
    · exact ⟨s.pendReprios rtcb, by simp [storeBase, PiSys.setPend, PiSys.setInPost],
        h.unclaimed rtcb hheld⟩
    · exact ⟨[], by simp [storeBase, PiSys.setBase, PiSys.setPend],
        (h.unclaimed rtcb hheld).clear⟩
  obtain ⟨pend, hstore, hrec⟩ := hstore
  rw [hstore]
  have hslot : ∀ k, ∀ holder ∈ s.holders k, holder.htcb = rtcb → k = sem ∧ holder.counts = 0 := by
    intro k holder hh hr
    obtain ⟨hcounts, hhas⟩ := h.holder k holder hh
    rw [hr, hheld] at hcounts hhas
    rw [hpost] at hhas
    refine ⟨?_, by simpa using hcounts⟩
    rcases hhas with hk | ⟨b, hk⟩
    · cases hk
    · exact (by simpa using hk : sem = k ∧ base = b).1.symm
  have hholders : ∀ k, (semFindandfreeholder ((s.setInPost rtcb none).setPend rtcb pend) rtcb
      sem).holders k = (s.holders k).filter fun holder => holder.htcb ≠ rtcb := by
    intro k
    by_cases hk : k = sem
    · subst hk
      simp only [semFindandfreeholder, setHolders_holders, setPend_holders, update_self]
      refine filter_congr fun holder hh => ?_
      by_cases hr : holder.htcb = rtcb
      · simp [hr, (hslot k holder hh hr).2]
      · simp [hr]
    · simp only [semFindandfreeholder, setHolders_holders, setPend_holders, update_of_ne hk]
      refine (filter_eq_self.mpr fun holder hh => ?_).symm
      simpa using fun hr => hk (hslot k holder hh hr).1
  have htcbs : ∀ k t, t ∈ (semFindandfreeholder ((s.setInPost rtcb none).setPend rtcb pend) rtcb
      sem).holderTcbs k ↔ t ≠ rtcb ∧ t ∈ s.holderTcbs k := by
    intro k t
    simp only [PiSys.holderTcbs, hholders, mem_map, mem_filter, decide_eq_true_eq]
    constructor
    · rintro ⟨holder, ⟨hh, hne⟩, rfl⟩
      exact ⟨hne, holder, hh, rfl⟩
    · rintro ⟨hne, holder, hh, rfl⟩
      exact ⟨holder, ⟨hh, hne⟩, rfl⟩
  refine ⟨h.sem, h.priority_le, fun k => ?_, fun k holder hh => ?_, fun t => ?_,
    fun t k b ht => ?_, fun t ht => ?_, fun t ht => ?_, fun hexact k t ht => ?_,
    fun t ht => ?_, fun t k ht => ?_⟩
  · rw [PiSys.holderTcbs, hholders]
    exact (h.nodup k).sublist (filter_sublist.map _)
  · rw [hholders, mem_filter, decide_eq_true_eq] at hh
    simpa [semFindandfreeholder, hh.2] using h.holder k holder hh.1
  · refine (h.held t).imp id ?_
    rintro ⟨k, hk, hmem⟩
    have hne : t ≠ rtcb := fun heq => by simp [heq, hheld] at hk
    exact ⟨k, hk, (htcbs k t).mpr ⟨hne, hmem⟩⟩
  · have hne : t ≠ rtcb := fun heq => by simp [semFindandfreeholder, heq] at ht
    exact h.posting t k b (by simpa [semFindandfreeholder, hne] using ht)
  · have hne : t ≠ rtcb := fun heq => by
      have := (h.waiter t ht).2.1
      simp [heq, hpost] at this
    simpa [semFindandfreeholder, hne] using h.waiter t ht
  · have hne : t ≠ rtcb := fun heq => by
      have := (h.known t ht).2
      simp [heq, hpost] at this
    simpa [semFindandfreeholder, hne] using h.known t ht
  · exact h.ranked hexact k t ((htcbs k t).mp ht).2
  · by_cases htr : t = rtcb
    · subst htr
      simpa [semFindandfreeholder, PiSys.rank] using hrec
    · simpa [semFindandfreeholder, PiSys.rank, htr] using h.unclaimed t ht
  · have ht : s.held t = [k] := ht
    have hne : t ≠ rtcb := fun heq => by simp [heq, hheld] at ht
    have hclaim := h.claimed t k ht
    simpa [semFindandfreeholder, PiSys.rank, hne, waiting] using hclaim

end

end NbLot.Source.Sem
