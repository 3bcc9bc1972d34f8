import NbLot.Lib.OrderedInsert
import NbLot.Lib.Places

/-!
# Mailboxes with priorities

What a service is for that takes messages in and hands them out by priority. Clients send
a message to a box, or receive one from it: the first of its queue, in which the messages
stand by priority and, where it is equal, in the order they were sent. The messages are
numbered in that order. `Step` says what may happen at once, and `Inv` what follows for
every state: a message that was sent is in one place, and nobody has got anything else.
-/
namespace NbLot.Lib.Mailbox

open Lib.OrderedInsert Lib.Places List Function

/-- A message, and which one of those sent it is. -/
@[ext]
structure Item (α : Type) where
  ident : Nat
  message : α
  deriving DecidableEq, Repr

/-- Where a client stands: outside a call; sending a message; behind the moment at which
it has entered its queue; about to return with an error; waiting for a message of a
box; with a message it has taken and is about to return. -/
inductive Status (κ α : Type) where
  | idle
  | sending (a : α)
  | posted
  | failed
  | receiving (k : κ)
  | taken (x : Item α)

/-- What the client has taken. -/
def Status.item {κ α : Type} : Status κ α → List (Item α)
  | .taken x => [x]
  | _ => []

/-- The messages sent so far, the queues, the clients, and what receivers have been
given. -/
@[ext]
structure Mail (τ κ α : Type) where
  sent : List α
  queue : κ → List (Item α)
  status : τ → Status κ α
  returned : List (Item α)

/-- Where a message can be. -/
inductive Place (τ κ : Type) where
  | box (k : κ)
  | client (t : τ)
  | returned

variable {τ κ α : Type} (box : α → κ) (prio : α → Nat)

namespace Mail

def items (m : Mail τ κ α) : Place τ κ → List (Item α)
  | .box k => m.queue k
  | .client t => (m.status t).item
  | .returned => m.returned

variable [DecidableEq τ] [DecidableEq κ]

@[simps]
def setQueue (m : Mail τ κ α) (k : κ) (queue : List (Item α)) : Mail τ κ α :=
  { m with queue := Function.update m.queue k queue }

@[simps]
def setStatus (m : Mail τ κ α) (t : τ) (status : Status κ α) : Mail τ κ α :=
  { m with status := Function.update m.status t status }

@[simps]
def hand (m : Mail τ κ α) (x : Item α) : Mail τ κ α :=
  { m with returned := m.returned ++ [x] }

/-- A message enters its queue, behind those of the same priority. -/
@[simps]
def post (m : Mail τ κ α) (a : α) : Mail τ κ α where
  sent := m.sent ++ [a]
  queue := Function.update m.queue (box a)
    ((m.queue (box a)).orderedInsert (fun x y => prio y.message < prio x.message)
      ⟨m.sent.length, a⟩)
  status := m.status
  returned := m.returned

end Mail

/-- The changes of a client that touch no queue: a call begins, fails, or returns without
a message. -/
inductive Status.Quiet : Status κ α → Status κ α → Prop
  | send (a : α) : Quiet .idle (.sending a)
  | receive (k : κ) : Quiet .idle (.receiving k)
  | refuse : Quiet .idle .failed
  | failSend (a : α) : Quiet (.sending a) .failed
  | failReceive (k : κ) : Quiet (.receiving k) .failed
  | returnOk : Quiet .posted .idle
  | returnError : Quiet .failed .idle

theorem Status.Quiet.item {a b : Status κ α} (h : a.Quiet b) : a.item = [] ∧ b.item = [] := by
  cases h <;> exact ⟨rfl, rfl⟩

/-- What happens at once. A message is posted by a client that sends it, or by somebody
who is not a client. -/
inductive Step [DecidableEq τ] [DecidableEq κ] : Mail τ κ α → Mail τ κ α → Prop
  | stay (m : Mail τ κ α) : Step m m
  | quiet (m : Mail τ κ α) (t : τ) (status : Status κ α) (h : (m.status t).Quiet status) :
      Step m (m.setStatus t status)
  | post (m : Mail τ κ α) (t : τ) (a : α) (h : m.status t = .sending a) :
      Step m ((m.post box prio a).setStatus t .posted)
  | postOutside (m : Mail τ κ α) (a : α) : Step m (m.post box prio a)
  | take (m : Mail τ κ α) (t : τ) (k : κ) (x : Item α) (rest : List (Item α))
      (h : m.status t = .idle ∨ m.status t = .receiving k) (hqueue : m.queue k = x :: rest) :
      Step m ((m.setQueue k rest).setStatus t (.taken x))
  | give (m : Mail τ κ α) (t : τ) (x : Item α) (h : m.status t = .taken x) :
      Step m ((m.hand x).setStatus t .idle)

/-- The order of a queue. -/
def Before (x y : Item α) : Prop :=
  prio y.message < prio x.message ∨ (prio x.message = prio y.message ∧ x.ident < y.ident)

/-- The queues are in order, every message is in the queue of its box, whoever has one has
one that was sent, and every one is in one place. -/
structure Inv (m : Mail τ κ α) : Prop where
  sorted : ∀ k, (m.queue k).Pairwise (Before prio)
  boxed : ∀ k, ∀ x ∈ m.queue k, box x.message = k
  genuine : ∀ p, ∀ x ∈ m.items p, m.sent[x.ident]? = some x.message
  once : Apart fun p => (m.items p).map Item.ident

variable {box prio} {m m' : Mail τ κ α} {t : τ} {x : Item α} {rest : List (Item α)}

theorem Inv.ident_lt (h : Inv box prio m) {p : Place τ κ} (hx : x ∈ m.items p) :
    x.ident < m.sent.length :=
  (List.getElem?_eq_some_iff.mp (h.genuine p x hx)).1

/-- Whatever clients do not hold stays where it is. -/
theorem Inv.congr (h : Inv box prio m) (hsent : m'.sent = m.sent) (hqueue : m'.queue = m.queue)
    (hitem : ∀ t, (m'.status t).item = (m.status t).item) (hreturned : m'.returned = m.returned) :
    Inv box prio m' := by
  have hitems : m'.items = m.items := by
    funext p
    cases p with
    | box k => exact congrFun hqueue k
    | client t => exact hitem t
    | returned => exact hreturned
  exact ⟨hqueue ▸ h.sorted, hqueue ▸ h.boxed, hitems ▸ hsent ▸ h.genuine, hitems ▸ h.once⟩

/-- The first message of a queue is the oldest one of the highest priority. -/
theorem Inv.head_before (h : Inv box prio m) {k : κ} {y : Item α} (hqueue : m.queue k = x :: rest)
    (hy : y ∈ rest) : Before prio x y := by
  have := h.sorted k
  rw [hqueue, pairwise_cons] at this
  exact this.1 y hy

section

variable [DecidableEq τ]

theorem Inv.setStatus (h : Inv box prio m) {status : Status κ α} (hold : (m.status t).item = [])
    (hnew : status.item = []) : Inv box prio (m.setStatus t status) := by
  refine h.congr rfl rfl (fun u => ?_) rfl
  by_cases hu : u = t
  · simp [hu, hold, hnew]
  · simp [hu]

theorem Inv.give (h : Inv box prio m) (htaken : m.status t = .taken x) :
    Inv box prio ((m.hand x).setStatus t .idle) := by
  refine ⟨h.sorted, h.boxed, fun p y hy => ?_, ?_⟩
  · cases p with
    | box k => exact h.genuine (.box k) y hy
    | client u =>
      by_cases hu : u = t
      · simp [Mail.items, hu, Status.item] at hy
      · exact h.genuine (.client u) y (by simpa [Mail.items, hu] using hy)
    | returned =>
      rcases mem_append.mp hy with hy | hy
      · exact h.genuine .returned y hy
      · obtain rfl : y = x := by simpa using hy
        exact h.genuine (.client t) y (by simp [Mail.items, htaken, Status.item])
  · refine Handed.apart (p := .client t) (q := .returned) (a := x.ident) ?_ h.once
    refine ⟨by simp, ?_, ?_, ?_⟩
    · intro p hp hq
      cases p with
      | box k => rfl
      | client u =>
        have hu : u ≠ t := fun heq => hp (congrArg _ heq)
        simp [Mail.items, hu]
      | returned => exact absurd rfl hq
    · simp [Mail.items, htaken, Status.item]
    · simp [Mail.items]

end

variable [DecidableEq τ] [DecidableEq κ]

section

variable (h : Inv box prio m)
include h

omit [DecidableEq τ] in
theorem Inv.post (a : α) : Inv box prio (m.post box prio a) := by
  have hperm := perm_orderedInsert (fun x y : Item α => prio y.message < prio x.message)
    ⟨m.sent.length, a⟩ (m.queue (box a))
  have hmem : ∀ p, ∀ x ∈ (m.post box prio a).items p,
      (p = .box (box a) ∧ x = ⟨m.sent.length, a⟩) ∨ x ∈ m.items p := by
    intro p x hx
    cases p with
    | box k =>
      by_cases hk : k = box a
      · subst hk
        simp only [Mail.items, Mail.post_queue, update_self] at hx
        rcases mem_cons.mp (hperm.mem_iff.mp hx) with rfl | hx
        · exact .inl ⟨rfl, rfl⟩
        · exact .inr hx
      · exact .inr (by simpa [Mail.items, hk] using hx)
    | client t => exact .inr hx
    | returned => exact .inr hx
  refine ⟨fun k => ?_, fun k x hx => ?_, fun p x hx => ?_, ?_⟩
  · by_cases hk : k = box a
    · subst hk
      simp only [Mail.post_queue, update_self]
      refine pairwise_orderedInsert (h.sorted _) ?_ ?_ ?_
      · rintro x y (hxy | ⟨hxy, -⟩) hx
        · exact hxy.trans hx
        · exact hxy ▸ hx
      · exact fun x _ hx => .inl hx
      · -- the new message has the highest number
        intro x hx hprio
        rcases lt_or_eq_of_le (not_lt.mp hprio) with hlt | heq
        · exact .inl hlt
        · exact .inr ⟨heq.symm, h.ident_lt (p := .box (box a)) hx⟩
    · simpa [hk] using h.sorted k
  · rcases hmem (.box k) x hx with ⟨hk, rfl⟩ | hx
    · exact (Place.box.inj hk).symm
    · exact h.boxed k x hx
  · rcases hmem p x hx with ⟨-, rfl⟩ | hx
    · simp
    · rw [Mail.post_sent, getElem?_append_left (h.ident_lt hx)]
      exact h.genuine p x hx
  · refine h.once.add (a := m.sent.length) (p := .box (box a)) ?_ ?_ ?_
    · intro p hp
      obtain ⟨x, hx, heq⟩ := mem_map.mp hp
      have := h.ident_lt hx
      omega
    · intro p hp
      cases p with
      | box k =>
        have hk : k ≠ box a := fun heq => hp (congrArg _ heq)
        simp [Mail.items, hk]
      | client t => rfl
      | returned => rfl
    · simpa [Mail.items] using hperm.map Item.ident

theorem Inv.take {k : κ} (hnone : (m.status t).item = []) (hqueue : m.queue k = x :: rest) :
    Inv box prio ((m.setQueue k rest).setStatus t (.taken x)) := by
  have hmem : ∀ p, ∀ y ∈ ((m.setQueue k rest).setStatus t (.taken x)).items p,
      ∃ p', y ∈ m.items p' := by
    intro p y hy
    cases p with
    | box j =>
      by_cases hj : j = k
      · subst hj
        have hy : y ∈ rest := by simpa [Mail.items] using hy
        exact ⟨.box j, by simp [Mail.items, hqueue, hy]⟩
      · exact ⟨.box j, by simpa [Mail.items, hj] using hy⟩
    | client u =>
      by_cases hu : u = t
      · subst hu
        obtain rfl : y = x := by simpa [Mail.items, Status.item] using hy
        exact ⟨.box k, by simp [Mail.items, hqueue]⟩
      · exact ⟨.client u, by simpa [Mail.items, hu] using hy⟩
    | returned => exact ⟨.returned, hy⟩
  refine ⟨fun j => ?_, fun j y hy => ?_, fun p y hy => ?_, ?_⟩
  · by_cases hj : j = k
    · subst hj
      have := h.sorted j
      rw [hqueue] at this
      simpa using this.of_cons
    · simpa [hj] using h.sorted j
  · by_cases hj : j = k
    · subst hj
      exact h.boxed j y (by simp only [hqueue]; exact mem_cons_of_mem x (by simpa using hy))
    · exact h.boxed j y (by simpa [hj] using hy)
  · obtain ⟨p', hy⟩ := hmem p y hy
    exact h.genuine p' y hy
  · refine Handed.apart (p := .box k) (q := .client t) (a := x.ident) ?_ h.once
    refine ⟨by simp, ?_, ?_, ?_⟩
    · intro p hp hq
      cases p with
      | box j =>
        have hj : j ≠ k := fun heq => hp (congrArg _ heq)
        simp [Mail.items, hj]
      | client u =>
        have hu : u ≠ t := fun heq => hq (congrArg _ heq)
        simp [Mail.items, hu]
      | returned => rfl
    · simp [Mail.items, hqueue]
    · have htaken : (Status.taken x : Status κ α).item = [x] := rfl
      simp [Mail.items, hnone, htaken]

theorem Inv.step (hstep : Step box prio m m') : Inv box prio m' := by
  cases hstep with
  | stay => exact h
  | quiet t status hquiet => exact h.setStatus hquiet.item.1 hquiet.item.2
  | post t a hsending => exact (h.post a).setStatus (by simp [hsending, Status.item]) rfl
  | postOutside a => exact h.post a
  | take t k x rest hidle hqueue =>
    exact h.take (by rcases hidle with heq | heq <;> simp [heq, Status.item]) hqueue
  | give t x htaken => exact h.give htaken

/-- Who gets a message takes the oldest one of the highest priority. -/
theorem Inv.taken_first (hstep : Step box prio m m') (hold : m.status t ≠ .taken x)
    (hnew : m'.status t = .taken x) :
    ∃ k, x ∈ m.queue k ∧ ∀ y ∈ m.queue k, y ≠ x → Before prio x y := by
  -- the client itself has changed its status
  have hself : ∀ (m₁ : Mail τ κ α) (u : τ) (status : Status κ α), m₁.status = m.status →
      (m₁.setStatus u status).status t = .taken x → status = .taken x := by
    intro m₁ u status hsame htaken
    by_cases hu : t = u
    · simpa [hu] using htaken
    · rw [Mail.setStatus_status, update_of_ne hu, hsame] at htaken
      exact absurd htaken hold
  cases hstep with
  | stay => exact absurd hnew hold
  | quiet u status hquiet =>
    obtain rfl := hself m u status rfl hnew
    have := hquiet.item.2
    cases this
  | post u a => cases hself (m.post box prio a) u .posted rfl hnew
  | postOutside a => exact absurd hnew hold
  | take u k y rest _ hqueue =>
    obtain rfl : y = x := by simpa using hself (m.setQueue k rest) u (.taken y) rfl hnew
    refine ⟨k, by simp [hqueue], fun z hz hne => ?_⟩
    rw [hqueue] at hz
    exact h.head_before hqueue ((mem_cons.mp hz).resolve_left hne)
  | give u y => cases hself (m.hand y) u .idle rfl hnew

end

end NbLot.Lib.Mailbox
