import NbLot.Source.Gprs.Handshake

/-!
# GPRS bring-up: which reply acknowledges which command

Source: apps/examples/lid_master/task_gprs.c:284-560, 731-807.

A step that wrote its command twice leaves a second reply behind. Nothing in the
shared flag tells that reply from one to the next command, so the next step is
acknowledged by it. When no reply is outstanding at the moment a step is entered, and
no read fills the array, each step is acknowledged by a reply to its own command.
-/
namespace NbLot.Guarantees.GprsHandshake
open Lib.Transition Source.Gprs List

/-- The origins of everything the modem has produced and `master_gprs` has not yet
dispatched. -/
def outstanding (s : HandshakeState) : List (Option AtCommand) :=
  s.pending.map (fun r => some r.1) ++ s.line.map (fun x => some x.1) ++ s.rx.cArray.map Prod.fst

/-- `gprs_tcpinit` is called. The flag, the line and the replies outstanding are
whatever went before. -/
def TcpinitCalled (s : HandshakeState) : Prop :=
  s.pc = .enter ∧ s.todo = gprsTcpinit ∧ s.matched = []

/-- The keyword a step saw consists of bytes of replies to its own command, and that
command was written. -/
def OwnReply (sent : List String) (m : AtCommand × List (Option AtCommand)) : Prop :=
  m.1.text ∈ sent ∧ m.2 ≠ [] ∧ ∀ tag ∈ m.2, tag = some m.1

/-- If `gprs_tcpinit` has returned SUCCESS, each of its commands was matched by a
reply to a write of that same command. -/
def RepliesMatched (s : HandshakeState) : Prop :=
  s.pc = .returned true →
    s.matched.map Prod.fst = gprsTcpinit.map HandshakeStep.command ∧
    ∀ m ∈ s.matched, OwnReply s.sent m

/-- A step is entered with no reply outstanding, and a read leaves room for the
terminator. -/
def RepliesSettled (s : HandshakeState) : HandshakeAct → Prop
  | .monitor _ => s.pc = .enter → outstanding s = []
  | .read arrived _ _ => (s.line.take arrived).length < 200
  | .transmit _ | .dispatch => True

instance (s : HandshakeState) (a : HandshakeAct) : Decidable (RepliesSettled s a) :=
  match a with
  | .monitor _ => inferInstanceAs (Decidable (s.pc = .enter → outstanding s = []))
  | .read arrived _ _ => inferInstanceAs (Decidable ((s.line.take arrived).length < 200))
  | .transmit _ | .dispatch => .isTrue trivial

/-- The step has been entered and has not seen its value. -/
def InLoop : MonitorPc → Prop
  | .test | .write | .count => True
  | .enter | .leave | .returned _ => False

/-- The steps that have not seen their value yet. -/
def unmatched (s : HandshakeState) : List HandshakeStep :=
  match s.pc with
  | .leave => s.todo.tail
  | _ => s.todo

/-- Everything outstanding answers `c`, and so does the keyword behind the flag. -/
structure OnlyReplies (s : HandshakeState) (c : AtCommand) : Prop where
  out : ∀ tag ∈ outstanding s, tag = some c ∧ c.text ∈ s.sent
  flag : s.msgack ≠ .noack → OwnReply s.sent (c, s.keyword)

structure Tracked (steps : List HandshakeStep) (s : HandshakeState) : Prop where
  awaited : ∀ h ∈ s.todo, h.awaited ≠ .noack
  order : s.matched.map Prod.fst ++ (unmatched s).map HandshakeStep.command =
    steps.map HandshakeStep.command
  own : ∀ m ∈ s.matched, OwnReply s.sent m
  current : InLoop s.pc → ∀ cur ∈ s.todo.head?, OnlyReplies s cur.command
  finished : s.pc = .returned true → s.todo = []

/-- What the receive task and the modem leave alone. -/
structure SameMonitor (s t : HandshakeState) : Prop where
  pc : t.pc = s.pc
  todo : t.todo = s.todo
  matched : t.matched = s.matched
  sent : t.sent = s.sent

theorem outstanding_dispatched (s t : HandshakeState) (hpending : t.pending = s.pending)
    (hline : t.line = s.line) (hrx : t.rx.cArray = []) :
    ∀ tag ∈ outstanding t, tag ∈ outstanding s := by
  intro tag htag
  rw [outstanding, hpending, hline, hrx, map_nil, append_nil] at htag
  exact mem_append_left _ htag

/-- An action of the other two parties brings nothing new into flight, and a flag it
sets is explained by what was in flight. -/
theorem other_parties (s t : HandshakeState) (a : HandshakeAct) (hok : RepliesSettled s a)
    (ha : ∀ reply, a ≠ .monitor reply) (h : handshakeStep s a = some t) :
    SameMonitor s t ∧ (∀ tag ∈ outstanding t, tag ∈ outstanding s) ∧
      ((t.msgack = s.msgack ∧ t.keyword = s.keyword) ∨
        (t.keyword ≠ [] ∧ ∀ tag ∈ t.keyword, tag ∈ outstanding s)) := by
  cases a with
  | monitor reply => exact absurd rfl (ha reply)
  | transmit index =>
    simp only [handshakeStep] at h
    split at h
    · cases h
    · rename_i reply hreply
      cases h
      refine ⟨⟨rfl, rfl, rfl, rfl⟩, ?_, .inl ⟨rfl, rfl⟩⟩
      intro tag htag
      have hmem : reply ∈ s.pending := mem_of_getElem? hreply
      simp only [outstanding, map_append, map_map, mem_append, mem_map] at htag ⊢
      rcases htag with (⟨r, hr, htag⟩ | hline | ⟨c, _, htag⟩) | hrx
      · exact .inl (.inl ⟨r, mem_of_mem_eraseIdx hr, htag⟩)
      · exact .inl (.inr hline)
      · exact .inl (.inl ⟨reply, hmem, htag⟩)
      · exact .inr hrx
  | read arrived flushed behind =>
    simp only [handshakeStep] at h
    split at h
    · rename_i hrx
      cases h
      refine ⟨⟨rfl, rfl, rfl, rfl⟩, ?_, .inl ⟨rfl, rfl⟩⟩
      have hshort : ((s.line.take arrived).take 200).length ≠ 200 := by
        have hlt : (s.line.take arrived).length < 200 := hok
        rw [length_take]
        omega
      intro tag htag
      simp only [outstanding, readLine, RxTask.cArray, length_map, if_neg hshort,
        map_map, mem_append, mem_map] at htag ⊢
      rcases htag with (hpend | ⟨x, hx, htag⟩) | ⟨x, hx, htag⟩
      · exact .inl (.inl hpend)
      · exact .inl (.inr ⟨x, mem_of_mem_drop hx, htag⟩)
      · exact .inl (.inr ⟨x, mem_of_mem_take (mem_of_mem_take hx), htag⟩)
    · cases h
    · cases h
  | dispatch =>
    simp only [handshakeStep] at h
    split at h
    · cases h
    · cases h
    · rename_i cArray hrx
      split at h
      · cases h
        exact ⟨⟨rfl, rfl, rfl, rfl⟩, outstanding_dispatched s _ rfl rfl rfl, .inl ⟨rfl, rfl⟩⟩
      · rename_i value keyword hset
        cases h
        obtain ⟨hne, hread⟩ := dispatch_set hset
        refine ⟨⟨rfl, rfl, rfl, rfl⟩, outstanding_dispatched s _ rfl rfl rfl, .inr ⟨hne, ?_⟩⟩
        intro tag htag
        obtain ⟨x, hx, heq⟩ := hread tag htag
        apply mem_append_right
        rw [hrx]
        exact mem_map.mpr ⟨x, hx, heq⟩
      · cases h
        exact ⟨⟨rfl, rfl, rfl, rfl⟩, outstanding_dispatched s _ rfl rfl rfl, .inl ⟨rfl, rfl⟩⟩

theorem tracked_other {steps : List HandshakeStep} {s t : HandshakeState} {a : HandshakeAct}
    (hs : Tracked steps s) (hok : RepliesSettled s a) (ha : ∀ reply, a ≠ .monitor reply)
    (h : handshakeStep s a = some t) : Tracked steps t := by
  obtain ⟨same, hout, hflag⟩ := other_parties s t a hok ha h
  refine ⟨?_, ?_, ?_, ?_, ?_⟩
  · rw [same.todo]
    exact hs.awaited
  · rw [same.matched, unmatched, same.pc, same.todo]
    exact hs.order
  · rw [same.matched, same.sent]
    exact hs.own
  · rw [same.pc, same.todo]
    intro hloop cur hcur
    have only := hs.current hloop cur hcur
    refine ⟨?_, ?_⟩
    · intro tag htag
      rw [same.sent]
      exact only.out tag (hout tag htag)
    · intro hack
      rw [same.sent]
      cases hflag with
      | inl kept =>
        rw [kept.2]
        rw [kept.1] at hack
        exact only.flag hack
      | inr found =>
        -- the keyword is not empty, so one of its bytes shows the command was written
        obtain ⟨tag, htag⟩ := exists_mem_of_ne_nil _ found.1
        refine ⟨(only.out tag (found.2 tag htag)).2, found.1, ?_⟩
        intro tag htag
        exact (only.out tag (found.2 tag htag)).1
  · rw [same.pc, same.todo]
    exact hs.finished

theorem OwnReply.mono (sent more : List String) (m : AtCommand × List (Option AtCommand))
    (h : OwnReply sent m) : OwnReply (sent ++ more) m :=
  ⟨mem_append_left _ h.1, h.2⟩

/-- The write of `cur` adds at most one reply, to `cur`. -/
theorem outstanding_write (s : HandshakeState) (cur : HandshakeStep) (reply : Option (List Char))
    (pc : MonitorPc) (tag : Option AtCommand)
    (h : tag ∈ outstanding { s with
      sent := s.sent ++ [cur.command.text]
      pending := s.pending ++ (reply.map (cur.command, ·)).toList
      pc := pc }) :
    tag ∈ outstanding s ∨ tag = some cur.command := by
  simp only [outstanding, map_append, mem_append] at h ⊢
  rcases h with ((hold | hnew) | hline) | hrx
  · exact .inl (.inl (.inl hold))
  · cases reply with
    | none => cases hnew
    | some text =>
      simp only [Option.map_some, Option.toList_some, map_cons, map_nil, mem_singleton] at hnew
      exact .inr hnew
  · exact .inl (.inl (.inr hline))
  · exact .inl (.inr hrx)

theorem unmatched_of_ne (s : HandshakeState) (h : s.pc ≠ .leave) : unmatched s = s.todo := by
  unfold unmatched
  split
  · exact absurd ‹_› h
  · rfl

section Statements

variable {steps rest : List HandshakeStep} {s t : HandshakeState} {cur : HandshakeStep}
  {reply : Option (List Char)}

section

variable (hs : Tracked steps s) (h : monitorStatement s cur rest reply = some t)
include hs h

theorem tracked_enter (hpc : s.pc = .enter) (hquiet : outstanding s = []) : Tracked steps t := by
  simp only [monitorStatement, hpc] at h
  cases h
  have horder := hs.order
  rw [unmatched_of_ne s (by rw [hpc]; decide)] at horder
  refine ⟨hs.awaited, ?_, hs.own, ?_, ?_⟩
  · rw [unmatched_of_ne _ (by dsimp only; split <;> decide)]
    exact horder
  · intro _ other _
    refine ⟨?_, ?_⟩
    · intro tag htag
      change tag ∈ outstanding s at htag
      rw [hquiet] at htag
      cases htag
    · intro hack
      exact absurd rfl hack
  · intro hreturned
    split at hreturned <;> cases hreturned

theorem tracked_test (htodo : s.todo = cur :: rest) (hpc : s.pc = .test) : Tracked steps t := by
  have only : OnlyReplies s cur.command :=
    hs.current (by rw [hpc]; trivial) cur (by rw [htodo]; rfl)
  have horder := hs.order
  rw [unmatched_of_ne s (by rw [hpc]; decide)] at horder
  simp only [monitorStatement, hpc] at h
  split at h
  · rename_i hack
    cases h
    -- the awaited value is never NOACK, so the flag was set by a reply to this command
    have hset : s.msgack ≠ .noack := by
      rw [hack]
      exact hs.awaited cur (by rw [htodo]; exact mem_cons_self)
    refine ⟨hs.awaited, ?_, ?_, fun hloop => hloop.elim, fun hreturned => nomatch hreturned⟩
    · simpa [unmatched, htodo] using horder
    · intro m hm
      cases mem_append.mp hm with
      | inl hold => exact hs.own m hold
      | inr hnew =>
        rw [mem_singleton.mp hnew]
        exact only.flag hset
  · cases h
    refine ⟨hs.awaited, ?_, hs.own, ?_, ?_⟩
    · rw [unmatched_of_ne _ (by dsimp only; split <;> decide)]
      exact horder
    · intro _ other hother
      rw [htodo] at hother
      cases hother
      exact ⟨only.out, only.flag⟩
    · intro hreturned
      split at hreturned <;> cases hreturned

theorem tracked_write (htodo : s.todo = cur :: rest) (hpc : s.pc = .write) : Tracked steps t := by
  have only : OnlyReplies s cur.command :=
    hs.current (by rw [hpc]; trivial) cur (by rw [htodo]; rfl)
  have horder := hs.order
  rw [unmatched_of_ne s (by rw [hpc]; decide)] at horder
  simp only [monitorStatement, hpc] at h
  cases h
  refine ⟨hs.awaited, ?_, fun m hm => (hs.own m hm).mono _ _ _, ?_, ?_⟩
  · rw [unmatched_of_ne _ (by dsimp only; split <;> decide)]
    exact horder
  · intro _ other hother
    rw [htodo] at hother
    cases hother
    refine ⟨?_, fun hack => (only.flag hack).mono _ _ _⟩
    intro tag htag
    refine ⟨?_, mem_append_right _ (mem_singleton.mpr rfl)⟩
    cases outstanding_write s cur reply _ tag htag with
    | inl hold => exact (only.out tag hold).1
    | inr hnew => exact hnew
  · intro hreturned
    split at hreturned <;> cases hreturned

theorem tracked_count (hpc : s.pc = .count) : Tracked steps t := by
  have horder := hs.order
  rw [unmatched_of_ne s (by rw [hpc]; decide)] at horder
  simp only [monitorStatement, hpc] at h
  split at h
  · cases h
    exact ⟨hs.awaited, horder, hs.own, fun hloop => hloop.elim, fun hreturned => nomatch hreturned⟩
  · cases h
    refine ⟨hs.awaited, horder, hs.own, ?_, fun hreturned => nomatch hreturned⟩
    intro _ other hother
    have only := hs.current (by rw [hpc]; trivial) other hother
    exact ⟨only.out, only.flag⟩

theorem tracked_leave (htodo : s.todo = cur :: rest) (hpc : s.pc = .leave) : Tracked steps t := by
  have horder := hs.order
  simp only [unmatched, hpc, htodo] at horder
  simp only [monitorStatement, hpc] at h
  cases h
  refine ⟨?_, ?_, hs.own, ?_, ?_⟩
  · intro other hother
    apply hs.awaited
    rw [htodo]
    exact mem_cons_of_mem cur hother
  · rw [unmatched_of_ne _ (by dsimp only; split <;> decide)]
    exact horder
  · intro hloop
    split at hloop <;> cases hloop
  · intro hreturned
    split at hreturned
    · assumption
    · cases hreturned

end

end Statements

theorem tracked_step (steps : List HandshakeStep) (s : HandshakeState) (a : HandshakeAct)
    (t : HandshakeState) (hs : Tracked steps s) (hok : RepliesSettled s a)
    (h : handshakeStep s a = some t) : Tracked steps t := by
  cases a with
  | monitor reply =>
    simp only [handshakeStep] at h
    split at h
    · cases h
    · rename_i cur rest htodo
      cases hpc : s.pc with
      | enter => exact tracked_enter hs h hpc (hok hpc)
      | test => exact tracked_test hs h htodo hpc
      | write => exact tracked_write hs h htodo hpc
      | count => exact tracked_count hs h hpc
      | leave => exact tracked_leave hs h htodo hpc
      | returned success =>
        simp only [monitorStatement, hpc] at h
        cases h
  | transmit index => exact tracked_other hs hok (fun _ => nofun) h
  | read arrived flushed behind => exact tracked_other hs hok (fun _ => nofun) h
  | dispatch => exact tracked_other hs hok (fun _ => nofun) h

theorem tracked_called (s : HandshakeState) (h : TcpinitCalled s) : Tracked gprsTcpinit s := by
  obtain ⟨hpc, htodo, hmatched⟩ := h
  refine ⟨?_, ?_, ?_, ?_, ?_⟩
  · rw [htodo]
    decide
  · rw [unmatched_of_ne s (by rw [hpc]; decide), htodo, hmatched]
    rfl
  · rw [hmatched]
    exact nofun
  · rw [hpc]
    exact fun hloop => hloop.elim
  · rw [hpc]
    exact nofun

/-- In every interleaving in which each step is entered with no reply outstanding and
no read fills the array, SUCCESS means that every command was matched by a reply to a
write of that same command. -/
theorem tcpinit_replies_matched (s t : HandshakeState) (acts : List HandshakeAct)
    (hcalled : TcpinitCalled s) (hsettled : StepsMeet handshakeStep RepliesSettled s acts)
    (hrun : run handshakeStep s acts = some t) : RepliesMatched t := by
  have tracked : Tracked gprsTcpinit t :=
    invariant_run (tracked_step gprsTcpinit) (tracked_called s hcalled) hsettled hrun
  intro hreturned
  refine ⟨?_, tracked.own⟩
  have horder := tracked.order
  rw [unmatched_of_ne t (by rw [hreturned]; decide), tracked.finished hreturned, map_nil,
    append_nil] at horder
  exact horder

/-- The flag is clear, nothing is outstanding and `gprs_tcpinit` is called. -/
def called : HandshakeState :=
  { msgack := .noack, keyword := [], pc := .enter, todo := gprsTcpinit, cnt := 0, matched := []
    sent := [], pending := [], line := [], rx := .waiting }

/-- The next outstanding reply is sent, read as a whole and dispatched. -/
def delivered (arrived : Nat) : List HandshakeAct :=
  [.transmit 0, .read arrived 0 [], .dispatch]

/-- A step of the monitor task that writes once and whose reply comes before the
count. -/
def answered (reply : List Char) : List HandshakeAct :=
  [.monitor none, .monitor none, .monitor (some reply)] ++ delivered reply.length ++
    [.monitor none, .monitor none, .monitor none]

def okReply : List Char := ['O', 'K', '\r', '\n']

def connectReply : List Char := ['C', 'O', 'N', 'N', 'E', 'C', 'T', '\r', '\n']

/-- `into_establish`: the write stands before the loop. -/
def established : List HandshakeAct :=
  [.monitor none, .monitor (some okReply)] ++ delivered 4 ++ [.monitor none, .monitor none]

def promptModem : List HandshakeAct :=
  answered okReply ++ answered okReply ++ answered okReply ++ answered okReply ++
    answered okReply ++ established ++ answered connectReply

theorem tcpinit_replies_matched_prompt :
    TcpinitCalled called ∧ StepsMeet handshakeStep RepliesSettled called promptModem ∧
      ∃ t, run handshakeStep called promptModem = some t ∧ t.pc = .returned true ∧
        RepliesMatched t := by
  have hcalled : TcpinitCalled called := ⟨rfl, rfl, rfl⟩
  have hsettled : StepsMeet handshakeStep RepliesSettled called promptModem := by decide +kernel
  have hsuccess : ((run handshakeStep called promptModem).map HandshakeState.pc) =
      some (.returned true) := by decide +kernel
  obtain ⟨t, hrun, hpc⟩ := Option.map_eq_some_iff.mp hsuccess
  exact ⟨hcalled, hsettled, t, hrun, hpc, tcpinit_replies_matched called t _ hcalled hsettled hrun⟩

/-- `set_sconType` writes twice before the first OK comes. The second OK comes in
`set_apn`, whose own write the modem never answers. -/
def lateModem : List HandshakeAct :=
  [.monitor none, .monitor none, .monitor (some okReply), .monitor none, .monitor none,
    .monitor (some okReply)] ++ delivered 4 ++ [.monitor none, .monitor none, .monitor none] ++
  [.monitor none, .monitor none, .monitor none] ++ delivered 4 ++
    [.monitor none, .monitor none, .monitor none] ++
  answered okReply ++ answered okReply ++ answered okReply ++ established ++ answered connectReply

/-- Called with nothing outstanding, `gprs_tcpinit` returns SUCCESS although `set_apn`
was acknowledged by the reply to a retransmitted `set_sconType`. -/
theorem retransmitted_reply_acknowledges_next :
    TcpinitCalled called ∧ outstanding called = [] ∧
      ∃ t, run handshakeStep called lateModem = some t ∧ t.pc = .returned true ∧
        (.apn, [some .sconType, some .sconType]) ∈ t.matched ∧ ¬ RepliesMatched t := by
  refine ⟨⟨rfl, rfl, rfl⟩, rfl, ?_⟩
  have hsuccess : ((run handshakeStep called lateModem).map fun t => (t.pc, t.matched[1]?)) =
      some (.returned true, some (.apn, [some .sconType, some .sconType])) := by decide +kernel
  obtain ⟨t, hrun, hreached⟩ := Option.map_eq_some_iff.mp hsuccess
  obtain ⟨hpc, hsecond⟩ := Prod.mk.inj hreached
  have hmem := mem_of_getElem? hsecond
  refine ⟨t, hrun, hpc, hmem, ?_⟩
  intro hmatched
  have own : OwnReply t.sent (.apn, [some .sconType, some .sconType]) := (hmatched hpc).2 _ hmem
  have htag := own.2.2 (some .sconType) mem_cons_self
  cases htag

end NbLot.Guarantees.GprsHandshake
