import Dosfs.Net.TcpBuffer
import Dosfs.Net.Waiting

/-!
# Who drives a connection

`tcp_process` accepts a segment by its destination port, its flags and its
length. It reads neither where the segment comes from nor what it acknowledges,
so a stranger's segment leaves the connection alone exactly when any segment
with these flags and this length would.
-/

namespace Dosfs

open Foundation Fuelled

/-! ## Segments of strangers -/

/-- The source port of a segment. -/
def srcPort (segment : Memory) : Nat := ntohs (segment.loadLe 0 2)

/-- The segment is not from the peer that the connection was opened to, or it
comes instead of the answer to our SYN, which has the number 0x1000, and
acknowledges something else. -/
def Foreign (s : Net) (src : Ip) (segment : Memory) : Prop :=
  src ≠ s.tcpDstIp ∨ srcPort segment ≠ s.ts.dport ∨
    (s.ts.state = .synSent ∧ ackNum segment ≠ 0x1000 + 1)

instance (s : Net) (src : Ip) (segment : Memory) : Decidable (Foreign s src segment) :=
  inferInstanceAs (Decidable (_ ∨ _))

/-- The connection and its buffer are as before, no segment was handed to IP and
no frame to the card. -/
structure Unaffected (s s' : Net) : Prop where
  state : s'.ts.state = s.ts.state
  seq : s'.ts.seq = s.ts.seq
  ack : s'.ts.ack = s.ts.ack
  rxLen : s'.ts.rxLen = s.ts.rxLen
  rxBuf : s'.ts.rxBuf = s.ts.rxBuf
  acks : s'.ts.talk.acks = s.ts.talk.acks
  sent : s'.sent = s.sent

/-- A segment that ends an open connection. -/
def TcpResets (t : TcpState) (segment : Memory) (len : Nat) : Prop :=
  20 ≤ len ∧ (tcpHeader segment).dstPort = t.sport ∧ t.state = .established ∧
    hasFlag (tcpHeader segment).flags tcpFlagRst

instance (t : TcpState) (segment : Memory) (len : Nat) : Decidable (TcpResets t segment len) :=
  inferInstanceAs (Decidable (_ ∧ _))

/-- A segment that is neither answered nor ends the connection. -/
def Ignored (t : TcpState) (segment : Memory) (len : Nat) : Prop :=
  ¬TcpAnswers t segment len ∧ ¬TcpResets t segment len

instance (t : TcpState) (segment : Memory) (len : Nat) : Decidable (Ignored t segment len) :=
  inferInstanceAs (Decidable (_ ∧ _))

/-! ## What polling keeps of a connection -/

/-- The acknowledgements sent before are the first ones. -/
def AcksGrow (s s' : Net) : Prop := s.ts.talk.acks <+: s'.ts.talk.acks

instance : IsPreorder Net AcksGrow where
  refl _ := List.prefix_refl _
  trans _ _ _ h h' := h.trans h'

theorem TcpHeard.acks {t t' : TcpState} (h : TcpHeard t t') : t.talk.acks <+: t'.talk.acks := by
  cases h with
  | noteAck flags data dlen hstate =>
      unfold TcpState.noteAck
      split
      next => exact List.prefix_append _ _
      next => exact List.prefix_refl _
  | accept segment len hlen hstate =>
      exact (t.accept_frame segment len).2.2 ▸ List.prefix_refl _
  | establish | sent | closed => exact List.prefix_refl _

theorem AcksGrow.closed : Closed AcksGrow := by
  refine .of_connection ?_ ?_ ?_
  · intro s s' h
    change s.ts.talk.acks <+: s'.ts.talk.acks
    exact h.ts ▸ List.prefix_refl _
  · exact fun _ => List.prefix_refl _
  · exact fun h => h.acks

section

variable {env : Env} {poll : NetM Unit} {rounds len : Nat} {s : Net}

/-- An acknowledgement goes on record when it is built. -/
theorem tcpSendSeg_acks (hpoll : ∀ s, Within AcksGrow s poll) :
    s.ts.talk.acks.length <
      (outcome (tcpSendSeg env poll rounds tcpFlagAck (fun _ => 0) 0) s).2.ts.talk.acks.length := by
  let segment := tcpSegment s.ts.sport s.ts.dport s.ts.seq s.ts.ack tcpFlagAck (fun _ => 0) 0
  have hrest : AcksGrow { s with ts := s.ts.noteAck tcpFlagAck segment }
      (outcome (tcpSendSeg env poll rounds tcpFlagAck (fun _ => 0) 0) s).2 := by
    rw [tcpSendSeg, if_neg (by decide), outcome_get_bind, outcome_modify_bind]
    change Within AcksGrow _ _
    apply within_bind (kmallocSucceeds_within AcksGrow.closed.toClosedSteps)
    intro found _ _ _
    apply within_bind (netSendIp_within AcksGrow.closed hpoll)
    intro _ s' _ _
    exact within_modify (AcksGrow.closed.step (.heard (.sent s'.ts tcpFlagAck 0)))
  refine Nat.lt_of_lt_of_le ?_ hrest.length_le
  change _ < (s.ts.noteAck tcpFlagAck segment).talk.acks.length
  rw [TcpState.noteAck, if_pos (by decide), List.length_append, List.length_singleton]
  exact Nat.lt_succ_self _

variable {payload : Net → Memory}

/-- Without data and FIN nothing is taken. -/
theorem tcpTake_of_nothing (hinc : (tcpHeader (payload s)).increment len = 0) :
    outcome (tcpTake env poll rounds payload (payload s) len) s = (some (), s) := by
  have hfin : ¬hasFlag (tcpHeader (payload s)).flags tcpFlagFin := by
    intro hfin
    rw [TcpHeader.increment, if_pos hfin] at hinc
    omega
  rw [tcpTake, outcome_modify_bind, TcpState.accept_of_nothing hinc, if_neg (not_not.mpr hinc),
    tcpFinish, outcome_get_bind]
  dsimp only
  rw [if_neg hfin]
  rfl

/-- A segment that is ignored changes nothing. -/
theorem tcpProcess_of_ignored (h : Ignored s.ts (payload s) len) :
    outcome (tcpProcess env poll rounds payload len) s = (some (), s) := by
  obtain ⟨hanswers, hresets⟩ := h
  unfold tcpProcess
  by_cases hlen : len < 20
  · rw [if_pos hlen]
    rfl
  · rw [if_neg hlen, outcome_get_bind]
    dsimp only
    by_cases hport : (tcpHeader (payload s)).dstPort ≠ s.ts.sport
    · rw [if_pos hport]
      rfl
    · rw [if_neg hport]
      split
      next hstate =>
        rw [if_neg]
        · rfl
        · exact fun hflags =>
            hanswers ⟨Nat.not_lt.mp hlen, not_not.mp hport, .inl ⟨hstate, hflags⟩⟩
      next hstate =>
        rw [if_neg]
        · have hinc : (tcpHeader (payload s)).increment len = 0 := by
            by_contra hne
            exact hanswers ⟨Nat.not_lt.mp hlen, not_not.mp hport,
              .inr ⟨hstate, fun hrst => hresets
                ⟨Nat.not_lt.mp hlen, not_not.mp hport, hstate, hrst⟩, hne⟩⟩
          exact tcpTake_of_nothing hinc
        · exact fun hrst => hresets ⟨Nat.not_lt.mp hlen, not_not.mp hport, hstate, hrst⟩
      next => rfl

/-- An answered segment leaves an acknowledgement on record. -/
theorem tcpProcess_of_answers (hpoll : ∀ s, Within AcksGrow s poll)
    (h : TcpAnswers s.ts (payload s) len) :
    s.ts.talk.acks.length <
      (outcome (tcpProcess env poll rounds payload len) s).2.ts.talk.acks.length := by
  obtain ⟨hlen, hport, hanswers⟩ := h
  rw [tcpProcess, if_neg (Nat.not_lt.mpr hlen), outcome_get_bind]
  dsimp only
  rw [if_neg (not_not.mpr hport)]
  rcases hanswers with ⟨hstate, hsyn, hack⟩ | ⟨hstate, hrst, hinc⟩
  · rw [hstate]
    dsimp only
    rw [if_pos ⟨hsyn, hack⟩, outcome_modify_bind]
    refine Nat.lt_of_le_of_lt ?_ (tcpSendSeg_acks hpoll)
    exact Nat.le_refl _
  · rw [hstate]
    dsimp only
    rw [if_neg hrst, tcpTake, outcome_modify_bind, if_pos hinc]
    have haccept : s.ts.talk.acks <+: (s.ts.accept (payload s) len).talk.acks :=
      (TcpHeard.accept s.ts (payload s) len hlen hstate).acks
    have hsent : (s.ts.accept (payload s) len).talk.acks.length <
        (outcome (tcpSendSeg env poll rounds tcpFlagAck (fun _ => 0) 0)
          { s with ts := s.ts.accept (payload s) len }).2.ts.talk.acks.length :=
      tcpSendSeg_acks (s := { s with ts := s.ts.accept (payload s) len }) hpoll
    refine Nat.lt_of_lt_of_le (Nat.lt_of_le_of_lt haccept.length_le hsent) ?_
    have hafter (f : Unit → NetM Unit) (hf : ∀ a t, Within AcksGrow t (f a)) (s : Net) :
        AcksGrow (outcome (tcpSendSeg env poll rounds tcpFlagAck (fun _ => 0) 0) s).2
          (outcome (tcpSendSeg env poll rounds tcpFlagAck (fun _ => 0) 0 >>= f) s).2 :=
      within_bind_after hf
    exact (hafter _ (fun _ _ => tcpFinish_within AcksGrow.closed.toClosedSteps) _).length_le

/-- A reset closes the connection. -/
theorem tcpProcess_of_resets (h : TcpResets s.ts (payload s) len) :
    outcome (tcpProcess env poll rounds payload len) s =
      (some (), { s with ts := { s.ts with state := .closed } }) := by
  obtain ⟨hlen, hport, hstate, hrst⟩ := h
  rw [tcpProcess, if_neg (Nat.not_lt.mpr hlen), outcome_get_bind]
  dsimp only
  rw [if_neg (not_not.mpr hport), hstate]
  dsimp only
  rw [if_pos hrst]
  rfl

end

/-! ## Only the peer -/

/-- Processing the segment returns and leaves the connection alone, if it is a
stranger's. -/
def OnlyPeer (env : Env) (rounds depth : Nat) (s : Net) (src : Ip) (payload : Net → Memory)
    (len : Nat) : Prop :=
  Foreign s src (payload s) → ∃ s',
    outcome (tcpProcess env (netPoll env rounds depth) rounds payload len) s = (some (), s') ∧
      Unaffected s s'

/-- In every state of the connection, strangers are kept out exactly of what
`tcp_process` ignores from anyone: segments that are too short or for another
port, in `TCP_SYN_SENT` those without SYN and ACK, and in `TCP_ESTABLISHED` those
without RST, data and FIN. -/
theorem only_peer_iff (env : Env) (rounds depth : Nat) (s : Net) (src : Ip)
    (payload : Net → Memory) (len : Nat) :
    OnlyPeer env rounds depth s src payload len ↔
      (Foreign s src (payload s) → Ignored s.ts (payload s) len) := by
  refine forall_congr' fun _ => ⟨?_, fun h => ?_⟩
  · rintro ⟨s', hreturns, hsame⟩
    constructor
    · intro hanswers
      have hgrow : s.ts.talk.acks.length < (outcome (tcpProcess env (netPoll env rounds depth)
          rounds payload len) s).2.ts.talk.acks.length :=
        tcpProcess_of_answers (netPoll_within AcksGrow.closed env rounds depth) hanswers
      rw [hreturns, hsame.acks] at hgrow
      exact Nat.lt_irrefl _ hgrow
    · intro hresets
      have hstate := hsame.state
      rw [tcpProcess_of_resets hresets] at hreturns
      obtain ⟨-, rfl⟩ := Prod.mk.inj hreturns
      rw [hresets.2.2.1] at hstate
      cases hstate
  · exact ⟨s, tcpProcess_of_ignored h, ⟨rfl, rfl, rfl, rfl, rfl, rfl, rfl⟩⟩

/-- A connection to the gateway. -/
def openNet : Net :=
  { startNet with
    ts := { startNet.ts with state := .established, sport := 0xC000, dport := 80 }
    tcpDstIp := gateway }

/-- A reset that somebody else sends from another port. -/
def strayReset : Memory := tcpSegment 4444 0xC000 0 0 tcpFlagRst (fun _ => 0) 0

/-- A stranger's reset closes the connection. -/
theorem stray_reset_closes :
    Foreign openNet ⟨10, 0, 2, 99⟩ strayReset ∧
    ∀ env rounds depth, ∃ s',
      outcome (tcpProcess env (netPoll env rounds depth) rounds (fun _ => strayReset) 20) openNet =
        (some (), s') ∧
      openNet.ts.state = .established ∧ s'.ts.state = .closed ∧ ¬Unaffected openNet s' := by
  have hresets : TcpResets openNet.ts strayReset 20 := by decide
  refine ⟨by decide, fun env rounds depth => ⟨_, tcpProcess_of_resets hresets, rfl, rfl, ?_⟩⟩
  intro hsame
  cases hsame.state

end Dosfs
