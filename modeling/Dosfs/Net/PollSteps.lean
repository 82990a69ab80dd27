import Dosfs.Net.Steps

/-!
# What polling does, step by step

Polling the card makes changes of a few kinds, whatever frames arrive: it fills
and empties the ring, sends echo replies, bare acknowledgements and ARP packets,
and takes over what a handler reads. A relation between states that holds across
each of them holds across every poll.
-/

namespace Dosfs

open Foundation Fuelled Relation

/-- The `len` bytes of a frame are an IP packet with a datagram, as `dispatch`
tells. -/
def IsUdp (pkt : Memory) (len : Nat) : Prop :=
  ntohs (pkt.loadLe 12 2) = ethTypeIp ∧ 34 ≤ len ∧ pkt 23 = ipUdp

instance (pkt : Memory) (len : Nat) : Decidable (IsUdp pkt len) :=
  inferInstanceAs (Decidable (_ ∧ _))

/-- A change that polling the card makes. -/
inductive PollStep : Net → Net → Prop
  | timer (s : Net) : PollStep s { s with readings := s.readings + 1 }
  | alloc (s : Net) : PollStep s { s with allocs := s.allocs + 1 }
  | receive (env : Env) (s : Net) : PollStep s (receiveAll env s)
  | noteDispatch (s : Net) : PollStep s { s with rx := s.rx.noteDispatch }
  | advance (s : Net) : PollStep s { s with rx := s.rx.advance }
  | arp (s : Net) (cache : List ArpEntry) (waiting : Bool) (mac : Mac) :
      PollStep s { s with arpCache := cache, arpWaiting := waiting, arpReplyMac := mac }
  | sendArp (s : Net) (packet : Memory) :
      PollStep s { s with sent := s.sent ++ [packet.loadList 0 42] }
  | sendIp (s : Net) (mac : Mac) (dst : Ip) {proto : UInt8} {payload : Memory} {len total : Nat}
      (hkind : proto = ipIcmp ∨ payload 13 = tcpFlagAck) (htotal : total ≤ 34 + len) :
      PollStep s { s with
        sent := s.sent ++ [(ipFrame macAddr mac ourIp dst proto payload len).loadList 0 total] }
  | icmp (s : Net) (count : Nat) (type : UInt8) (ok : Bool) :
      PollStep s { s with icmpRecvCount := count, lastIcmpType := type, pingOk := ok }
  | tcp {s : Net} {ts : TcpState} (hheard : TcpHeard s.ts ts)
      (hseq : ts.seq % 2 ^ 32 = s.ts.seq % 2 ^ 32) : PollStep s { s with ts := ts }
  | udp {s : Net} {pkt : Memory} {len : Nat} (hnoted : Noted s pkt len) (hudp : IsUdp pkt len) :
      PollStep s (outcome (udpProcess (pkt.window 34) (len - 34)) s).2

/-- Such changes lead from one state to the other. -/
def Polls : Net → Net → Prop := ReflTransGen PollStep

instance : IsPreorder Net Polls where
  refl _ := .refl
  trans _ _ _ h h' := h.trans h'

theorem PollStep.polls {s s' : Net} (h : PollStep s s') : Polls s s' := .single h

/-- A relation that holds across each change holds across a poll. -/
theorem Polls.rel {R : Net → Net → Prop} [IsPreorder Net R]
    (hstep : ∀ {s s' : Net}, PollStep s s' → R s s') {s s' : Net} (h : Polls s s') : R s s' := by
  unfold Polls at h
  induction h with
  | refl => exact refl _
  | tail _ hlast ih => exact IsTrans.trans _ _ _ ih (hstep hlast)

theorem noteAck_seq (t : TcpState) (flags : UInt8) (segment : Memory) :
    (t.noteAck flags segment).seq = t.seq := by
  unfold TcpState.noteAck
  split <;> rfl

/-! ## The handlers -/

section

variable {env : Env} {poll : NetM Unit} {rounds : Nat} {s : Net}

theorem arpProcess_polls {pkt : Memory} {len : Nat} : Within Polls s (arpProcess pkt len) := by
  unfold arpProcess
  refine within_ite (fun _ => within_pure ()) fun _ => within_bind ?_ fun _ s' _ _ => ?_
  · unfold arpAnswer
    refine within_ite (fun _ => ?_) fun _ => within_pure ()
    refine within_bind (PollStep.sendArp s _).polls fun _ s' _ _ => ?_
    exact within_modify (PollStep.arp s' _ s'.arpWaiting s'.arpReplyMac).polls
  · unfold arpTakeReply
    refine within_get_bind (within_ite (fun _ => ?_) fun _ => within_pure ())
    exact within_modify (PollStep.arp s' _ false _).polls

theorem netSendFrame_polls {mac : Mac} {dstIp : Net → Ip} {proto : UInt8} {payload : Memory}
    {len : Nat} (hkind : proto = ipIcmp ∨ payload 13 = tcpFlagAck) :
    Within Polls s (netSendFrame mac dstIp proto payload len) := by
  unfold netSendFrame
  refine within_ite (fun _ => within_pure (-1)) fun hfits => within_get_bind ?_
  refine within_bind (PollStep.sendIp s mac (dstIp s) hkind ?_).polls fun _ _ _ _ => within_pure 0
  exact (Nat.min_le_left _ _).trans (Nat.mod_le _ _)

theorem tcpFinish_polls {payload : Net → Memory} : Within Polls s (tcpFinish payload) := by
  unfold tcpFinish
  refine within_get_bind (within_ite (fun _ => ?_) fun _ => within_pure ())
  exact within_modify (PollStep.tcp (.closed s.ts) rfl).polls

variable (hpoll : ∀ s, Within Polls s poll)
include hpoll

theorem waitRound_polls {waiting : Net → Bool} {deadline : Nat} :
    Within Polls s (waitRound env poll waiting deadline) := by
  unfold waitRound
  refine within_get_bind (within_ite (fun _ => ?_) fun _ => within_pure (some ()))
  refine within_bind (PollStep.timer s).polls fun now _ _ _ => ?_
  refine within_ite (fun _ => ?_) fun _ => within_pure (some ())
  exact within_bind (hpoll _) fun _ _ _ _ => within_pure none

theorem arpResolve_polls {ip : Ip} : Within Polls s (arpResolve env poll rounds ip) := by
  unfold arpResolve
  apply within_get_bind
  split
  next mac _ => exact within_pure (some mac)
  next =>
    refine within_modify_bind (PollStep.arp s s.arpCache true s.arpReplyMac).polls ?_
    refine within_bind (PollStep.sendArp _ _).polls fun _ s' _ _ => ?_
    refine within_bind (PollStep.timer s').polls fun deadline s' _ _ => ?_
    refine within_bind (within_loop (fun _ => waitRound_polls hpoll) rounds s') fun _ s' _ _ => ?_
    unfold arpFinish
    refine within_get_bind (within_ite (fun _ => within_pure none) fun _ => ?_)
    refine within_modify_bind ?_ (within_pure _)
    exact (PollStep.arp s' _ s'.arpWaiting s'.arpReplyMac).polls

theorem netSendIp_polls {dstIp : Net → Ip} {proto : UInt8} {payload : Memory} {len : Nat}
    (hkind : proto = ipIcmp ∨ payload 13 = tcpFlagAck) :
    Within Polls s (netSendIp env poll rounds dstIp proto payload len) := by
  unfold netSendIp
  refine within_get_bind (within_bind (arpResolve_polls hpoll) fun found _ _ _ => ?_)
  cases found with
  | none => exact within_pure (-1)
  | some mac => exact netSendFrame_polls hkind

theorem icmpProcess_polls {payload : Net → Memory} {len : Nat} {src : Net → Ip} :
    Within Polls s (icmpProcess env poll rounds payload len src) := by
  unfold icmpProcess
  refine within_ite (fun _ => within_pure ()) fun _ => within_get_bind ?_
  refine within_modify_bind (PollStep.icmp s _ _ s.pingOk).polls ?_
  refine within_ite (fun _ => within_modify (PollStep.icmp _ _ _ true).polls) fun _ => ?_
  refine within_ite (fun _ => ?_) fun _ => within_pure ()
  refine within_bind (PollStep.alloc _).polls fun found _ _ _ => ?_
  refine within_ite (fun _ => ?_) fun _ => within_pure ()
  exact within_bind (netSendIp_polls hpoll (Or.inl rfl)) fun _ _ _ _ => within_pure ()

/-- An acknowledgement without data uses up no sequence number. -/
theorem tcpSendSeg_ack_polls
    (hstate : s.ts.state = .established ∨ s.ts.state = .finWait) :
    Within Polls s (tcpSendSeg env poll rounds tcpFlagAck (fun _ => 0) 0) := by
  unfold tcpSendSeg
  refine within_ite (fun _ => within_pure ()) fun _ => within_get_bind ?_
  refine within_modify_bind (PollStep.tcp (.noteAck s.ts tcpFlagAck (fun _ => 0) 0 fun _ => hstate)
    (by rw [noteAck_seq])).polls ?_
  refine within_bind (PollStep.alloc _).polls fun found _ _ _ => ?_
  refine within_bind (netSendIp_polls hpoll (Or.inr rfl)) fun _ s' _ _ => ?_
  exact within_modify (PollStep.tcp (.sent s'.ts tcpFlagAck 0) (Nat.mod_mod _ _)).polls

theorem tcpTake_polls {payload : Net → Memory} {segment : Memory} {len : Nat} (hlen : 20 ≤ len)
    (hstate : s.ts.state = .established) :
    Within Polls s (tcpTake env poll rounds payload segment len) := by
  obtain ⟨haccept, hseq, -⟩ := s.ts.accept_frame segment len
  unfold tcpTake
  refine within_modify_bind
    (PollStep.tcp (.accept s.ts segment len hlen hstate) (by rw [hseq])).polls ?_
  refine within_ite (fun _ => ?_) fun _ => tcpFinish_polls
  have hstate' := haccept.trans hstate
  exact within_bind (tcpSendSeg_ack_polls hpoll (Or.inl hstate')) fun _ _ _ _ => tcpFinish_polls

theorem tcpProcess_polls {payload : Net → Memory} {len : Nat} :
    Within Polls s (tcpProcess env poll rounds payload len) := by
  unfold tcpProcess
  refine within_ite (fun _ => within_pure ()) fun hlen => within_get_bind ?_
  refine within_ite (fun _ => within_pure ()) fun _ => ?_
  split
  next hstate =>
    refine within_ite (fun _ => ?_) fun _ => within_pure ()
    refine within_modify_bind (PollStep.tcp (.establish s.ts _ hstate) rfl).polls ?_
    exact tcpSendSeg_ack_polls hpoll (Or.inl rfl)
  next hstate =>
    refine within_ite (fun _ => within_modify (PollStep.tcp (.closed s.ts) rfl).polls) fun _ => ?_
    exact tcpTake_polls hpoll (Nat.le_of_not_lt hlen) hstate
  next => exact within_pure ()

theorem dispatch_polls {slot len : Nat} (hnoted : Noted s (s.rx.buf slot) len) :
    Within Polls s (dispatch env poll rounds slot len) := by
  unfold dispatch
  refine within_ite (fun _ => within_pure ()) fun _ => within_get_bind ?_
  dsimp only
  split_ifs with harp hother hicmp htcp hudp
  · exact arpProcess_polls
  · exact within_pure ()
  · exact icmpProcess_polls hpoll
  · exact tcpProcess_polls hpoll
  · have hip : ntohs ((s.rx.buf slot).loadLe 12 2) = ethTypeIp ∧ 34 ≤ len := by
      simpa only [not_or, ne_eq, not_not, Nat.not_lt] using hother
    exact (PollStep.udp hnoted ⟨hip.1, hip.2, hudp⟩).polls
  · exact within_pure ()

theorem drainRound_polls : Within Polls s (drainRound env poll rounds) := by
  unfold drainRound
  refine within_get_bind (within_ite (fun _ => within_pure (some ())) fun _ => ?_)
  refine within_modify_bind (PollStep.noteDispatch s).polls ?_
  refine within_bind (dispatch_polls hpoll (noted_noteDispatch s)) fun _ s' _ _ => ?_
  exact within_modify_bind (PollStep.advance s').polls (within_pure none)

end

/-- Polling makes these changes only, at any depth. -/
theorem netPoll_polls (env : Env) (rounds depth : Nat) (s : Net) :
    Within Polls s (netPoll env rounds depth) := by
  induction depth generalizing s with
  | zero => exact within_failure
  | succ depth ih =>
      refine within_modify_bind (PollStep.receive env s).polls ?_
      exact within_loop (fun _ => drainRound_polls ih) rounds _

end Dosfs
