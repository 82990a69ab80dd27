import Dosfs.Net.Checksum
import Dosfs.Net.Waiting

/-!
# Frames that go out

What the four senders of IP packets hand to the card once the hardware address
of the next hop is known. The destination is read again after the address was
resolved; that of a connection is the same by then, since polling does not touch
it.
-/

namespace Dosfs

open Foundation Fuelled OnesComplement

/-! ## What polling keeps -/

/-- The peer of the connection is the same. -/
def KeepsPeer (s s' : Net) : Prop := s'.tcpDstIp = s.tcpDstIp

instance : IsPreorder Net KeepsPeer where
  refl _ := rfl
  trans _ _ _ h h' := h'.trans h

theorem KeepsPeer.closed : Closed KeepsPeer :=
  .of_connection (fun h => h.tcpDstIp) (fun _ => rfl) fun _ => rfl

/-- The frames sent before are the first ones. -/
def SentGrows (s s' : Net) : Prop := s.sent <+: s'.sent

instance : IsPreorder Net SentGrows where
  refl _ := List.prefix_refl _
  trans _ _ _ h h' := h.trans h'

theorem SentGrows.closed : Closed SentGrows :=
  .of_connection (fun h => h.sent) (fun _ => List.prefix_refl _) fun _ => List.prefix_refl _

section

variable {env : Env} {poll : NetM Unit} {rounds : Nat} {s s₁ : Net} {mac : Mac}

/-! ## Senders -/

/-- With the hardware address known, `net_send_ip` sends one well-formed frame. -/
theorem netSendIp_sends {dstIp : Net → Ip} {proto : UInt8} {payload : Memory} {len : Nat}
    (hlen : len ≤ 1466)
    (harp : outcome (arpResolve env poll rounds (routeIp (dstIp s))) s = (some (some mac), s₁)) :
    ∃ frame,
      outcome (netSendIp env poll rounds dstIp proto payload len) s =
        (some 0, { s₁ with sent := s₁.sent ++ [frame] }) ∧
      IpFrame frame mac (dstIp s₁) proto (payload.loadList 0 len) := by
  refine ⟨_, ?_, ipFrame_wellFormed⟩
  have htotal : (14 + 20 + len) % 2 ^ 16 = 34 + len := Nat.mod_eq_of_lt (by omega)
  rw [netSendIp, outcome_get_bind, outcome_bind_some harp]
  dsimp only
  rw [netSendFrame, htotal, if_neg (by omega), outcome_get_bind,
    outcome_bind_some outcome_ne2000Send, Nat.min_eq_left (by omega)]
  rfl

/-- The stack when `tcp_send_seg` has built a segment and copied it. -/
def segmentBuilt (s : Net) (flags : UInt8) (data : Memory) (dlen : Nat) : Net :=
  { s with
    ts := s.ts.noteAck flags (tcpSegment s.ts.sport s.ts.dport s.ts.seq s.ts.ack flags data dlen)
    allocs := s.allocs + 1 }

/-- The stack when `icmp_process` has built the reply to a request. -/
def requestNoted (s : Net) (icmp : Memory) : Net :=
  { s with
    icmpRecvCount := (s.icmpRecvCount + 1) % 2 ^ 32
    lastIcmpType := icmp 0
    allocs := s.allocs + 1 }

/-- The address that `net_ping` is given as a number. -/
def pingDst (ip : Nat) : Ip :=
  ⟨UInt8.ofNat (ip >>> 24), UInt8.ofNat (ip >>> 16), UInt8.ofNat (ip >>> 8), UInt8.ofNat ip⟩

/-- The stack when `net_ping` has built its request. -/
def pingStarted (s : Net) : Net :=
  { s with
    pingId := (s.pingId + 1) % 2 ^ 16
    pingOk := false
    readings := s.readings + 1 }

/-- The segment with its checksum, or with zero when there was no memory for the
copy. -/
def checkedSegment (env : Env) (s : Net) (flags : UInt8) (data : Memory) (dlen : Nat) : Memory :=
  let segment := tcpSegment s.ts.sport s.ts.dport s.ts.seq s.ts.ack flags data dlen
  segment.storeLe 16 2
    (if env.kmalloc s.allocs then
      tcpChecksum ourIp s.tcpDstIp segment ((20 + dlen) % 2 ^ 16)
    else 0)

/-- The payload of the packet in a frame. -/
def segmentOf (frame : List UInt8) : Memory := fun k => (frame.drop 34).getD k 0

theorem IpFrame.ackNum_segmentOf {frame : List UInt8} {dstMac : Mac} {dstIp : Ip} {proto : UInt8}
    {segment : Memory} {len : Nat} (h : IpFrame frame dstMac dstIp proto (segment.loadList 0 len))
    (hlen : 12 ≤ len) : ackNum (segmentOf frame) = ackNum segment := by
  refine congrArg ntohl (Memory.loadLe_congr fun k _ hk => ?_)
  have hrange : k < (List.range len).length := by
    rw [List.length_range]
    omega
  rw [segmentOf, h.payload, Memory.loadList]
  simp [List.getElem?_eq_getElem hrange]

section

variable {flags : UInt8} {data : Memory} {dlen : Nat}

theorem checkedSegment_flags {env : Env} {s : Net} :
    (checkedSegment env s flags data dlen).loadList 13 1 = [flags] := by
  unfold checkedSegment tcpSegment
  dsimp only
  unfold Memory.storeLe
  rw [Memory.loadList_overwrite_of_disjoint (by omega),
    Memory.loadList_overwrite_of_disjoint (by omega),
    Memory.loadList_overwrite_of_disjoint (by omega)]
  exact Memory.loadList_overwrite_same

theorem checkedSegment_data {env : Env} {s : Net} :
    ((checkedSegment env s flags data dlen).loadList 0 (20 + dlen)).drop 20 =
      data.loadList 0 dlen := by
  rw [Memory.loadList_drop, Nat.zero_add, Nat.add_sub_cancel_left]
  unfold checkedSegment Memory.storeLe
  dsimp only
  rw [Memory.loadList_overwrite_of_disjoint (by omega)]
  exact Memory.loadList_overwrite_same

theorem checkedSegment_ackNum {env : Env} {s : Net} :
    ackNum (checkedSegment env s flags data dlen) =
      ackNum (tcpSegment s.ts.sport s.ts.dport s.ts.seq s.ts.ack flags data dlen) :=
  congrArg ntohl (Memory.loadLe_storeLe_of_disjoint (by omega))

/-- What is left of `tcp_send_seg` when the segment is built. -/
theorem tcpSendSeg_outcome (hfits : (20 + dlen) % 2 ^ 16 ≤ 1500) :
    outcome (tcpSendSeg env poll rounds flags data dlen) s =
      outcome (do
        let _ ← netSendIp env poll rounds (·.tcpDstIp) ipTcp (checkedSegment env s flags data dlen)
          ((20 + dlen) % 2 ^ 16)
        modify fun s => { s with ts := s.ts.sent flags dlen })
      (segmentBuilt s flags data dlen) := by
  rw [tcpSendSeg, if_neg (Nat.not_lt.2 hfits), outcome_get_bind, outcome_modify_bind,
    outcome_bind_some outcome_kmallocSucceeds]
  rfl

/-- With the hardware address known, the segment goes out in one frame. -/
theorem tcpSendSeg_sent (hpoll : ∀ s, Within KeepsPeer s poll) (hlen : 20 + dlen ≤ 1466)
    (harp : outcome (arpResolve env poll rounds (routeIp s.tcpDstIp))
      (segmentBuilt s flags data dlen) = (some (some mac), s₁)) :
    ∃ frame,
      outcome (tcpSendSeg env poll rounds flags data dlen) s =
        (some (), { s₁ with sent := s₁.sent ++ [frame], ts := s₁.ts.sent flags dlen }) ∧
      IpFrame frame mac s.tcpDstIp ipTcp
        ((checkedSegment env s flags data dlen).loadList 0 (20 + dlen)) := by
  have hlen' : (20 + dlen) % 2 ^ 16 = 20 + dlen := Nat.mod_eq_of_lt (by omega)
  have hpeer : s₁.tcpDstIp = s.tcpDstIp := by
    have hkeeps : KeepsPeer (segmentBuilt s flags data dlen)
        (outcome (arpResolve env poll rounds (routeIp s.tcpDstIp))
          (segmentBuilt s flags data dlen)).2 := KeepsPeer.closed.resolve hpoll
    rw [harp] at hkeeps
    exact hkeeps
  obtain ⟨frame, hsend, hframe⟩ := @netSendIp_sends env poll rounds
    (segmentBuilt s flags data dlen) s₁ mac (·.tcpDstIp) ipTcp
    (checkedSegment env s flags data dlen) (20 + dlen) hlen harp
  refine ⟨frame, ?_, hpeer ▸ hframe⟩
  rw [tcpSendSeg_outcome (by omega), hlen', outcome_bind_some hsend]
  rfl

/-- With the ACK flag, the frame acknowledges what is put on record. -/
theorem tcpSendSeg_acknowledges (hpoll : ∀ s, Within KeepsPeer s poll) (hlen : 20 + dlen ≤ 1466)
    (hack : hasFlag flags tcpFlagAck)
    (harp : outcome (arpResolve env poll rounds (routeIp s.tcpDstIp))
      (segmentBuilt s flags data dlen) = (some (some mac), s₁)) :
    ∃ ack frame,
      (segmentBuilt s flags data dlen).ts.talk.acks = s.ts.talk.acks ++ [ack] ∧
      (outcome (tcpSendSeg env poll rounds flags data dlen) s).2.sent = s₁.sent ++ [frame] ∧
      ackNum (segmentOf frame) = ack.number := by
  obtain ⟨frame, hrun, hframe⟩ := tcpSendSeg_sent hpoll hlen harp
  obtain ⟨ack, hacks, hnumber⟩ : ∃ ack : Ack,
      (segmentBuilt s flags data dlen).ts.talk.acks = s.ts.talk.acks ++ [ack] ∧
      ack.number = ackNum (tcpSegment s.ts.sport s.ts.dport s.ts.seq s.ts.ack flags data dlen) := by
    rw [segmentBuilt, TcpState.noteAck, if_pos hack]
    exact ⟨_, rfl, rfl⟩
  refine ⟨ack, frame, hacks, by rw [hrun], ?_⟩
  rw [hframe.ackNum_segmentOf (by omega), checkedSegment_ackNum, hnumber]

/-- The segment verifies over the pseudo-header of the packet it is sent in. -/
theorem tcpSendSeg_sends (hpoll : ∀ s, Within KeepsPeer s poll) (hlen : 20 + dlen ≤ 1466)
    (hfound : env.kmalloc s.allocs = true)
    (harp : outcome (arpResolve env poll rounds (routeIp s.tcpDstIp))
      (segmentBuilt s flags data dlen) = (some (some mac), s₁)) :
    ∃ frame segment,
      (outcome (tcpSendSeg env poll rounds flags data dlen) s).2.sent = s₁.sent ++ [frame] ∧
      IpFrame frame mac s.tcpDstIp ipTcp segment ∧
      segment.length = 20 + dlen ∧ segment.drop 20 = data.loadList 0 dlen ∧
      Verifies (tcpPseudo ourIp s.tcpDstIp segment.length ++ segment) := by
  obtain ⟨frame, hrun, hframe⟩ := tcpSendSeg_sent hpoll hlen harp
  refine ⟨frame, (checkedSegment env s flags data dlen).loadList 0 (20 + dlen), ?_, hframe,
    Memory.loadList_length, checkedSegment_data, ?_⟩
  · rw [hrun]
  · rw [Memory.loadList_length, checkedSegment, hfound, if_pos rfl,
      Nat.mod_eq_of_lt (show 20 + dlen < 2 ^ 16 by omega)]
    exact tcpChecksum_verifies (by omega) (by omega) (tcpSegment_unchecked _ _ _ _ _ _ _)

end

/-- The reply to an echo request verifies. -/
theorem icmpProcess_sends {payload : Net → Memory} {len : Nat} {src : Net → Ip}
    (hmin : 8 ≤ len) (hlen : len ≤ 1466) (htype : payload s 0 = 8)
    (hfound : env.kmalloc s.allocs = true)
    (harp : outcome (arpResolve env poll rounds (routeIp (src (requestNoted s (payload s)))))
      (requestNoted s (payload s)) = (some (some mac), s₁)) :
    ∃ frame reply,
      (outcome (icmpProcess env poll rounds payload len src) s).2.sent = s₁.sent ++ [frame] ∧
      IpFrame frame mac (src s₁) ipIcmp reply ∧ reply.length = len ∧ Verifies reply := by
  obtain ⟨frame, hsend, hframe⟩ := @netSendIp_sends env poll rounds
    (requestNoted s (payload s)) s₁ mac src ipIcmp (echoReply (payload s) len) len hlen harp
  refine ⟨frame, (echoReply (payload s) len).loadList 0 len, ?_, hframe, Memory.loadList_length,
    echoReply_verifies (by omega) (by omega)⟩
  have hrun : outcome (icmpProcess env poll rounds payload len src) s =
      (some (), { s₁ with sent := s₁.sent ++ [frame] }) := by
    rw [icmpProcess, if_neg (by omega), outcome_get_bind, outcome_modify_bind,
      if_neg (by simp [htype]), if_pos htype, outcome_bind_some outcome_kmallocSucceeds,
      if_pos hfound]
    exact (outcome_bind_some hsend).trans rfl
  rw [hrun]

/-- The echo request of a ping verifies. -/
theorem netPing_sends (hpoll : ∀ s, Within SentGrows s poll) {ip : Nat}
    (harp : outcome (arpResolve env poll rounds (routeIp (pingDst ip))) (pingStarted s) =
      (some (some mac), s₁)) :
    ∃ frame request,
      s₁.sent ++ [frame] <+: (outcome (netPing env poll rounds ip) s).2.sent ∧
      IpFrame frame mac (pingDst ip) ipIcmp request ∧ request.length = 64 ∧ Verifies request := by
  obtain ⟨frame, hsend, hframe⟩ := @netSendIp_sends env poll rounds (pingStarted s) s₁ mac
    (fun _ => pingDst ip) ipIcmp (echoRequest (pingStarted s).pingId) 64 (by decide) harp
  refine ⟨frame, (echoRequest (pingStarted s).pingId).loadList 0 64, ?_, hframe,
    Memory.loadList_length, echoRequest_verifies _⟩
  have hsteps := SentGrows.closed.toClosedSteps
  change SentGrows { s₁ with sent := s₁.sent ++ [frame] } _
  rw [netPing, outcome_modify_bind, outcome_get_bind, outcome_bind_some outcome_timerGetTicks]
  refine within_bind_of_outcome hsend ?_
  rw [if_neg (not_not.mpr rfl)]
  apply within_bind (within_loop (fun s => waitRound_within hsteps hpoll) rounds _)
  intro _ s' _ _
  apply within_get_bind
  apply within_ite
  · intro _
    apply within_bind (timerGetTicks_within hsteps)
    intro now _ _ _
    exact within_modify_bind (List.prefix_refl _) (within_pure _)
  · intro _
    exact within_pure (-2)

end

/-- `arp_resolve` finds the hardware address of the next hop, perhaps after
polling the card. -/
def Resolves (env : Env) (rounds depth : Nat) (dst : Ip) (s : Net) (mac : Mac) (s₁ : Net) : Prop :=
  outcome (arpResolve env (netPoll env rounds depth) rounds (routeIp dst)) s = (some (some mac), s₁)

/-- Whenever the next hop resolves, `net_send_ip` sends one frame, well formed
and with the given addresses, protocol and payload; and the segments, requests
and replies of its three callers carry checksums that verify. -/
theorem emitted_frames_wellFormed (env : Env) (rounds depth : Nat) (s s₁ : Net) (mac : Mac) :
    (∀ dstIp proto payload len, len ≤ 1466 → Resolves env rounds depth (dstIp s) s mac s₁ →
      ∃ frame,
        outcome (netSendIp env (netPoll env rounds depth) rounds dstIp proto payload len) s =
          (some 0, { s₁ with sent := s₁.sent ++ [frame] }) ∧
        IpFrame frame mac (dstIp s₁) proto (payload.loadList 0 len)) ∧
    (∀ flags data dlen, 20 + dlen ≤ 1466 → env.kmalloc s.allocs = true →
      Resolves env rounds depth s.tcpDstIp (segmentBuilt s flags data dlen) mac s₁ →
      ∃ frame segment,
        (outcome (tcpSendSeg env (netPoll env rounds depth) rounds flags data dlen) s).2.sent =
          s₁.sent ++ [frame] ∧
        IpFrame frame mac s.tcpDstIp ipTcp segment ∧
        segment.length = 20 + dlen ∧ segment.drop 20 = data.loadList 0 dlen ∧
        Verifies (tcpPseudo ourIp s.tcpDstIp segment.length ++ segment)) ∧
    (∀ ip, Resolves env rounds depth (pingDst ip) (pingStarted s) mac s₁ →
      ∃ frame request,
        s₁.sent ++ [frame] <+:
          (outcome (netPing env (netPoll env rounds depth) rounds ip) s).2.sent ∧
        IpFrame frame mac (pingDst ip) ipIcmp request ∧ request.length = 64 ∧ Verifies request) ∧
    (∀ (payload : Net → Memory) len src, 8 ≤ len → len ≤ 1466 → payload s 0 = 8 →
      env.kmalloc s.allocs = true →
      Resolves env rounds depth (src (requestNoted s (payload s))) (requestNoted s (payload s))
        mac s₁ →
      ∃ frame reply,
        (outcome (icmpProcess env (netPoll env rounds depth) rounds payload len src) s).2.sent =
          s₁.sent ++ [frame] ∧
        IpFrame frame mac (src s₁) ipIcmp reply ∧ reply.length = len ∧ Verifies reply) := by
  have hpeer := netPoll_within KeepsPeer.closed env rounds depth
  have hsent := netPoll_within SentGrows.closed env rounds depth
  refine ⟨?_, ?_, ?_, ?_⟩
  · exact fun dstIp proto payload len hlen harp => netSendIp_sends hlen harp
  · exact fun flags data dlen hlen hfound harp => tcpSendSeg_sends hpeer hlen hfound harp
  · exact fun ip harp => netPing_sends hsent harp
  · exact fun payload len src hmin hlen htype hfound harp =>
      icmpProcess_sends hmin hlen htype hfound harp

/-- A connection to the gateway, whose hardware address is known. -/
def cachedNet : Net :=
  { startNet with
    arpCache := [⟨gateway, ⟨0x52, 0x55, 0x0A, 0x00, 0x02, 0x02⟩, true⟩]
    tcpDstIp := gateway }

/-- Three bytes of data go out in a segment that verifies. -/
theorem emitted_frames_wellFormed_odd :
    let env : Env := ⟨fun _ => [], id, fun _ => true, fun _ => 0⟩
    ∃ frame segment,
      (outcome (tcpSendSeg env (netPoll env 1 1) 1 tcpFlagAck (fun _ => 7) 3) cachedNet).2.sent =
        [frame] ∧
      segment.length = 23 ∧ segment.drop 20 = [7, 7, 7] ∧
      Verifies (tcpPseudo ourIp gateway segment.length ++ segment) := by
  intro env
  have hcached : Resolves env 1 1 gateway (segmentBuilt cachedNet tcpFlagAck (fun _ => 7) 3)
      ⟨0x52, 0x55, 0x0A, 0x00, 0x02, 0x02⟩ (segmentBuilt cachedNet tcpFlagAck (fun _ => 7) 3) :=
    outcome_arpResolve_of_cached rfl
  obtain ⟨frame, segment, hsent, -, hlength, hdata, hverifies⟩ :=
    (emitted_frames_wellFormed env 1 1 cachedNet _ _).2.1 tcpFlagAck (fun _ => 7) 3 (by decide) rfl
      hcached
  exact ⟨frame, segment, hsent, hlength, hdata, hverifies⟩

end Dosfs
