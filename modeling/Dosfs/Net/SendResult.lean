import Dosfs.Net.Emission
import Dosfs.Net.PollSteps

/-!
# The result of sending

While the stack waits for a hardware address it answers other frames, but it sends
no data of its own and leaves the sequence number of the connection. So whether the
data given to `tcp_send_data` has gone out can be read off the frames sent since.
-/

namespace Dosfs

open Foundation Fuelled

/-! ## Frames sent while polling -/

/-- A frame that is too short to hold a segment, a frame of an echo reply, or one
whose segment is a bare acknowledgement. -/
def Passive (frame : List UInt8) : Prop :=
  frame.length < 54 ∨ part frame 23 1 = [ipIcmp] ∨ part frame 47 1 = [tcpFlagAck]

/-- Only passive frames have been sent. -/
def SentPassive (s s' : Net) : Prop :=
  ∃ new, s'.sent = s.sent ++ new ∧ ∀ frame ∈ new, Passive frame

/-- Only passive frames have been sent, and no number of the sequence is used up. -/
structure Polled (s s' : Net) : Prop where
  sent : SentPassive s s'
  seq : s'.ts.seq % 2 ^ 32 = s.ts.seq % 2 ^ 32

instance : IsPreorder Net SentPassive where
  refl s := ⟨[], (List.append_nil _).symm, nofun⟩
  trans s s' s'' h h' := by
    obtain ⟨new, hsent, hnew⟩ := h
    obtain ⟨new', hsent', hnew'⟩ := h'
    refine ⟨new ++ new', by rw [hsent', hsent, List.append_assoc], fun frame hframe => ?_⟩
    exact (List.mem_append.1 hframe).elim (hnew frame) (hnew' frame)

instance : IsPreorder Net Polled where
  refl s := ⟨refl s, rfl⟩
  trans _ _ _ h h' := ⟨IsTrans.trans _ _ _ h.sent h'.sent, h'.seq.trans h.seq⟩

/-- A change that sends nothing and keeps the sequence number. -/
theorem polled_of_eq {s s' : Net} (hsent : s'.sent = s.sent)
    (hseq : s'.ts.seq % 2 ^ 32 = s.ts.seq % 2 ^ 32) : Polled s s' :=
  ⟨⟨[], by rw [hsent, List.append_nil], nofun⟩, hseq⟩

theorem polled_of_passive {s : Net} {frame : List UInt8} (hpassive : Passive frame) :
    Polled s { s with sent := s.sent ++ [frame] } :=
  ⟨⟨[frame], rfl, fun _ h => by rw [List.mem_singleton.1 h]; exact hpassive⟩, rfl⟩

/-- The frames of an echo reply and of a bare acknowledgement. -/
theorem ipFrame_passive {mac : Mac} {dst : Ip} {proto : UInt8} {payload : Memory} {len total : Nat}
    (hkind : proto = ipIcmp ∨ payload 13 = tcpFlagAck) (htotal : total ≤ 34 + len) :
    Passive ((ipFrame macAddr mac ourIp dst proto payload len).loadList 0 total) := by
  by_cases hshort : total < 54
  · exact Or.inl (by rwa [Memory.loadList_length])
  have hframe := @ipFrame_wellFormed mac dst proto payload len
  have hpart {start count : Nat} (h : start + count ≤ total) :
      part ((ipFrame macAddr mac ourIp dst proto payload len).loadList 0 total) start count =
        part ((ipFrame macAddr mac ourIp dst proto payload len).loadList 0 (34 + len)) start
          count := by
    rw [part_loadList h, part_loadList (h.trans htotal)]
  rcases hkind with hicmp | hack
  · refine Or.inr (Or.inl ?_)
    rw [hpart (by omega), hframe.proto, hicmp]
  · refine Or.inr (Or.inr ?_)
    rw [hpart (by omega), part, show 47 = 34 + 13 from rfl, ← List.drop_drop, hframe.payload,
      Memory.loadList_drop, Memory.loadList_take, Nat.min_eq_left (by omega)]
    exact congrArg (fun byte => [byte]) hack

theorem udpProcess_sent (payload : Memory) (len : Nat) (s : Net) :
    (outcome (udpProcess payload len) s).2.sent = s.sent ∧
      (outcome (udpProcess payload len) s).2.ts = s.ts := by
  unfold udpProcess
  split
  · exact ⟨rfl, rfl⟩
  · dsimp only
    split
    · exact ⟨rfl, rfl⟩
    · rw [outcome_get_bind]
      split
      · exact ⟨rfl, rfl⟩
      · exact ⟨rfl, rfl⟩

theorem PollStep.polled {s s' : Net} (h : PollStep s s') : Polled s s' := by
  cases h with
  | timer => exact polled_of_eq rfl rfl
  | alloc => exact polled_of_eq rfl rfl
  | receive => exact polled_of_eq rfl rfl
  | noteDispatch => exact polled_of_eq rfl rfl
  | advance => exact polled_of_eq rfl rfl
  | arp => exact polled_of_eq rfl rfl
  | sendArp =>
      refine polled_of_passive (Or.inl ?_)
      rw [Memory.loadList_length]
      decide
  | sendIp _ mac dst hkind htotal => exact polled_of_passive (ipFrame_passive hkind htotal)
  | icmp => exact polled_of_eq rfl rfl
  | tcp hheard hseq => exact polled_of_eq rfl hseq
  | udp hnoted =>
      obtain ⟨hsent, hts⟩ := udpProcess_sent _ _ _
      exact polled_of_eq hsent (by rw [hts])

/-- Polling sends passive frames only. -/
theorem Polls.polled {s s' : Net} (h : Polls s s') : Polled s s' := h.rel PollStep.polled

/-! ## What `tcp_send_data` returns -/

/-- The flags of a segment with data. -/
def dataFlags : UInt8 := tcpFlagAck ||| tcpFlagPsh

/-- Between the two states a segment with exactly these bytes was handed to the
card. -/
def HandedOver (s s' : Net) (data : Memory) (len : Nat) : Prop :=
  ∃ frame ∈ s'.sent.drop s.sent.length, ∃ mac segment,
    IpFrame frame mac s.tcpDstIp ipTcp segment ∧ segment.length = 20 + len ∧
    part segment 13 1 = [dataFlags] ∧ segment.drop 20 = data.loadList 0 len

/-- A positive result says that the data went out, and a negative one is given when
it did not; the sequence number moves with the data. -/
structure Reports (s s' : Net) (data : Memory) (len : Nat) (result : Int) : Prop where
  success : 0 < result → HandedOver s s' data len ∧ s'.ts.seq = (s.ts.seq + len) % 2 ^ 32
  failure : ¬ HandedOver s s' data len → result < 0 ∧ s'.ts.seq = s.ts.seq

/-- The data is in none of the passive frames. -/
theorem SentPassive.not_handedOver {s s' : Net} {data : Memory} {len : Nat}
    (hpassive : SentPassive s s') : ¬ HandedOver s s' data len := by
  rintro ⟨frame, hframe, mac, segment, hip, hlength, hflags, -⟩
  obtain ⟨new, hsent, hnew⟩ := hpassive
  rw [hsent, List.drop_left] at hframe
  rcases hnew frame hframe with hshort | hicmp | hack
  · have hlong := hip.length
    omega
  · rw [hip.proto] at hicmp
    exact absurd hicmp (by decide)
  · rw [part, show 47 = 34 + 13 from rfl, ← List.drop_drop, hip.payload] at hack
    exact absurd (hflags.symm.trans hack) (by decide)

section

variable {env : Env} {poll : NetM Unit} {rounds : Nat} {s s₁ : Net} {data : Memory} {len : Nat}

/-- Without an address for the next hop, or with a total that is too long or has
wrapped around, no segment with data goes out. -/
theorem netSendIp_passive (hpoll : ∀ s, Within Polls s poll) {dstIp : Net → Ip} {proto : UInt8}
    {payload : Memory}
    (hlen : ∀ mac s₁, outcome (arpResolve env poll rounds (routeIp (dstIp s))) s =
      (some (some mac), s₁) → (14 + 20 + len) % 2 ^ 16 < 54 ∨ 1500 < (14 + 20 + len) % 2 ^ 16) :
    Within SentPassive s (netSendIp env poll rounds dstIp proto payload len) := by
  have hresolve : Within SentPassive s (arpResolve env poll rounds (routeIp (dstIp s))) :=
    (Polls.polled (arpResolve_polls hpoll)).sent
  unfold netSendIp
  refine within_get_bind (within_bind hresolve fun found s₁ harp _ => ?_)
  cases found with
  | none => exact within_pure (-1)
  | some mac =>
      dsimp only
      unfold netSendFrame
      refine within_ite (fun _ => within_pure (-1)) fun hfits => ?_
      have hshort := (hlen mac s₁ harp).resolve_right hfits
      refine within_get_bind (within_bind ?_ fun _ _ _ _ => within_pure 0)
      refine (polled_of_passive (Or.inl ?_)).sent
      rw [Memory.loadList_length]
      omega

/-- So `tcp_send_seg` has sent passive frames only. -/
theorem tcpSendSeg_passive (hpoll : ∀ s, Within Polls s poll) {flags : UInt8}
    (hlen : ∀ mac s₁, outcome (arpResolve env poll rounds (routeIp s.tcpDstIp))
      (segmentBuilt s flags data len) = (some (some mac), s₁) → 1446 < len)
    (hbound : len < 2 ^ 16) :
    Within SentPassive s (tcpSendSeg env poll rounds flags data len) := by
  by_cases hfits : 1500 < (20 + len) % 2 ^ 16
  · rw [tcpSendSeg, if_pos hfits]
    exact within_pure ()
  have hbuilt : SentPassive s (segmentBuilt s flags data len) :=
    ⟨[], (List.append_nil _).symm, nofun⟩
  refine IsTrans.trans _ _ _ hbuilt ?_
  rw [tcpSendSeg_outcome (Nat.le_of_not_lt hfits)]
  refine within_bind (netSendIp_passive hpoll fun mac s₁ harp => ?_) fun _ _ _ _ => ?_
  · -- a length just above the limit is too long for a frame, one near 2^16 wraps around
    have hlong := hlen mac s₁ harp
    omega
  · exact within_modify ⟨[], (List.append_nil _).symm, nofun⟩

/-- An established connection sends, and the result is the length. -/
theorem tcpSendData_established {s' : Net} {result : Int} (hstate : s.ts.state = .established)
    (hrun : outcome (tcpSendData env poll rounds data len) s = (some result, s')) :
    result = len ∧ outcome (tcpSendSeg env poll rounds dataFlags data len) s = (some (), s') := by
  rw [tcpSendData, outcome_get_bind, if_neg (not_not.2 hstate)] at hrun
  change outcome (tcpSendSeg env poll rounds dataFlags data len >>= fun _ => pure (len : Int)) s =
    (some result, s') at hrun
  rcases hsend : outcome (tcpSendSeg env poll rounds dataFlags data len) s with ⟨_ | _, t⟩
  · rw [outcome_bind_none hsend] at hrun
    cases (Prod.mk.inj hrun).1
  · rw [outcome_bind_some hsend, outcome_pure] at hrun
    obtain ⟨hresult, rfl⟩ := Prod.mk.inj hrun
    exact ⟨(Option.some.inj hresult).symm, rfl⟩

theorem tcpSendData_of_established {s' : Net} (hstate : s.ts.state = .established)
    (hsend : outcome (tcpSendSeg env poll rounds dataFlags data len) s = (some (), s')) :
    outcome (tcpSendData env poll rounds data len) s = (some (len : Int), s') := by
  rw [tcpSendData, outcome_get_bind, if_neg (not_not.2 hstate)]
  exact outcome_bind_some hsend

/-- The address is known or arrives in time, and the segment fits into a frame. -/
theorem tcpSendSeg_handsOver (hpoll : ∀ s, Within Polls s poll)
    (hpeer : ∀ s, Within KeepsPeer s poll) {mac : Mac} {s' : Net} (hlen : len ≤ 1446)
    (harp : outcome (arpResolve env poll rounds (routeIp s.tcpDstIp))
      (segmentBuilt s dataFlags data len) = (some (some mac), s₁))
    (hrun : outcome (tcpSendSeg env poll rounds dataFlags data len) s = (some (), s')) :
    HandedOver s s' data len ∧ s'.ts.seq = (s.ts.seq + len) % 2 ^ 32 := by
  obtain ⟨frame, hsend, hframe⟩ := tcpSendSeg_sent hpeer (by omega) harp
  rw [hsend] at hrun
  obtain ⟨-, rfl⟩ := Prod.mk.inj hrun
  have hpolled : Polled (segmentBuilt s dataFlags data len) s₁ := by
    have hresolved : Within Polls (segmentBuilt s dataFlags data len)
        (arpResolve env poll rounds (routeIp s.tcpDstIp)) := arpResolve_polls hpoll
    unfold Within at hresolved
    rw [harp] at hresolved
    exact hresolved.polled
  obtain ⟨new, hnew, -⟩ := hpolled.sent
  refine ⟨⟨frame, ?_, mac, _, hframe, Memory.loadList_length, ?_, checkedSegment_data⟩, ?_⟩
  · dsimp only
    rw [hnew, List.append_assoc]
    change frame ∈ (s.sent ++ (new ++ [frame])).drop s.sent.length
    rw [List.drop_left]
    exact List.mem_append_right _ (List.mem_singleton_self _)
  · rw [part_loadList (by omega)]
    exact checkedSegment_flags
  · have hseq := hpolled.seq
    have hbuilt : (segmentBuilt s dataFlags data len).ts.seq = s.ts.seq := noteAck_seq ..
    rw [hbuilt] at hseq
    change (s₁.ts.seq + 0 + 0 + len) % 2 ^ 32 = _
    omega

end

/-- `tcp_send_data` reports what has happened if and only if the connection is not
established, or the segment fits into a frame and `arp_resolve` finds the hardware
address of the next hop. -/
theorem tcp_send_data_reports_iff (env : Env) (rounds depth : Nat) (s s' : Net) (data : Memory)
    (len : UInt16) (result : Int)
    (hrun : outcome (tcpSendData env (netPoll env rounds depth) rounds data len.toNat) s =
      (some result, s')) :
    Reports s s' data len.toNat result ↔ s.ts.state ≠ .established ∨ (len.toNat ≤ 1446 ∧
      ∃ mac s₁, Resolves env rounds depth s.tcpDstIp (segmentBuilt s dataFlags data len.toNat)
        mac s₁) := by
  have hbound := len.toNat_lt
  generalize len.toNat = len at hrun hbound
  have hpoll := netPoll_polls env rounds depth
  by_cases hstate : s.ts.state = .established
  · obtain ⟨rfl, hsend⟩ := tcpSendData_established hstate hrun
    rw [or_iff_right (not_not.2 hstate)]
    constructor
    · intro hreports
      by_contra hfails
      have hpassive : SentPassive s s' := by
        have hsent : Within SentPassive s (tcpSendSeg env (netPoll env rounds depth) rounds
            dataFlags data len) := by
          refine tcpSendSeg_passive hpoll (fun mac s₁ harp => ?_) hbound
          by_contra hshort
          exact hfails ⟨Nat.le_of_not_lt hshort, mac, s₁, harp⟩
        unfold Within at hsent
        rwa [hsend] at hsent
      have hnegative := (hreports.failure hpassive.not_handedOver).1
      omega
    · rintro ⟨hlen, mac, s₁, harp⟩
      have hpeer := netPoll_within KeepsPeer.closed env rounds depth
      have hover := tcpSendSeg_handsOver hpoll hpeer hlen harp hsend
      exact ⟨fun _ => hover, fun hnot => absurd hover.1 hnot⟩
  · have hrefused : outcome (tcpSendData env (netPoll env rounds depth) rounds data len) s =
        (some (-1), s) := by
      rw [tcpSendData, outcome_get_bind, if_pos hstate, outcome_pure]
    rw [hrefused] at hrun
    obtain ⟨hresult, rfl⟩ := Prod.mk.inj hrun
    obtain rfl := Option.some.inj hresult
    refine iff_of_true ⟨fun hpos => absurd hpos (by decide), fun _ => ⟨by decide, rfl⟩⟩
      (Or.inl hstate)

/-- An established connection to the gateway, whose hardware address is known. -/
def readyNet : Net := { cachedNet with ts := { cachedNet.ts with state := .established } }

/-- Three bytes go out. -/
theorem tcp_send_data_reports_iff_three :
    let env : Env := ⟨fun _ => [], id, fun _ => true, fun _ => 0⟩
    ∃ s', outcome (tcpSendData env (netPoll env 1 1) 1 (fun _ => 7) 3) readyNet = (some 3, s') ∧
      Reports readyNet s' (fun _ => 7) 3 3 := by
  intro env
  have hcached : Resolves env 1 1 readyNet.tcpDstIp
      (segmentBuilt readyNet dataFlags (fun _ => 7) 3) gatewayMac
      (segmentBuilt readyNet dataFlags (fun _ => 7) 3) := outcome_arpResolve_of_cached rfl
  obtain ⟨frame, hsend, -⟩ := tcpSendSeg_sent (netPoll_within KeepsPeer.closed env 1 1)
    (show 20 + 3 ≤ 1466 by decide) hcached
  have hrun := tcpSendData_of_established rfl hsend
  exact ⟨_, hrun, (tcp_send_data_reports_iff env 1 1 readyNet _ (fun _ => 7) 3 3 hrun).2
    (Or.inr ⟨by decide, _, _, hcached⟩)⟩

section

variable {env : Env} {poll : NetM Unit} {rounds : Nat} {s : Net} {mac : Mac}

theorem netSendIp_tooLong {dstIp : Net → Ip} {proto : UInt8} {payload : Memory} {len : Nat}
    (hcached : arpLookup s.arpCache (routeIp (dstIp s)) = some mac)
    (hlong : 1500 < (14 + 20 + len) % 2 ^ 16) :
    outcome (netSendIp env poll rounds dstIp proto payload len) s = (some (-1), s) := by
  rw [netSendIp, outcome_get_bind, outcome_bind_some (outcome_arpResolve_of_cached hcached)]
  dsimp only
  rw [netSendFrame, if_pos hlong, outcome_pure]

/-- A segment that fits into the buffer of `tcp_send_seg`, but not into a frame: nothing
is sent, the sequence number moves, and the result is the length. -/
theorem tcpSendData_tooLong {data : Memory} {len : Nat} (hstate : s.ts.state = .established)
    (hcached : arpLookup s.arpCache (routeIp s.tcpDstIp) = some mac) (hmin : 1446 < len)
    (hmax : len ≤ 1480) :
    ∃ s', outcome (tcpSendData env poll rounds data len) s = (some (len : Int), s') ∧
      s'.sent = s.sent ∧ s'.ts.seq = (s.ts.seq + len) % 2 ^ 32 ∧
      ¬ Reports s s' data len len := by
  have hrefused : outcome (netSendIp env poll rounds (·.tcpDstIp) ipTcp
      (checkedSegment env s dataFlags data len) ((20 + len) % 2 ^ 16))
      (segmentBuilt s dataFlags data len) = (some (-1), segmentBuilt s dataFlags data len) :=
    netSendIp_tooLong hcached (by omega)
  have hsend : outcome (tcpSendSeg env poll rounds dataFlags data len) s =
      (some (), { segmentBuilt s dataFlags data len with
        ts := (segmentBuilt s dataFlags data len).ts.sent dataFlags len }) := by
    rw [tcpSendSeg_outcome (by omega), outcome_bind_some hrefused, outcome_modify]
  have hseq : (segmentBuilt s dataFlags data len).ts.seq = s.ts.seq := noteAck_seq ..
  refine ⟨_, tcpSendData_of_established hstate hsend, rfl, ?_, fun hreports => ?_⟩
  · rw [← hseq]
    rfl
  · have hnothing : SentPassive s { segmentBuilt s dataFlags data len with
        ts := (segmentBuilt s dataFlags data len).ts.sent dataFlags len } :=
      ⟨[], (List.append_nil _).symm, nofun⟩
    exact hnothing.not_handedOver (hreports.success (by omega)).1

end

/-- 1447 bytes are reported as sent, and no frame has gone out. -/
theorem long_segment_reported_sent :
    let env : Env := ⟨fun _ => [], id, fun _ => true, fun _ => 0⟩
    ∃ s', outcome (tcpSendData env (netPoll env 1 1) 1 (fun _ => 7) 1447) readyNet =
        (some 1447, s') ∧
      s'.sent = readyNet.sent ∧ s'.ts.seq = (readyNet.ts.seq + 1447) % 2 ^ 32 ∧
      ¬ Reports readyNet s' (fun _ => 7) 1447 1447 := by
  intro env
  exact @tcpSendData_tooLong env _ 1 readyNet gatewayMac (fun _ => 7) 1447 rfl rfl (by decide)
    (by decide)

end Dosfs
