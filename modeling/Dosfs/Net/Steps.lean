import Dosfs.Net.Api

/-!
# Steps of the stack

The changes that a handler makes, and those that a call makes besides. Whatever
the stack is called for, and wherever it stops, it has made a sequence of these
changes, so what holds of each of them and composes holds of every call.
-/

namespace Dosfs

open Foundation Fuelled Relation

/-! ## Steps -/

/-- A change of the receive ring. -/
inductive RxStep : RxRing → RxRing → Prop
  | receive (rx : RxRing) (frame : Frame) : RxStep rx (rx.receive frame)
  | noteDispatch (rx : RxRing) : RxStep rx rx.noteDispatch
  | advance (rx : RxRing) : RxStep rx rx.advance

/-- A change of the connection. -/
inductive TcpStep : TcpState → TcpState → Prop
  | establish (t : TcpState) (seqNum : Nat) (hstate : t.state = .synSent) :
      TcpStep t (t.establish seqNum)
  | accept (t : TcpState) (segment : Memory) (len : Nat) (hlen : 20 ≤ len)
      (hstate : t.state = .established) : TcpStep t (t.accept segment len)
  | noteAck (t : TcpState) (flags : UInt8) (data : Memory) (dlen : Nat)
      (hstate : hasFlag flags tcpFlagAck → t.state = .established ∨ t.state = .finWait) :
      TcpStep t (t.noteAck flags (tcpSegment t.sport t.dport t.seq t.ack flags data dlen))
  | sent (t : TcpState) (flags : UInt8) (dlen : Nat) : TcpStep t (t.sent flags dlen)
  | closed (t : TcpState) : TcpStep t { t with state := .closed }
  | closing (t : TcpState) : TcpStep t { t with state := .closing }
  | start (t : TcpState) (sport dport : Nat) : TcpStep t (t.start sport dport)
  | deliver (t : TcpState) (n : Nat) (hn : t.rxRead + n ≤ t.rxLen) : TcpStep t (t.deliver n)

/-- A change of the connection that a handler makes. -/
inductive TcpHeard : TcpState → TcpState → Prop
  | establish (t : TcpState) (seqNum : Nat) (hstate : t.state = .synSent) :
      TcpHeard t (t.establish seqNum)
  | accept (t : TcpState) (segment : Memory) (len : Nat) (hlen : 20 ≤ len)
      (hstate : t.state = .established) : TcpHeard t (t.accept segment len)
  | noteAck (t : TcpState) (flags : UInt8) (data : Memory) (dlen : Nat)
      (hstate : hasFlag flags tcpFlagAck → t.state = .established ∨ t.state = .finWait) :
      TcpHeard t (t.noteAck flags (tcpSegment t.sport t.dport t.seq t.ack flags data dlen))
  | sent (t : TcpState) (flags : UInt8) (dlen : Nat) : TcpHeard t (t.sent flags dlen)
  | closed (t : TcpState) : TcpHeard t { t with state := .closed }

theorem TcpHeard.tcpStep {t t' : TcpState} (h : TcpHeard t t') : TcpStep t t' := by
  cases h with
  | establish seqNum hstate => exact .establish t seqNum hstate
  | accept segment len hlen hstate => exact .accept t segment len hlen hstate
  | noteAck flags data dlen hstate => exact .noteAck t flags data dlen hstate
  | sent flags dlen => exact .sent t flags dlen
  | closed => exact .closed t

/-- The ring, the connection with its peer and the resolution of addresses are
as before; frames may have been sent. -/
structure SameCore (s s' : Net) : Prop where
  rx : s'.rx = s.rx
  ts : s'.ts = s.ts
  tcpDstIp : s'.tcpDstIp = s.tcpDstIp
  arpCache : s'.arpCache = s.arpCache
  arpWaiting : s'.arpWaiting = s.arpWaiting
  arpReplyMac : s'.arpReplyMac = s.arpReplyMac
  sent : s.sent <+: s'.sent

/-- The `len` bytes of a packet are those of a slot handed to `dispatch`. -/
def Noted (s : Net) (pkt : Memory) (len : Nat) : Prop :=
  ∃ slot, (slot, pkt.loadList 0 len) ∈ s.rx.dispatched

/-- A change that a handler makes, apart from the resolution of an address. -/
inductive HandlerStep : Net → Net → Prop
  | other {s s' : Net} (h : SameCore s s') : HandlerStep s s'
  | ring {s : Net} {rx : RxRing} (h : RxStep s.rx rx) : HandlerStep s { s with rx := rx }
  | heard {s : Net} {ts : TcpState} (h : TcpHeard s.ts ts) : HandlerStep s { s with ts := ts }
  | arp {s : Net} {pkt : Memory} {len : Nat} (hnoted : Noted s pkt len) :
      HandlerStep s (outcome (arpProcess pkt len) s).2

/-- A change that a call makes besides. -/
inductive CallStep : Net → Net → Prop
  | tcp {s : Net} {ts : TcpState} (h : TcpStep s.ts ts) : CallStep s { s with ts := ts }
  | connect {s : Net} (ip : Ip) (port : Nat) :
      CallStep s { s with
        tcpDstIp := ip
        ts := s.ts.start s.tcpEphPort port
        tcpEphPort := (s.tcpEphPort + 1) % 2 ^ 16 }

/-! ## Relations that handlers keep -/

/-- The relation holds across every step of a handler. -/
structure ClosedSteps (R : Net → Net → Prop) : Prop where
  step : ∀ {s s' : Net}, HandlerStep s s' → R s s'

/-- The relation also holds across resolving an address, if it holds across the
polls meanwhile. -/
structure Closed (R : Net → Net → Prop) : Prop extends ClosedSteps R where
  resolve : ∀ {env : Env} {poll : NetM Unit} {rounds : Nat} {s : Net} {ip : Ip},
    (∀ s, Within R s poll) → Within R s (arpResolve env poll rounds ip)

variable {R : Net → Net → Prop}

section

variable {env : Env} {poll : NetM Unit} {rounds : Nat} {s : Net} (hR : ClosedSteps R)

include hR

theorem ClosedSteps.same {s s' : Net} (h : SameCore s s') : R s s' := hR.step (.other h)

theorem timerGetTicks_within : Within R s (timerGetTicks env) :=
  hR.same ⟨rfl, rfl, rfl, rfl, rfl, rfl, List.prefix_refl _⟩

theorem kmallocSucceeds_within : Within R s (kmallocSucceeds env) :=
  hR.same ⟨rfl, rfl, rfl, rfl, rfl, rfl, List.prefix_refl _⟩

theorem ne2000Send_within {frame : Memory} {len : Nat} : Within R s (ne2000Send frame len) :=
  hR.same ⟨rfl, rfl, rfl, rfl, rfl, rfl, List.prefix_append _ _⟩

theorem deadlineIn_within {limit : Nat} : Within R s (deadlineIn env limit) :=
  hR.same ⟨rfl, rfl, rfl, rfl, rfl, rfl, List.prefix_refl _⟩

variable [IsPreorder Net R]

theorem netSendFrame_within {mac : Mac} {dstIp : Net → Ip} {proto : UInt8} {payload : Memory}
    {len : Nat} : Within R s (netSendFrame mac dstIp proto payload len) := by
  unfold netSendFrame
  apply within_ite
  · intro _
    exact within_pure (-1)
  · intro _
    apply within_get_bind
    exact within_bind (ne2000Send_within hR) fun _ _ _ _ => within_pure 0

theorem releaseSlot_within : Within R s releaseSlot :=
  within_modify_bind (hR.step (.ring (.advance s.rx))) (within_pure none)

theorem udpProcess_within {payload : Memory} {len : Nat} :
    Within R s (udpProcess payload len) := by
  unfold udpProcess
  apply within_ite
  · intro _
    exact within_pure ()
  · intro _
    dsimp only
    apply within_ite
    · intro _
      exact within_pure ()
    · intro _
      apply within_get_bind
      apply within_ite
      · intro _
        exact within_modify (hR.same ⟨rfl, rfl, rfl, rfl, rfl, rfl, List.prefix_refl _⟩)
      · intro _
        exact within_pure ()

theorem tcpFinish_within {payload : Net → Memory} : Within R s (tcpFinish payload) := by
  unfold tcpFinish
  apply within_get_bind
  apply within_ite
  · intro _
    exact within_modify (hR.step (.heard (.closed s.ts)))
  · intro _
    exact within_pure ()

theorem waitRound_within (hpoll : ∀ s, Within R s poll) {waiting : Net → Bool} {deadline : Nat} :
    Within R s (waitRound env poll waiting deadline) := by
  unfold waitRound
  apply within_get_bind
  apply within_ite
  · intro _
    apply within_bind (timerGetTicks_within hR)
    intro now s' _ _
    apply within_ite
    · intro _
      apply within_bind (hpoll s')
      intro _ _ _ _
      exact within_pure none
    · intro _
      exact within_pure (some ())
  · intro _
    exact within_pure (some ())

end

section

variable {env : Env} {poll : NetM Unit} {rounds : Nat} {s : Net} [IsPreorder Net R]
variable (hR : Closed R) (hpoll : ∀ s, Within R s poll)

include hR hpoll

theorem netSendIp_within {dstIp : Net → Ip} {proto : UInt8} {payload : Memory} {len : Nat} :
    Within R s (netSendIp env poll rounds dstIp proto payload len) := by
  unfold netSendIp
  apply within_get_bind
  apply within_bind (hR.resolve hpoll)
  intro found _ _ _
  cases found with
  | none => exact within_pure (-1)
  | some mac => exact netSendFrame_within hR.toClosedSteps

theorem icmpProcess_within {payload : Net → Memory} {len : Nat} {src : Net → Ip} :
    Within R s (icmpProcess env poll rounds payload len src) := by
  unfold icmpProcess
  apply within_ite
  · intro _
    exact within_pure ()
  · intro _
    apply within_get_bind
    apply within_modify_bind (hR.same ⟨rfl, rfl, rfl, rfl, rfl, rfl, List.prefix_refl _⟩)
    apply within_ite
    · intro _
      exact within_modify (hR.same ⟨rfl, rfl, rfl, rfl, rfl, rfl, List.prefix_refl _⟩)
    · intro _
      apply within_ite
      · intro _
        apply within_bind (kmallocSucceeds_within hR.toClosedSteps)
        intro found _ _ _
        apply within_ite
        · intro _
          exact within_bind (netSendIp_within hR hpoll) fun _ _ _ _ => within_pure ()
        · intro _
          exact within_pure ()
      · intro _
        exact within_pure ()

theorem tcpSendSeg_within {flags : UInt8} {data : Memory} {dlen : Nat}
    (hstate : hasFlag flags tcpFlagAck → s.ts.state = .established ∨ s.ts.state = .finWait) :
    Within R s (tcpSendSeg env poll rounds flags data dlen) := by
  unfold tcpSendSeg
  apply within_ite
  · intro _
    exact within_pure ()
  · intro _
    apply within_get_bind
    apply within_modify_bind (hR.step (.heard (.noteAck s.ts flags data dlen hstate)))
    apply within_bind (kmallocSucceeds_within hR.toClosedSteps)
    intro found _ _ _
    apply within_bind (netSendIp_within hR hpoll)
    intro _ s' _ _
    exact within_modify (hR.step (.heard (.sent s'.ts flags dlen)))

theorem tcpTake_within {payload : Net → Memory} {segment : Memory} {len : Nat} (hlen : 20 ≤ len)
    (hstate : s.ts.state = .established) :
    Within R s (tcpTake env poll rounds payload segment len) := by
  unfold tcpTake
  apply within_modify_bind (hR.step (.heard (.accept s.ts segment len hlen hstate)))
  apply within_ite
  · intro _
    have hstate' := (s.ts.accept_frame segment len).1.trans hstate
    apply within_bind (tcpSendSeg_within hR hpoll fun _ => .inl hstate')
    intro _ _ _ _
    exact tcpFinish_within hR.toClosedSteps
  · intro _
    exact tcpFinish_within hR.toClosedSteps

theorem tcpProcess_within {payload : Net → Memory} {len : Nat} :
    Within R s (tcpProcess env poll rounds payload len) := by
  unfold tcpProcess
  apply within_ite
  · intro _
    exact within_pure ()
  · intro hlen
    apply within_get_bind
    apply within_ite
    · intro _
      exact within_pure ()
    · intro _
      split
      next hstate =>
        apply within_ite
        · intro _
          apply within_modify_bind (hR.step (.heard (.establish s.ts _ hstate)))
          exact tcpSendSeg_within hR hpoll fun _ => .inl rfl
        · intro _
          exact within_pure ()
      next hstate =>
        apply within_ite
        · intro _
          exact within_modify (hR.step (.heard (.closed s.ts)))
        · intro _
          exact tcpTake_within hR hpoll (Nat.le_of_not_lt hlen) hstate
      next => exact within_pure ()

theorem dispatch_within {slot len : Nat} (hnoted : Noted s (s.rx.buf slot) len) :
    Within R s (dispatch env poll rounds slot len) := by
  unfold dispatch
  apply within_ite
  · intro _
    exact within_pure ()
  · intro _
    apply within_get_bind
    dsimp only
    split_ifs
    · exact hR.step (.arp hnoted)
    · exact within_pure ()
    · exact icmpProcess_within hR hpoll
    · exact tcpProcess_within hR hpoll
    · exact udpProcess_within hR.toClosedSteps
    · exact within_pure ()

omit hR hpoll [IsPreorder Net R] in
/-- The slot that the next dispatch is for is on record. -/
theorem noted_noteDispatch (s : Net) :
    Noted { s with rx := s.rx.noteDispatch } (s.rx.buf s.rx.head) (s.rx.len s.rx.head) :=
  ⟨s.rx.head, List.mem_append_right _ List.mem_cons_self⟩

theorem drainRound_within : Within R s (drainRound env poll rounds) := by
  unfold drainRound
  apply within_get_bind
  apply within_ite
  · intro _
    exact within_pure (some ())
  · intro _
    apply within_modify_bind (hR.step (.ring (.noteDispatch s.rx)))
    apply within_bind (dispatch_within hR hpoll (noted_noteDispatch s))
    intro _ _ _ _
    exact releaseSlot_within hR.toClosedSteps

end

theorem receiveAll_within [IsPreorder Net R] (hR : Closed R) (env : Env) (s : Net) :
    R s (receiveAll env s) := by
  have hring : R s { s with rx := (env.frames s.polls).foldl RxRing.receive s.rx } := by
    generalize env.frames s.polls = frames
    induction frames generalizing s with
    | nil => exact refl s
    | cons frame frames ih =>
        have hfirst : R s { s with rx := s.rx.receive frame } :=
          hR.step (.ring (.receive s.rx frame))
        exact IsTrans.trans _ _ _ hfirst (ih { s with rx := s.rx.receive frame })
  exact IsTrans.trans _ _ _ hring (hR.same ⟨rfl, rfl, rfl, rfl, rfl, rfl, List.prefix_refl _⟩)

/-- What handlers keep is kept by polling the card, at any depth. -/
theorem netPoll_within [IsPreorder Net R] (hR : Closed R) (env : Env) (rounds depth : Nat)
    (s : Net) : Within R s (netPoll env rounds depth) := by
  induction depth generalizing s with
  | zero => exact within_failure
  | succ depth ih =>
      apply within_modify_bind (receiveAll_within hR env s)
      exact within_loop (fun s => drainRound_within hR ih) rounds _

/-! ## Calls that do no more than handlers -/

section

variable {env : Env} {poll : NetM Unit} {rounds : Nat} {s : Net} [IsPreorder Net R]
variable (hR : Closed R) (hpoll : ∀ s, Within R s poll)

include hR hpoll

theorem netPing_within {ip : Nat} : Within R s (netPing env poll rounds ip) := by
  unfold netPing
  apply within_modify_bind (hR.same ⟨rfl, rfl, rfl, rfl, rfl, rfl, List.prefix_refl _⟩)
  apply within_get_bind
  apply within_bind (timerGetTicks_within hR.toClosedSteps)
  intro t0 _ _ _
  apply within_bind (netSendIp_within hR hpoll)
  intro r s' _ _
  apply within_ite
  · intro _
    exact within_pure (-1)
  · intro _
    apply within_bind (within_loop (fun s => waitRound_within hR.toClosedSteps hpoll) rounds s')
    intro _ _ _ _
    apply within_get_bind
    apply within_ite
    · intro _
      apply within_bind (timerGetTicks_within hR.toClosedSteps)
      intro now _ _ _
      exact within_modify_bind
        (hR.same ⟨rfl, rfl, rfl, rfl, rfl, rfl, List.prefix_refl _⟩) (within_pure _)
    · intro _
      exact within_pure (-2)

theorem udpSend_within {dstIp : Ip} {dstPort srcPort len : Nat} {data : Memory} :
    Within R s (udpSend env poll rounds dstIp dstPort srcPort data len) := by
  unfold udpSend
  apply within_ite
  · intro _
    exact within_pure (-1)
  · intro _
    exact netSendIp_within hR hpoll

theorem udpRecvRound_within {max deadline : Nat} :
    Within R s (udpRecvRound env poll max deadline) := by
  unfold udpRecvRound
  apply within_bind (timerGetTicks_within hR.toClosedSteps)
  intro now s' _ _
  apply within_ite
  · intro _
    apply within_bind (hpoll s')
    intro _ _ _ _
    apply within_get_bind
    apply within_ite
    · intro _
      exact within_modify_bind
        (hR.same ⟨rfl, rfl, rfl, rfl, rfl, rfl, List.prefix_refl _⟩) (within_pure _)
    · intro _
      exact within_pure none
  · intro _
    exact within_pure (some none)

theorem udpRecv_within {port max : Nat} : Within R s (udpRecv env poll rounds port max) := by
  unfold udpRecv
  apply within_modify_bind (hR.same ⟨rfl, rfl, rfl, rfl, rfl, rfl, List.prefix_refl _⟩)
  apply within_bind (deadlineIn_within hR.toClosedSteps)
  intro deadline s' _ _
  exact within_loop (fun s => udpRecvRound_within hR hpoll) rounds s'

theorem dnsAwait_within {srcPort deadline fuel : Nat} {reply : Memory} :
    Within R s (dnsAwait env poll rounds srcPort deadline fuel reply) := by
  induction fuel generalizing s reply with
  | zero => exact within_failure
  | succ fuel ih =>
      apply within_bind (timerGetTicks_within hR.toClosedSteps)
      intro now _ _ _
      apply within_ite
      · intro _
        apply within_bind (udpRecv_within hR hpoll)
        intro copied _ _ _
        cases copied with
        | none => exact ih
        | some bytes =>
            apply within_ite
            · intro _
              split
              next => exact within_failure
              next answer _ => exact within_pure answer
            · intro _
              exact ih
      · intro _
        exact within_pure _

theorem dnsResolve_within {hostname : CString} :
    Within R s (dnsResolve env poll rounds hostname) := by
  unfold dnsResolve
  apply within_get_bind
  apply within_modify_bind (hR.same ⟨rfl, rfl, rfl, rfl, rfl, rfl, List.prefix_refl _⟩)
  split
  next => exact within_pure _
  next =>
    apply within_bind (udpSend_within hR hpoll)
    intro r _ _ _
    apply within_ite
    · intro _
      exact within_pure _
    · intro _
      apply within_bind (deadlineIn_within hR.toClosedSteps)
      intro deadline _ _ _
      exact dnsAwait_within hR hpoll

end

/-! ## Relations that calls keep -/

/-- The relation holds across the steps of calls too. -/
structure ClosedCalls (R : Net → Net → Prop) : Prop extends Closed R where
  call : ∀ {s s' : Net}, CallStep s s' → R s s'

section

variable {env : Env} {poll : NetM Unit} {rounds : Nat} {s : Net} [IsPreorder Net R]
variable (hC : ClosedCalls R) (hpoll : ∀ s, Within R s poll)

include hC hpoll

theorem tcpOpen_within {ip : Ip} {port : Nat} :
    Within R s (tcpOpen env poll rounds ip port) := by
  unfold tcpOpen
  apply within_modify_bind (hC.call (.connect ip port))
  apply within_bind (tcpSendSeg_within hC.toClosed hpoll fun hack => absurd hack (by decide))
  intro _ _ _ _
  apply within_bind (deadlineIn_within hC.toClosedSteps)
  intro deadline s' _ _
  apply within_bind (within_loop (fun s => waitRound_within hC.toClosedSteps hpoll) rounds s')
  intro _ s' _ _
  apply within_get_bind
  apply within_ite
  · intro _
    exact within_pure 0
  · intro _
    exact within_modify_bind (hC.call (.tcp (.closed s'.ts))) (within_pure (-1))

theorem tcpConnect_within {host : CString} {port : Nat} :
    Within R s (tcpConnect env poll rounds host port) := by
  unfold tcpConnect
  split
  next => exact tcpOpen_within hC hpoll
  next =>
    apply within_bind (dnsResolve_within hC.toClosed hpoll)
    intro found _ _ _
    cases found with
    | error _ => exact within_pure (-2)
    | ok ip => exact tcpOpen_within hC hpoll

theorem tcpSendData_within {data : Memory} {len : Nat} :
    Within R s (tcpSendData env poll rounds data len) := by
  unfold tcpSendData
  apply within_get_bind
  apply within_ite
  · intro _
    exact within_pure (-1)
  · intro hstate
    apply within_bind (tcpSendSeg_within hC.toClosed hpoll fun _ => .inl (not_not.1 hstate))
    intro _ _ _ _
    exact within_pure _

theorem tcpRecvRound_within {max deadline : Nat} :
    Within R s (tcpRecvRound env poll max deadline) := by
  unfold tcpRecvRound
  apply within_bind (timerGetTicks_within hC.toClosedSteps)
  intro now s' _ _
  apply within_ite
  · intro _
    apply within_bind (hpoll s')
    intro _ s' _ _
    apply within_get_bind
    apply within_ite
    · intro hunread
      refine within_modify_bind (hC.call (.tcp (.deliver s'.ts _ ?_))) (within_pure _)
      have hmin := Nat.min_le_left (s'.ts.rxLen - s'.ts.rxRead) max
      omega
    · intro _
      apply within_ite
      · intro _
        exact within_pure _
      · intro _
        exact within_pure none
  · intro _
    exact within_pure _

theorem tcpRecv_within {max : Nat} : Within R s (tcpRecv env poll rounds max) := by
  unfold tcpRecv
  apply within_get_bind
  apply within_ite
  · intro _
    exact within_pure none
  · intro _
    apply within_bind (deadlineIn_within hC.toClosedSteps)
    intro deadline s' _ _
    exact within_loop (fun s => tcpRecvRound_within hC hpoll) rounds s'

theorem tcpHangUp_within (hstate : s.ts.state = .established ∨ s.ts.state = .finWait) :
    Within R s (tcpHangUp env poll rounds) := by
  unfold tcpHangUp
  apply within_bind (tcpSendSeg_within hC.toClosed hpoll fun _ => hstate)
  intro _ s' _ _
  apply within_modify_bind (hC.call (.tcp (.closing s'.ts)))
  apply within_bind (deadlineIn_within hC.toClosedSteps)
  intro deadline s' _ _
  exact within_loop (fun s => waitRound_within hC.toClosedSteps hpoll) rounds s'

theorem tcpClose_within : Within R s (tcpClose env poll rounds) := by
  unfold tcpClose
  apply within_get_bind
  apply within_ite
  · intro hstate
    apply within_bind (tcpHangUp_within hC hpoll hstate)
    intro _ s' _ _
    exact within_modify (hC.call (.tcp (.closed s'.ts)))
  · intro _
    exact within_modify (hC.call (.tcp (.closed s.ts)))

end

section

variable {env : Env} {rounds depth : Nat} {s : Net} [IsPreorder Net R] (hC : ClosedCalls R)

include hC

theorem perform_within (op : NetOp) : Within R s (perform env rounds depth op) := by
  have hpoll := netPoll_within hC.toClosed env rounds depth
  cases op with
  | poll => exact within_bind (hpoll s) fun _ _ _ _ => within_pure _
  | resolve ip => exact within_bind (hC.resolve hpoll) fun _ _ _ _ => within_pure _
  | ping ip => exact within_bind (netPing_within hC.toClosed hpoll) fun _ _ _ _ => within_pure _
  | udpSend dstIp dstPort srcPort data =>
      exact within_bind (udpSend_within hC.toClosed hpoll) fun _ _ _ _ => within_pure _
  | udpRecv port max =>
      exact within_bind (udpRecv_within hC.toClosed hpoll) fun _ _ _ _ => within_pure _
  | dns hostname =>
      exact within_bind (dnsResolve_within hC.toClosed hpoll) fun _ _ _ _ => within_pure _
  | connect host port => exact within_bind (tcpConnect_within hC hpoll) fun _ _ _ _ => within_pure _
  | sendData data => exact within_bind (tcpSendData_within hC hpoll) fun _ _ _ _ => within_pure _
  | recv max => exact within_bind (tcpRecv_within hC hpoll) fun _ _ _ _ => within_pure _
  | close => exact within_bind (tcpClose_within hC hpoll) fun _ _ _ _ => within_pure _
  | segment bytes =>
      exact within_bind (tcpProcess_within hC.toClosed hpoll) fun _ _ _ _ => within_pure _

/-- Every run of calls makes these changes only, wherever it stops. -/
theorem performAll_within (ops : List NetOp) : Within R s (performAll env rounds depth ops) := by
  induction ops generalizing s with
  | nil => exact within_pure []
  | cons op ops ih =>
      apply within_bind (perform_within hC op)
      intro answer _ _ _
      apply within_bind ih
      intro answers _ _ _
      exact within_pure _

end

end Dosfs
