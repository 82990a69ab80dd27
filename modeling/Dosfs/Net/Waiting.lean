import Dosfs.Net.Moves

/-!
# Handlers that wait

The handler of a frame polls the card again exactly when it sends something to
a peer whose hardware address is not in the cache. Otherwise it returns at
once, and does the same whatever the timer says and whatever polling would do.
-/

namespace Dosfs

open Foundation Fuelled

/-- The timer, the computation that polls, and the bound on loops. -/
structure Around where
  ticks : Nat → Nat
  poll : NetM Unit
  rounds : Nat

/-- The surroundings with another timer. -/
def Env.withTicks (env : Env) (ticks : Nat → Nat) : Env := { env with ticks := ticks }

/-- The ring is left alone and the timer is not read. -/
structure Undisturbed (s s' : Net) : Prop where
  rx : s'.rx = s.rx
  readings : s'.readings = s.readings

instance : IsPreorder Net Undisturbed where
  refl _ := ⟨rfl, rfl⟩
  trans _ _ _ h h' := ⟨h'.rx.trans h.rx, h'.readings.trans h.readings⟩

/-- The timer allows at least one round of waiting. -/
def MayWait (env : Env) (s : Net) : Prop :=
  env.ticks (s.readings + 1) % 2 ^ 32 < (env.ticks s.readings % 2 ^ 32 + 100) % 2 ^ 32

section

variable {env : Env} {poll : NetM Unit} {rounds : Nat} {s : Net}

theorem outcome_timerGetTicks :
    outcome (timerGetTicks env) s =
      (some (env.ticks s.readings % 2 ^ 32), { s with readings := s.readings + 1 }) := rfl

theorem outcome_deadlineIn {limit : Nat} :
    outcome (deadlineIn env limit) s =
      (some ((env.ticks s.readings % 2 ^ 32 + limit) % 2 ^ 32),
        { s with readings := s.readings + 1 }) := rfl

theorem outcome_kmallocSucceeds :
    outcome (kmallocSucceeds env) s =
      (some (env.kmalloc s.allocs), { s with allocs := s.allocs + 1 }) := rfl

theorem outcome_ne2000Send {frame : Memory} {len : Nat} :
    outcome (ne2000Send frame len) s =
      (some (), { s with sent := s.sent ++ [frame.loadList 0 (min len 1500)] }) := rfl

theorem outcome_arpResolve_of_cached {ip : Ip} {mac : Mac}
    (hcached : arpLookup s.arpCache ip = some mac) :
    outcome (arpResolve env poll rounds ip) s = (some (some mac), s) := by
  rw [arpResolve, outcome_get_bind, hcached]
  rfl

/-- The ring is as before. -/
def KeepsRing (s s' : Net) : Prop := s'.rx = s.rx

instance : IsPreorder Net KeepsRing where
  refl _ := rfl
  trans _ _ _ h h' := h'.trans h

theorem waitRound_calls {waiting : Net → Bool} {deadline : Nat} (hwaiting : waiting s = true)
    (hnow : env.ticks s.readings % 2 ^ 32 < deadline) :
    Calls KeepsRing Moves poll s (waitRound env poll waiting deadline) := by
  rw [waitRound]
  apply calls_get_bind
  rw [if_pos hwaiting]
  refine calls_bind_of_outcome outcome_timerGetTicks rfl ?_
  rw [if_pos hnow]
  exact calls_bind calls_self fun _ _ => within_pure none

section

variable (hpoll : ∀ s, Within Moves s poll)

include hpoll

theorem arpResolve_calls {ip : Ip} (hmiss : arpLookup s.arpCache ip = none)
    (hwait : MayWait env s) :
    Calls KeepsRing Moves poll s (arpResolve env poll (rounds + 1) ip) := by
  rw [arpResolve]
  apply calls_get_bind
  rw [hmiss]
  refine calls_modify_bind rfl ?_
  refine calls_bind_of_outcome outcome_ne2000Send rfl ?_
  refine calls_bind_of_outcome outcome_deadlineIn rfl ?_
  refine calls_bind ?_ fun _ _ => arpFinish_moves
  rw [loop]
  refine calls_bind ?_ fun result t => ?_
  · exact waitRound_calls rfl hwait
  · cases result with
    | some _ => exact within_pure _
    | none => exact within_loop (fun s => waitRound_moves hpoll) rounds t

theorem netSendIp_calls {dstIp : Net → Ip} {proto : UInt8} {payload : Memory} {len : Nat}
    (hmiss : arpLookup s.arpCache (routeIp (dstIp s)) = none) (hwait : MayWait env s) :
    Calls KeepsRing Moves poll s (netSendIp env poll (rounds + 1) dstIp proto payload len) := by
  rw [netSendIp]
  apply calls_get_bind
  refine calls_bind (arpResolve_calls hpoll hmiss hwait) fun found t => ?_
  cases found with
  | none => exact within_pure (-1)
  | some mac => exact netSendFrame_moves

theorem tcpSendSeg_calls {flags : UInt8}
    (hmiss : arpLookup s.arpCache (routeIp s.tcpDstIp) = none) (hwait : MayWait env s) :
    Calls KeepsRing Moves poll s
      (tcpSendSeg env poll (rounds + 1) flags (fun _ => 0) 0) := by
  rw [tcpSendSeg, if_neg (by decide)]
  apply calls_get_bind
  refine calls_modify_bind rfl ?_
  refine calls_bind_of_outcome outcome_kmallocSucceeds rfl ?_
  refine calls_bind (netSendIp_calls hpoll hmiss hwait) fun _ t => ?_
  exact within_modify (moves_of_tcp (.sent t.ts flags 0))

end

/-! ## What is answered -/

/-- A segment that is answered: the peer's SYN, or data or a FIN. -/
def TcpAnswers (t : TcpState) (segment : Memory) (len : Nat) : Prop :=
  20 ≤ len ∧ (tcpHeader segment).dstPort = t.sport ∧
    (t.state = .synSent ∧ hasFlag (tcpHeader segment).flags tcpFlagSyn ∧
        hasFlag (tcpHeader segment).flags tcpFlagAck ∨
      t.state = .established ∧ ¬hasFlag (tcpHeader segment).flags tcpFlagRst ∧
        (tcpHeader segment).increment len ≠ 0)

/-- An echo request, and memory for the reply. -/
def EchoAnswers (env : Env) (s : Net) (icmp : Memory) (len : Nat) : Prop :=
  8 ≤ len ∧ icmp 0 = 8 ∧ env.kmalloc s.allocs

/-- The handler of the `len` bytes in a slot sends something, to an address
that is not in the cache. -/
def SlotWaits (env : Env) (s : Net) (slot len : Nat) : Prop :=
  let pkt := s.rx.buf slot
  34 ≤ len ∧ ntohs (pkt.loadLe 12 2) = ethTypeIp ∧
    (pkt 23 = ipIcmp ∧ EchoAnswers env s (pkt.window 34) (len - 34) ∧
        arpLookup s.arpCache (routeIp (Ip.load pkt 26)) = none ∨
      pkt 23 = ipTcp ∧ TcpAnswers s.ts (pkt.window 34) (len - 34) ∧
        arpLookup s.arpCache (routeIp s.tcpDstIp) = none)

instance (t : TcpState) (segment : Memory) (len : Nat) : Decidable (TcpAnswers t segment len) :=
  inferInstanceAs (Decidable (_ ∧ _))

instance (s : Net) (icmp : Memory) (len : Nat) : Decidable (EchoAnswers env s icmp len) :=
  inferInstanceAs (Decidable (_ ∧ _))

instance (s : Net) (slot len : Nat) : Decidable (SlotWaits env s slot len) :=
  inferInstanceAs (Decidable (_ ∧ _))

section

variable (hpoll : ∀ s, Within Moves s poll)

include hpoll

/-- The wait does not depend on the connection. -/
theorem tcpAnswer_calls {ts : TcpState} {payload : Net → Memory}
    (hmiss : arpLookup s.arpCache (routeIp s.tcpDstIp) = none) (hwait : MayWait env s) :
    Calls KeepsRing Moves poll { s with ts }
      (do tcpSendSeg env poll (rounds + 1) tcpFlagAck (fun _ => 0) 0; tcpFinish payload) :=
  calls_bind (tcpSendSeg_calls hpoll hmiss hwait) fun _ _ => tcpFinish_moves

theorem tcpTake_calls {payload : Net → Memory} {segment : Memory} {len : Nat}
    (hinc : (tcpHeader segment).increment len ≠ 0)
    (hmiss : arpLookup s.arpCache (routeIp s.tcpDstIp) = none) (hwait : MayWait env s) :
    Calls KeepsRing Moves poll s (tcpTake env poll (rounds + 1) payload segment len) := by
  rw [tcpTake]
  refine calls_modify_bind rfl ?_
  rw [if_pos hinc]
  exact tcpAnswer_calls hpoll hmiss hwait

theorem tcpProcess_calls {payload : Net → Memory} {len : Nat}
    (hanswers : TcpAnswers s.ts (payload s) len)
    (hmiss : arpLookup s.arpCache (routeIp s.tcpDstIp) = none) (hwait : MayWait env s) :
    Calls KeepsRing Moves poll s (tcpProcess env poll (rounds + 1) payload len) := by
  obtain ⟨hlen, hport, hanswers⟩ := hanswers
  rw [tcpProcess, if_neg (Nat.not_lt.2 hlen)]
  apply calls_get_bind
  rw [if_neg (not_not.2 hport)]
  rcases hanswers with ⟨hstate, hsyn, hack⟩ | ⟨hstate, hrst, hinc⟩
  · rw [hstate]
    dsimp only
    rw [if_pos ⟨hsyn, hack⟩]
    refine calls_modify_bind rfl ?_
    exact tcpSendSeg_calls hpoll hmiss hwait
  · rw [hstate]
    dsimp only
    rw [if_neg hrst]
    exact tcpTake_calls hpoll hinc hmiss hwait

theorem icmpProcess_calls {payload : Net → Memory} {len : Nat} {src : Net → Ip}
    (hsrc : ∀ s', KeepsRing s s' → src s' = src s) (hanswers : EchoAnswers env s (payload s) len)
    (hmiss : arpLookup s.arpCache (routeIp (src s)) = none) (hwait : MayWait env s) :
    Calls KeepsRing Moves poll s (icmpProcess env poll (rounds + 1) payload len src) := by
  obtain ⟨hlen, htype, hfound⟩ := hanswers
  rw [icmpProcess, if_neg (Nat.not_lt.2 hlen)]
  apply calls_get_bind
  refine calls_modify_bind rfl ?_
  rw [if_neg (by simp [htype]), if_pos htype]
  refine calls_bind_of_outcome outcome_kmallocSucceeds rfl ?_
  rw [if_pos hfound]
  have hmiss' (s' : Net) (hrx : KeepsRing s s') :
      arpLookup s.arpCache (routeIp (src s')) = none := by
    rw [hsrc s' hrx]
    exact hmiss
  refine calls_bind (netSendIp_calls hpoll (hmiss' _ ?_) hwait) fun _ _ => within_pure ()
  rfl

/-- A handler that has to wait polls the card. -/
theorem dispatch_calls {slot len : Nat} (hwaits : SlotWaits env s slot len)
    (hwait : MayWait env s) :
    Calls KeepsRing Moves poll s (dispatch env poll (rounds + 1) slot len) := by
  obtain ⟨hlen, htype, hwaits⟩ := hwaits
  rw [dispatch, if_neg (by omega)]
  apply calls_get_bind
  dsimp only
  rw [htype, if_neg (by decide), if_neg (by simp [hlen])]
  rcases hwaits with ⟨hproto, hanswers, hmiss⟩ | ⟨hproto, hanswers, hmiss⟩
  · rw [if_pos hproto]
    refine icmpProcess_calls hpoll ?_ hanswers hmiss hwait
    intro s' hrx
    rw [hrx]
  · rw [if_neg (by rw [hproto]; decide), if_pos hproto]
    exact tcpProcess_calls hpoll hanswers hmiss hwait

end

/-! ## What returns at once -/

theorem netSendIp_agree {dstIp : Net → Ip} {proto : UInt8} {payload : Memory} {len : Nat}
    (hcached : arpLookup s.arpCache (routeIp (dstIp s)) ≠ none) :
    Agree Undisturbed s fun w : Around =>
      netSendIp (env.withTicks w.ticks) w.poll w.rounds dstIp proto payload len := by
  obtain ⟨mac, hmac⟩ := Option.ne_none_iff_exists'.1 hcached
  unfold netSendIp
  apply agree_get_bind
  refine agree_bind_of_outcome (fun w => outcome_arpResolve_of_cached hmac) (refl s) ?_
  unfold netSendFrame
  by_cases hbig : 1500 < (14 + 20 + len) % 2 ^ 16
  · simp only [if_pos hbig]
    exact agree_pure (-1)
  · simp only [if_neg hbig]
    apply agree_get_bind
    refine agree_bind_of_outcome (fun w => outcome_ne2000Send) ⟨rfl, rfl⟩ ?_
    exact agree_pure 0

theorem tcpSendSeg_agree {flags : UInt8} {data : Memory} {dlen : Nat}
    (hcached : arpLookup s.arpCache (routeIp s.tcpDstIp) ≠ none) :
    Agree Undisturbed s fun w : Around =>
      tcpSendSeg (env.withTicks w.ticks) w.poll w.rounds flags data dlen := by
  unfold tcpSendSeg
  by_cases hbig : 1500 < (20 + dlen) % 2 ^ 16
  · simp only [if_pos hbig]
    exact agree_pure ()
  · simp only [if_neg hbig]
    apply agree_get_bind
    refine agree_modify_bind ⟨rfl, rfl⟩ ?_
    refine agree_bind_of_outcome (a := env.kmalloc s.allocs) (fun _ => rfl) ⟨rfl, rfl⟩ ?_
    refine agree_bind (netSendIp_agree ?_) fun _ s' _ => ?_
    · exact hcached
    · exact agree_of_outcome (outcome_modify _) ⟨rfl, rfl⟩

theorem tcpFinish_agree {payload : Net → Memory} :
    Agree Undisturbed s fun _ : Around => tcpFinish payload := by
  unfold tcpFinish
  apply agree_get_bind
  by_cases hfin : hasFlag (tcpHeader (payload s)).flags tcpFlagFin
  · simp only [if_pos hfin]
    exact agree_of_outcome (outcome_modify _) ⟨rfl, rfl⟩
  · simp only [if_neg hfin]
    exact agree_pure ()

theorem tcpProcess_agree {payload : Net → Memory} {len : Nat}
    (hquiet : TcpAnswers s.ts (payload s) len →
      arpLookup s.arpCache (routeIp s.tcpDstIp) ≠ none) :
    Agree Undisturbed s fun w : Around =>
      tcpProcess (env.withTicks w.ticks) w.poll w.rounds payload len := by
  unfold tcpProcess
  by_cases hlen : len < 20
  · simp only [if_pos hlen]
    exact agree_pure ()
  · simp only [if_neg hlen]
    apply agree_get_bind
    by_cases hport : (tcpHeader (payload s)).dstPort ≠ s.ts.sport
    · simp only [if_pos hport]
      exact agree_pure ()
    · simp only [if_neg hport]
      split
      next hstate =>
        by_cases hsyn : hasFlag (tcpHeader (payload s)).flags tcpFlagSyn ∧
            hasFlag (tcpHeader (payload s)).flags tcpFlagAck
        · have hcached := hquiet ⟨Nat.not_lt.1 hlen, not_not.1 hport, .inl ⟨hstate, hsyn⟩⟩
          simp only [if_pos hsyn]
          refine agree_modify_bind ⟨rfl, rfl⟩ ?_
          exact tcpSendSeg_agree hcached
        · simp only [if_neg hsyn]
          exact agree_pure ()
      next hstate =>
        by_cases hrst : hasFlag (tcpHeader (payload s)).flags tcpFlagRst
        · simp only [if_pos hrst]
          exact agree_of_outcome (outcome_modify _) ⟨rfl, rfl⟩
        · simp only [if_neg hrst]
          unfold tcpTake
          refine agree_modify_bind ⟨rfl, rfl⟩ ?_
          by_cases hinc : (tcpHeader (payload s)).increment len ≠ 0
          · have hcached :=
              hquiet ⟨Nat.not_lt.1 hlen, not_not.1 hport, .inr ⟨hstate, hrst, hinc⟩⟩
            simp only [if_pos hinc]
            refine agree_bind (tcpSendSeg_agree ?_) fun _ _ _ => tcpFinish_agree
            exact hcached
          · simp only [if_neg hinc]
            exact tcpFinish_agree
      next => exact agree_pure ()

theorem icmpProcess_agree {payload : Net → Memory} {len : Nat} {src : Net → Ip}
    (hsrc : ∀ s', KeepsRing s s' → src s' = src s)
    (hquiet : EchoAnswers env s (payload s) len →
      arpLookup s.arpCache (routeIp (src s)) ≠ none) :
    Agree Undisturbed s fun w : Around =>
      icmpProcess (env.withTicks w.ticks) w.poll w.rounds payload len src := by
  unfold icmpProcess
  by_cases hlen : len < 8
  · simp only [if_pos hlen]
    exact agree_pure ()
  · simp only [if_neg hlen]
    apply agree_get_bind
    refine agree_modify_bind ⟨rfl, rfl⟩ ?_
    by_cases hreply : payload s 0 = 0 ∧ ((payload s).loadLe 4 2 = htons s.pingId ∨
        (payload s).loadLe 4 2 = s.pingId)
    · simp only [if_pos hreply]
      exact agree_of_outcome (outcome_modify _) ⟨rfl, rfl⟩
    · simp only [if_neg hreply]
      by_cases hrequest : payload s 0 = 8
      · simp only [if_pos hrequest]
        refine agree_bind_of_outcome (a := env.kmalloc s.allocs) (fun _ => rfl) ⟨rfl, rfl⟩ ?_
        by_cases hfound : env.kmalloc s.allocs = true
        · have hcached (s' : Net) (hrx : KeepsRing s s') :
              arpLookup s.arpCache (routeIp (src s')) ≠ none := by
            rw [hsrc s' hrx]
            exact hquiet ⟨Nat.not_lt.1 hlen, hrequest, hfound⟩
          simp only [if_pos hfound]
          refine agree_bind (netSendIp_agree (hcached _ ?_)) fun _ _ _ => agree_pure ()
          rfl
        · simp only [if_neg hfound]
          exact agree_pure ()
      · simp only [if_neg hrequest]
        exact agree_pure ()

theorem arpProcess_agree {pkt : Memory} {len : Nat} :
    Agree Undisturbed s fun _ : Around => arpProcess pkt len := by
  unfold arpProcess
  by_cases hlen : len < 42
  · simp only [if_pos hlen]
    exact agree_pure ()
  · simp only [if_neg hlen]
    apply agree_bind
    · unfold arpAnswer
      by_cases hrequest : pkt.loadLe 20 2 = htons 1 ∧ Ip.load pkt 38 = ourIp
      · simp only [if_pos hrequest]
        refine agree_bind_of_outcome (fun _ => outcome_ne2000Send) ⟨rfl, rfl⟩ ?_
        exact agree_of_outcome (outcome_modify _) ⟨rfl, rfl⟩
      · simp only [if_neg hrequest]
        exact agree_pure ()
    · intro _ s' _
      unfold arpTakeReply
      apply agree_get_bind
      by_cases hreply : pkt.loadLe 20 2 = htons 2 ∧ s'.arpWaiting = true
      · simp only [if_pos hreply]
        exact agree_of_outcome (outcome_modify _) ⟨rfl, rfl⟩
      · simp only [if_neg hreply]
        exact agree_pure ()

theorem udpProcess_agree {payload : Memory} {len : Nat} :
    Agree Undisturbed s fun _ : Around => udpProcess payload len := by
  unfold udpProcess
  by_cases hshort : len < 8
  · simp only [if_pos hshort]
    exact agree_pure ()
  · simp only [if_neg hshort]
    by_cases hlength : ntohs (payload.loadLe 4 2) < 8 ∨ 1536 < ntohs (payload.loadLe 4 2) - 8
    · simp only [if_pos hlength]
      exact agree_pure ()
    · simp only [if_neg hlength]
      apply agree_get_bind
      by_cases hport : ¬s.udpGot = true ∧ ntohs (payload.loadLe 2 2) = s.udpPort
      · simp only [if_pos hport]
        exact agree_of_outcome (outcome_modify _) ⟨rfl, rfl⟩
      · simp only [if_neg hport]
        exact agree_pure ()

/-- A handler that need not wait. -/
theorem dispatch_agree {slot len : Nat} (hquiet : ¬SlotWaits env s slot len) :
    Agree Undisturbed s fun w : Around =>
      dispatch (env.withTicks w.ticks) w.poll w.rounds slot len := by
  unfold dispatch
  by_cases hshort : len < 14
  · simp only [if_pos hshort]
    exact agree_pure ()
  · simp only [if_neg hshort]
    apply agree_get_bind
    by_cases harp : ntohs ((s.rx.buf slot).loadLe 12 2) = ethTypeArp
    · simp only [if_pos harp]
      exact arpProcess_agree
    · simp only [if_neg harp]
      by_cases hother : ntohs ((s.rx.buf slot).loadLe 12 2) ≠ ethTypeIp ∨ len < 34
      · simp only [if_pos hother]
        exact agree_pure ()
      · simp only [if_neg hother]
        obtain ⟨htype, hlen⟩ := not_or.1 hother
        by_cases hicmp : s.rx.buf slot 23 = ipIcmp
        · simp only [if_pos hicmp]
          apply icmpProcess_agree
          · intro s' hrx
            rw [hrx]
          · intro hanswers hmiss
            exact hquiet ⟨Nat.not_lt.1 hlen, not_not.1 htype, .inl ⟨hicmp, hanswers, hmiss⟩⟩
        · simp only [if_neg hicmp]
          by_cases htcp : s.rx.buf slot 23 = ipTcp
          · simp only [if_pos htcp]
            apply tcpProcess_agree
            intro hanswers hmiss
            exact hquiet ⟨Nat.not_lt.1 hlen, not_not.1 htype, .inr ⟨htcp, hanswers, hmiss⟩⟩
          · simp only [if_neg htcp]
            by_cases hudp : s.rx.buf slot 23 = ipUdp
            · simp only [if_pos hudp]
              exact udpProcess_agree
            · simp only [if_neg hudp]
              exact agree_pure ()

end

end Dosfs
