import Dosfs.Net.Steps

/-!
# What the stack does to its ring and its connection

The ring and the connection are changed by their own steps only. Resolving an
address touches neither, so an invariant of the connection need only be checked
for each of its steps.
-/

namespace Dosfs

open Foundation Fuelled Relation

/-! ## Resolving an address -/

/-- The ring, the connection and its peer are as before; frames may have been
sent. -/
structure SameConnection (s s' : Net) : Prop where
  rx : s'.rx = s.rx
  ts : s'.ts = s.ts
  tcpDstIp : s'.tcpDstIp = s.tcpDstIp
  sent : s.sent <+: s'.sent

instance : IsPreorder Net SameConnection where
  refl _ := ⟨rfl, rfl, rfl, List.prefix_refl _⟩
  trans _ _ _ h h' := ⟨h'.rx.trans h.rx, h'.ts.trans h.ts, h'.tcpDstIp.trans h.tcpDstIp,
    h.sent.trans h'.sent⟩

section

variable {s : Net}

theorem arpProcess_same {pkt : Memory} {len : Nat} :
    Within SameConnection s (arpProcess pkt len) := by
  unfold arpProcess
  apply within_ite
  · intro _
    exact within_pure ()
  · intro _
    apply within_bind
    · unfold arpAnswer
      apply within_ite
      · intro _
        exact within_modify_bind ⟨rfl, rfl, rfl, List.prefix_append _ _⟩
          (within_modify ⟨rfl, rfl, rfl, List.prefix_refl _⟩)
      · intro _
        exact within_pure ()
    · intro _ s' _ _
      unfold arpTakeReply
      apply within_get_bind
      apply within_ite
      · intro _
        exact within_modify ⟨rfl, rfl, rfl, List.prefix_refl _⟩
      · intro _
        exact within_pure ()

theorem arpFinish_same {ip : Ip} : Within SameConnection s (arpFinish ip) := by
  unfold arpFinish
  apply within_get_bind
  apply within_ite
  · intro _
    exact within_pure none
  · intro _
    exact within_modify_bind ⟨rfl, rfl, rfl, List.prefix_refl _⟩ (within_pure _)

end

/-- A relation that says something of the ring and the connection only is kept
by resolving an address. -/
theorem Closed.of_connection {R : Net → Net → Prop} [IsPreorder Net R]
    (hsame : ∀ {s s' : Net}, SameConnection s s' → R s s')
    (hring : ∀ {s : Net} {rx : RxRing}, RxStep s.rx rx → R s { s with rx := rx })
    (hheard : ∀ {s : Net} {ts : TcpState}, TcpHeard s.ts ts → R s { s with ts := ts }) :
    Closed R := by
  have hsteps : ClosedSteps R := by
    constructor
    intro s s' hstep
    cases hstep with
    | other h => exact hsame ⟨h.rx, h.ts, h.tcpDstIp, h.sent⟩
    | ring h => exact hring h
    | heard h => exact hheard h
    | arp => exact hsame arpProcess_same
  refine ⟨hsteps, ?_⟩
  intro env poll rounds s ip hpoll
  unfold arpResolve
  apply within_get_bind
  split
  next mac _ => exact within_pure (some mac)
  next =>
    apply within_modify_bind (hsame ⟨rfl, rfl, rfl, List.prefix_refl _⟩)
    apply within_bind (ne2000Send_within hsteps)
    intro _ _ _ _
    apply within_bind (deadlineIn_within hsteps)
    intro deadline s' _ _
    apply within_bind (within_loop (fun s => waitRound_within hsteps hpoll) rounds s')
    intro _ _ _ _
    exact hsame arpFinish_same

/-! ## The ring and the connection -/

/-- The ring and the connection have changed by such steps only. -/
structure Moves (s s' : Net) : Prop where
  rx : ReflTransGen RxStep s.rx s'.rx
  ts : ReflTransGen TcpStep s.ts s'.ts

instance : IsPreorder Net Moves where
  refl _ := ⟨.refl, .refl⟩
  trans _ _ _ h h' := ⟨h.rx.trans h'.rx, h.ts.trans h'.ts⟩

/-- What holds initially and is kept by every step of the connection holds of
every connection that is reached. -/
theorem Moves.tcp_inv {s s' : Net} (h : Moves s s') {inv : TcpState → Prop}
    (hstep : ∀ t t', TcpStep t t' → inv t → inv t') (hinv : inv s.ts) : inv s'.ts := by
  obtain ⟨-, hts⟩ := h
  generalize s'.ts = t at hts ⊢
  induction hts with
  | refl => exact hinv
  | tail _ hlast ih => exact hstep _ _ hlast ih

/-- The ring has changed by such steps only, whatever has happened to the rest. -/
def RingMoves (s s' : Net) : Prop := ReflTransGen RxStep s.rx s'.rx

instance : IsPreorder Net RingMoves where
  refl _ := .refl
  trans _ _ _ h h' := h.trans h'

/-- What every step of the ring keeps is kept. -/
theorem RingMoves.inv {s s' : Net} (h : RingMoves s s') {I : RxRing → Prop}
    (hstep : ∀ rx rx', RxStep rx rx' → I rx → I rx') (hinv : I s.rx) : I s'.rx := by
  unfold RingMoves at h
  generalize s'.rx = rx at h ⊢
  induction h with
  | refl => exact hinv
  | tail _ hlast ih => exact hstep _ _ hlast ih

/-- The rest of the stack may change as it likes. -/
theorem moves_of_eq {s s' : Net} (hrx : s'.rx = s.rx) (hts : s'.ts = s.ts) : Moves s s' := by
  constructor
  · rw [hrx]
  · rw [hts]

theorem moves_of_tcp {s : Net} {ts : TcpState} (h : TcpStep s.ts ts) :
    Moves s { s with ts := ts } :=
  ⟨.refl, .single h⟩

theorem moves_of_rx {s : Net} {rx : RxRing} (h : RxStep s.rx rx) : Moves s { s with rx := rx } :=
  ⟨.single h, .refl⟩

theorem Moves.closed : ClosedCalls Moves where
  toClosed := .of_connection (fun h => moves_of_eq h.rx h.ts) moves_of_rx
    fun h => moves_of_tcp h.tcpStep
  call hstep := by
    cases hstep with
    | tcp h => exact moves_of_tcp h
    | connect ip port => exact ⟨.refl, .single (.start _ _ port)⟩

section

variable {env : Env} {poll : NetM Unit} {rounds : Nat} {s : Net}

theorem arpFinish_moves {ip : Ip} : Within Moves s (arpFinish ip) :=
  moves_of_eq arpFinish_same.rx arpFinish_same.ts

theorem netSendFrame_moves {mac : Mac} {dstIp : Net → Ip} {proto : UInt8} {payload : Memory}
    {len : Nat} : Within Moves s (netSendFrame mac dstIp proto payload len) :=
  netSendFrame_within Moves.closed.toClosedSteps

theorem tcpFinish_moves {payload : Net → Memory} : Within Moves s (tcpFinish payload) :=
  tcpFinish_within Moves.closed.toClosedSteps

theorem releaseSlot_moves : Within Moves s releaseSlot :=
  releaseSlot_within Moves.closed.toClosedSteps

variable (hpoll : ∀ s, Within Moves s poll)

include hpoll

theorem waitRound_moves {waiting : Net → Bool} {deadline : Nat} :
    Within Moves s (waitRound env poll waiting deadline) :=
  waitRound_within Moves.closed.toClosedSteps hpoll

theorem dispatch_moves {slot len : Nat} (hnoted : Noted s (s.rx.buf slot) len) :
    Within Moves s (dispatch env poll rounds slot len) :=
  dispatch_within Moves.closed.toClosed hpoll hnoted

theorem drainRound_moves : Within Moves s (drainRound env poll rounds) :=
  drainRound_within Moves.closed.toClosed hpoll

end

/-- Polling the card makes no other changes, at any depth. -/
theorem netPoll_moves (env : Env) (rounds depth : Nat) (s : Net) :
    Within Moves s (netPoll env rounds depth) :=
  netPoll_within Moves.closed.toClosed env rounds depth s

/-- Every run of calls makes these changes only, wherever it stops. -/
theorem performAll_moves {env : Env} {rounds depth : Nat} {s : Net} (ops : List NetOp) :
    Within Moves s (performAll env rounds depth ops) :=
  performAll_within Moves.closed ops

end Dosfs
