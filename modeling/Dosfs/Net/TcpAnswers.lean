import Dosfs.Net.Moves

/-!
# What `tcp_recv` answers

A connection keeps a record of what it has returned. The calls of a program and their answers
tell the same: what `tcp_recv` has answered since `tcp_connect` opened the connection.
-/

namespace Dosfs

open Foundation Fuelled

/-! ## Calls that return nothing -/

/-- The connection has returned nothing in between. -/
def SameReturned (s s' : Net) : Prop := s'.ts.talk.returned = s.ts.talk.returned

instance : IsPreorder Net SameReturned where
  refl _ := rfl
  trans _ _ _ h h' := h'.trans h

theorem noteAck_returned (t : TcpState) (flags : UInt8) (segment : Memory) :
    (t.noteAck flags segment).talk.returned = t.talk.returned := by
  unfold TcpState.noteAck
  split <;> rfl

theorem acknowledge_returned (t : TcpState) (seqNum inc : Nat) (arrival : Arrival) :
    (t.acknowledge seqNum inc arrival).talk.returned = t.talk.returned := by
  unfold TcpState.acknowledge
  split <;> rfl

theorem accept_returned (t : TcpState) (segment : Memory) (len : Nat) :
    (t.accept segment len).talk.returned = t.talk.returned := by
  have hkeep := congrArg Talk.returned
    (t.keep_frame segment (tcpHeader segment).dataOff ((tcpHeader segment).dataLen len) len).2.2
  exact (acknowledge_returned ..).trans hkeep

theorem SameReturned.closed : Closed SameReturned :=
  .of_connection (fun h => congrArg (fun t : TcpState => t.talk.returned) h.ts) (fun _ => rfl)
    fun {s ts} hstep => by
    change ts.talk.returned = s.ts.talk.returned
    cases hstep with
    | establish | sent | closed => rfl
    | accept segment len => exact accept_returned ..
    | noteAck flags data dlen => exact noteAck_returned ..

section

variable {env : Env} {poll : NetM Unit} {rounds : Nat} {s : Net}
variable (hpoll : ∀ s, Within SameReturned s poll)

include hpoll

/-- A connection that has just been opened has returned nothing. -/
theorem tcpOpen_returned {ip : Ip} {port : Nat} :
    (outcome (tcpOpen env poll rounds ip port) s).2.ts.talk.returned = [] := by
  have hC := SameReturned.closed
  rw [tcpOpen, outcome_modify_bind]
  refine within_bind (R := SameReturned) (tcpSendSeg_within hC hpoll fun hack =>
    absurd hack (by decide)) fun _ _ _ _ => ?_
  refine within_bind (deadlineIn_within hC.toClosedSteps) fun deadline s' _ _ => ?_
  refine within_bind (within_loop (fun s => waitRound_within hC.toClosedSteps hpoll)
    rounds s') fun _ s' _ _ => within_get_bind (within_ite (fun _ => within_pure 0) fun _ => ?_)
  exact within_modify_bind (show SameReturned s' _ from rfl) (within_pure (-1))

omit hpoll in
/-- The code for a name that was not resolved is not that of a connection that failed. -/
theorem tcpOpen_result {ip : Ip} {port : Nat} :
    Returns (fun r _ => r ≠ -2) s (tcpOpen env poll rounds ip port) := by
  have hany {α : Type} (x : NetM α) (s : Net) : Returns (fun _ _ => True) s x :=
    fun _ _ _ => trivial
  unfold tcpOpen
  refine returns_modify_bind (returns_bind (hany _ _) fun _ s₁ _ => ?_)
  refine returns_bind (hany _ s₁) fun _ s₂ _ => returns_bind (hany _ s₂) fun _ s₃ _ => ?_
  refine returns_get_bind (returns_ite (fun _ => returns_pure (by decide)) fun _ => ?_)
  exact returns_modify_bind (returns_pure (by decide))

theorem tcpConnect_returned {host : CString} {port : Nat} :
    Returns (fun r s' => (r = -2 → SameReturned s s') ∧ (r ≠ -2 → s'.ts.talk.returned = [])) s
      (tcpConnect env poll rounds host port) := by
  have hopen (ip : Ip) (s : Net) : Returns (fun r s' => r ≠ -2 ∧ s'.ts.talk.returned = []) s
      (tcpOpen env poll rounds ip port) := by
    intro r s' hrun
    have hreturned : (outcome (tcpOpen env poll rounds ip port) s).2.ts.talk.returned = [] :=
      tcpOpen_returned hpoll
    rw [hrun] at hreturned
    exact ⟨tcpOpen_result r s' hrun, hreturned⟩
  unfold tcpConnect
  split
  next ip _ => exact (hopen ip s).mono fun _ _ h => ⟨fun hr => absurd hr h.1, fun _ => h.2⟩
  next =>
    refine returns_bind (dnsResolve_within SameReturned.closed hpoll).returns fun found s₁ hs₁ => ?_
    cases found with
    | error _ => exact returns_pure ⟨fun _ => hs₁, fun hr => absurd rfl hr⟩
    | ok ip => exact (hopen ip s₁).mono fun _ _ h => ⟨fun hr => absurd hr h.1, fun _ => h.2⟩

theorem tcpSendData_returned {data : Memory} {len : Nat} :
    Within SameReturned s (tcpSendData env poll rounds data len) := by
  unfold tcpSendData
  refine within_get_bind (within_ite (fun _ => within_pure (-1)) fun hstate => ?_)
  refine within_bind (tcpSendSeg_within SameReturned.closed hpoll fun _ => .inl (not_not.1 hstate))
    fun _ _ _ _ => within_pure _

/-- What a call returns is added to what the connection has returned. -/
theorem tcpRecv_returned {max : Nat} :
    Returns (fun r s' => s'.ts.talk.returned = s.ts.talk.returned ++ r.getD [] ∧
      (r.getD []).length ≤ max) s (tcpRecv env poll rounds max) := by
  have hsteps := SameReturned.closed.toClosedSteps
  unfold tcpRecv
  refine returns_get_bind (returns_ite (fun _ => returns_pure ⟨(List.append_nil _).symm,
    Nat.zero_le _⟩) fun _ => ?_)
  refine returns_bind (deadlineIn_within hsteps).returns fun deadline s₁ hs₁ => ?_
  refine returns_loop (I := SameReturned s) (fun s₂ hs₂ => ?_) rounds s₁ hs₁
  unfold tcpRecvRound
  refine returns_bind (timerGetTicks_within hsteps).returns fun now s₃ hs₃ => ?_
  have hs₃ : SameReturned s s₃ := IsTrans.trans _ _ _ hs₂ hs₃
  refine returns_ite (fun _ => ?_) fun _ => returns_pure
    ⟨hs₃.trans (List.append_nil _).symm, Nat.zero_le _⟩
  refine returns_bind (hpoll s₃).returns fun _ s₄ hs₄ => ?_
  have hs₄ : SameReturned s s₄ := IsTrans.trans _ _ _ hs₃ hs₄
  refine returns_get_bind (returns_ite (fun _ => ?_) fun _ => ?_)
  · refine returns_modify_bind (returns_pure ⟨?_, ?_⟩)
    · exact congrArg (· ++ s₄.ts.unread _) hs₄
    · rw [Option.getD_some, TcpState.unread, Memory.loadList_length]
      exact Nat.min_le_right _ _
  · exact returns_ite (fun _ => returns_pure ⟨hs₄.trans (List.append_nil _).symm, Nat.zero_le _⟩)
      fun _ => returns_pure hs₄

theorem tcpClose_returned : Within SameReturned s (tcpClose env poll rounds) := by
  have hC := SameReturned.closed
  unfold tcpClose tcpHangUp
  refine within_get_bind (within_ite (fun hstate => ?_) fun _ => within_modify rfl)
  refine within_bind (within_bind (tcpSendSeg_within hC hpoll fun _ => hstate) fun _ _ _ _ => ?_)
    fun _ _ _ _ => within_modify rfl
  refine within_modify_bind rfl ?_
  refine within_bind (deadlineIn_within hC.toClosedSteps) fun deadline s' _ _ => ?_
  exact within_loop (fun s => waitRound_within hC.toClosedSteps hpoll) rounds s'

end

/-! ## The answers -/

/-- What was received with the answer to a call, if the first list was before: an attempt to
connect starts anew, unless the name of the host was not resolved. -/
def takeAnswer (got : List UInt8) : NetOp × NetAnswer → List UInt8
  | (.connect _ _, .code n) => if n = -2 then got else []
  | (.recv _, .bytes copied) => got ++ copied.getD []
  | _ => got

/-- What `tcp_recv` has answered since a connection was last opened. -/
def received (ops : List NetOp) (answers : List NetAnswer) : List UInt8 :=
  (ops.zip answers).foldl takeAnswer []

section

variable {env : Env} {rounds depth : Nat} {s : Net}

theorem perform_returned (op : NetOp) :
    Returns (fun answer s' => s'.ts.talk.returned = takeAnswer s.ts.talk.returned (op, answer)) s
      (perform env rounds depth op) := by
  have hC := SameReturned.closed
  have hpoll := netPoll_within hC env rounds depth
  cases op with
  | poll => exact returns_bind (hpoll s).returns fun _ _ h => returns_pure h
  | resolve ip => exact returns_bind (hC.resolve hpoll).returns fun _ _ h => returns_pure h
  | ping ip => exact returns_bind (netPing_within hC hpoll).returns fun _ _ h => returns_pure h
  | udpSend dstIp dstPort srcPort data =>
      exact returns_bind (udpSend_within hC hpoll).returns fun _ _ h => returns_pure h
  | udpRecv port max =>
      exact returns_bind (udpRecv_within hC hpoll).returns fun _ _ h => returns_pure h
  | dns hostname =>
      exact returns_bind (dnsResolve_within hC hpoll).returns fun _ _ h => returns_pure h
  | connect host port =>
      refine returns_bind (tcpConnect_returned hpoll) fun n _ ⟨hunresolved, hopened⟩ =>
        returns_pure ?_
      by_cases hn : n = -2
      · exact (hunresolved hn).trans (if_pos hn).symm
      · exact (hopened hn).trans (if_neg hn).symm
  | sendData data =>
      exact returns_bind (tcpSendData_returned hpoll).returns fun _ _ h => returns_pure h
  | recv max => exact returns_bind (tcpRecv_returned hpoll) fun _ _ h => returns_pure h.1
  | close => exact returns_bind (tcpClose_returned hpoll).returns fun _ _ h => returns_pure h
  | segment bytes =>
      exact returns_bind (tcpProcess_within hC hpoll).returns fun _ _ h => returns_pure h

theorem performAll_returned (ops : List NetOp) :
    Returns (fun answers s' =>
        s'.ts.talk.returned = (ops.zip answers).foldl takeAnswer s.ts.talk.returned) s
      (performAll env rounds depth ops) := by
  induction ops generalizing s with
  | nil => exact returns_pure rfl
  | cons op ops ih =>
      refine returns_bind (perform_returned op) fun answer s₁ hanswer => ?_
      refine returns_bind ih fun answers s₂ hanswers => returns_pure ?_
      rw [hanswers, hanswer]
      rfl

end

/-- The record of the connection is what its calls have answered. -/
theorem performAll_received (ops : List NetOp) {answers : List NetAnswer}
    (hrun : (outcome (performAll env rounds depth ops) startNet).1 = some answers) :
    (outcome (performAll env rounds depth ops) startNet).2.ts.talk.returned =
      received ops answers :=
  performAll_returned ops answers _ (Prod.ext hrun rfl)

end Dosfs
