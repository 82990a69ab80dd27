import Dosfs.Net.PollSteps
import Dosfs.Net.RxQueue

/-!
# What a datagram delivers

The length of a datagram is in its header, and the length of the frame around it
in the slot of the ring. `udp_process` copies as many bytes as the header says, so
what `udp_recv` returns lies within the frame exactly when the header does not say
more than there is.
-/

namespace Dosfs

open Foundation Fuelled

/-! ## Lengths of a datagram -/

/-- A frame as a buffer that is zero behind it. -/
def frameMemory (frame : List UInt8) : Memory := fun k => frame.getD k 0

/-- The length of a datagram and its header, as the header has it. -/
def udpLengthField (pkt : Memory) : Nat := ntohs (pkt.loadLe 38 2)

/-- A datagram that is not dropped for its length does not claim to be longer than
the part of the frame behind the IP header. -/
def LengthHonest (frame : List UInt8) : Prop :=
  IsUdp (frameMemory frame) frame.length → 42 ≤ frame.length →
    8 ≤ udpLengthField (frameMemory frame) → udpLengthField (frameMemory frame) ≤ 1544 →
      udpLengthField (frameMemory frame) + 34 ≤ frame.length

instance (frame : List UInt8) : Decidable (LengthHonest frame) :=
  inferInstanceAs (Decidable (_ → _))

/-- The bytes in the buffer of UDP, up to any bound, are those behind the header of
the datagram in the frame. -/
structure DeliveredFrom (frame : List UInt8) (s : Net) : Prop where
  length : s.udpLen ≤ frame.length - 34 - 8
  bytes : ∀ max, s.udpBuf.loadList 0 (min s.udpLen max) <+: frame.drop 42

/-- When `dispatch` delivers a datagram, the bytes lie within its frame. -/
def DeliversInside (frame : List UInt8) : Prop :=
  ∀ (env : Env) (poll : NetM Unit) (rounds slot : Nat) (s : Net),
    s.rx.slotAt slot = (slot, frame) → IsUdp (frameMemory frame) frame.length →
      s.udpGot = false →
        (outcome (dispatch env poll rounds slot (s.rx.len slot)) s).2.udpGot = true →
          DeliveredFrom frame (outcome (dispatch env poll rounds slot (s.rx.len slot)) s).2

variable {pkt : Memory} {len : Nat} {s : Net}

theorem frameMemory_loadList {k : Nat} (hk : k < len) :
    frameMemory (pkt.loadList 0 len) k = pkt k := by
  unfold frameMemory
  rw [List.getD_eq_getElem _ _ (by rwa [Memory.loadList_length])]
  simp [Memory.loadList]

theorem loadLe_frameMemory {addr count : Nat} (h : addr + count ≤ len) :
    (frameMemory (pkt.loadList 0 len)).loadLe addr count = pkt.loadLe addr count :=
  Memory.loadLe_congr fun _ _ hhigh => frameMemory_loadList (by omega)

/-- Whether a frame is a datagram shows in its bytes. -/
theorem isUdp_loadList : IsUdp (frameMemory (pkt.loadList 0 len)) len ↔ IsUdp pkt len := by
  unfold IsUdp
  by_cases hlen : 34 ≤ len
  · rw [loadLe_frameMemory (by omega), frameMemory_loadList (by omega)]
  · simp [hlen]

/-! ## Copying -/

/-- A datagram is copied. -/
def UdpTakes (payload : Memory) (len : Nat) (s : Net) : Prop :=
  8 ≤ len ∧ 8 ≤ ntohs (payload.loadLe 4 2) ∧ ntohs (payload.loadLe 4 2) ≤ 1544 ∧
    s.udpGot = false ∧ ntohs (payload.loadLe 2 2) = s.udpPort

/-- The state after the copy. -/
def udpTaken (payload : Memory) (s : Net) : Net :=
  { s with
    udpBuf := s.udpBuf.overwrite 0 (ntohs (payload.loadLe 4 2) - 8) (payload.window 8)
    udpLen := ntohs (payload.loadLe 4 2) - 8
    udpGot := true }

theorem udpProcess_takes {payload : Memory} (h : UdpTakes payload len s) :
    outcome (udpProcess payload len) s = (some (), udpTaken payload s) := by
  obtain ⟨hlen, hlow, hhigh, hgot, hport⟩ := h
  rw [udpProcess, if_neg (by omega)]
  dsimp only
  rw [if_neg (by omega), outcome_get_bind, if_pos ⟨by simp [hgot], hport⟩]
  rfl

theorem udpProcess_leaves {payload : Memory} (h : ¬UdpTakes payload len s) :
    outcome (udpProcess payload len) s = (some (), s) := by
  unfold udpProcess
  split
  next => rfl
  next hlen =>
    dsimp only
    split
    next => rfl
    next hfield =>
      rw [outcome_get_bind, if_neg]
      · rfl
      · rintro ⟨hgot, hport⟩
        exact h ⟨by omega, by omega, by omega, by simpa using hgot, hport⟩

theorem udpTaken_udpLen : (udpTaken (pkt.window 34) s).udpLen = udpLengthField pkt - 8 := by
  unfold udpTaken udpLengthField
  rw [Memory.loadLe_window]

/-- The copy lies within the frame when the header says no more than there is. -/
theorem udpTaken_inside (hfield : udpLengthField pkt + 34 ≤ len) :
    DeliveredFrom (pkt.loadList 0 len) (udpTaken (pkt.window 34) s) := by
  constructor
  · rw [udpTaken_udpLen, Memory.loadList_length]
    omega
  · intro max
    have hcopied : (udpTaken (pkt.window 34) s).udpBuf.loadList 0 (udpLengthField pkt - 8) =
        pkt.loadList 42 (udpLengthField pkt - 8) := by
      unfold udpTaken udpLengthField
      dsimp only
      rw [Memory.loadLe_window, Memory.loadList_overwrite_same, Memory.loadList_window,
        Memory.loadList_window]
    rw [udpTaken_udpLen, Nat.min_comm, ← Memory.loadList_take, hcopied, Memory.loadList_take,
      Memory.loadList_drop, Nat.zero_add]
    refine List.prefix_iff_eq_take.2 ?_
    rw [Memory.loadList_length, Memory.loadList_take]
    congr 1
    omega

theorem dispatch_udp {env : Env} {poll : NetM Unit} {rounds slot : Nat}
    (h : IsUdp (s.rx.buf slot) len) :
    outcome (dispatch env poll rounds slot len) s =
      outcome (udpProcess ((s.rx.buf slot).window 34) (len - 34)) s := by
  obtain ⟨htype, hlen, hproto⟩ := h
  rw [dispatch, if_neg (by omega), outcome_get_bind]
  dsimp only
  rw [htype, hproto, if_neg (by decide), if_neg (by simp [hlen]), if_neg (by decide),
    if_neg (by decide), if_pos rfl]

/-! ## One frame -/

theorem slotAt_eq {rx : RxRing} {slot : Nat} {frame : List UInt8}
    (h : rx.slotAt slot = (slot, frame)) :
    frame = (rx.buf slot).loadList 0 (rx.len slot) ∧ frame.length = rx.len slot := by
  obtain rfl : _ = frame := (Prod.mk.inj h).2
  exact ⟨rfl, Memory.loadList_length⟩

theorem LengthHonest.field_le (h : LengthHonest (pkt.loadList 0 len)) (hudp : IsUdp pkt len)
    (htakes : UdpTakes (pkt.window 34) (len - 34) s) : udpLengthField pkt + 34 ≤ len := by
  obtain ⟨hlen, hlow, hhigh, -⟩ := htakes
  rw [Memory.loadLe_window] at hlow hhigh
  unfold LengthHonest udpLengthField at h
  rw [Memory.loadList_length] at h
  have hbound := h (isUdp_loadList.2 hudp) (by omega)
  rw [loadLe_frameMemory (by omega)] at hbound
  exact hbound hlow hhigh

theorem deliversInside_of_honest {frame : List UInt8} (h : LengthHonest frame) :
    DeliversInside frame := by
  intro env poll rounds slot s hslot hudp hgot hgot'
  obtain ⟨hframe, hlen⟩ := slotAt_eq hslot
  rw [hframe, Memory.loadList_length, isUdp_loadList] at hudp
  rw [dispatch_udp hudp] at hgot' ⊢
  by_cases htakes : UdpTakes ((s.rx.buf slot).window 34) (s.rx.len slot - 34) s
  · rw [udpProcess_takes htakes, hframe]
    exact udpTaken_inside ((hframe ▸ h).field_le hudp htakes)
  · rw [udpProcess_leaves htakes, hgot] at hgot'
    cases hgot'

/-- A slot that holds the frame while its port is waited for. -/
def waitingNet (frame : List UInt8) : Net :=
  { startNet with
    rx := { startNet.rx with buf := fun _ => frameMemory frame, len := fun _ => frame.length }
    udpPort := ntohs ((frameMemory frame).loadLe 36 2) }

theorem loadList_frameMemory (frame : List UInt8) :
    (frameMemory frame).loadList 0 frame.length = frame := by
  apply List.ext_getElem (by simp)
  intro k hk hk'
  simp [Memory.loadList, frameMemory, hk']

/-- A datagram that claims to be longer than it is brings in bytes from behind it. -/
theorem honest_of_deliversInside {frame : List UInt8} (h : DeliversInside frame) :
    LengthHonest frame := by
  intro hudp hlen hlow hhigh
  obtain ⟨s, hbuf, hslot, hport, hgot⟩ : ∃ s : Net, s.rx.buf 0 = frameMemory frame ∧
      s.rx.len 0 = frame.length ∧ ntohs ((frameMemory frame).loadLe 36 2) = s.udpPort ∧
      s.udpGot = false := ⟨waitingNet frame, rfl, rfl, rfl, rfl⟩
  have htakes : UdpTakes ((frameMemory frame).window 34) (frame.length - 34) s := by
    refine ⟨by omega, ?_, ?_, hgot, ?_⟩
    · rwa [Memory.loadLe_window]
    · rwa [Memory.loadLe_window]
    · rwa [Memory.loadLe_window]
  have hdispatch : outcome (dispatch Env.quiet failure 0 0 (s.rx.len 0)) s =
      (some (), udpTaken ((frameMemory frame).window 34) s) := by
    rw [hslot, dispatch_udp (hbuf.symm ▸ hudp), hbuf, udpProcess_takes htakes]
  have hframe : s.rx.slotAt 0 = (0, frame) := by
    rw [RxRing.slotAt, hbuf, hslot, loadList_frameMemory]
  have hinside := h Env.quiet failure 0 0 s hframe hudp hgot (by rw [hdispatch]; rfl)
  rw [hdispatch] at hinside
  have hcopied := hinside.length
  rw [udpTaken_udpLen] at hcopied
  omega

/-! ## Polling -/

/-- What has been delivered and not been asked for is from a frame. -/
def UdpFrom (s : Net) : Prop :=
  s.udpGot = true → ∃ d ∈ s.rx.dispatched, DeliveredFrom d.2 s

/-- While the frames are honest, what is delivered is from one of them. -/
structure UdpKeeps (s s' : Net) : Prop where
  dispatched : s.rx.dispatched <+: s'.rx.dispatched
  delivered : (∀ d ∈ s'.rx.dispatched, LengthHonest d.2) → UdpFrom s → UdpFrom s'

instance : IsPreorder Net UdpKeeps where
  refl _ := ⟨List.prefix_refl _, fun _ h => h⟩
  trans _ _ _ h h' := ⟨h.dispatched.trans h'.dispatched, fun hhonest hfrom =>
    h'.delivered hhonest (h.delivered (fun d hd => hhonest d (h'.dispatched.subset hd)) hfrom)⟩

/-- A change that leaves the buffer of UDP alone. -/
theorem udpKeeps_of_eq {s' : Net} (hdispatched : s.rx.dispatched <+: s'.rx.dispatched)
    (hgot : s'.udpGot = s.udpGot) (hbuf : s'.udpBuf = s.udpBuf) (hlen : s'.udpLen = s.udpLen) :
    UdpKeeps s s' := by
  refine ⟨hdispatched, fun _ hfrom hgot' => ?_⟩
  obtain ⟨d, hd, hdelivered⟩ := hfrom (hgot ▸ hgot')
  refine ⟨d, hdispatched.subset hd, ?_, ?_⟩
  · rw [hlen]
    exact hdelivered.length
  · rw [hbuf, hlen]
    exact hdelivered.bytes

theorem PollStep.udpKeeps {s s' : Net} (h : PollStep s s') : UdpKeeps s s' := by
  cases h with
  | timer | alloc | arp | sendArp | sendIp | icmp | tcp | advance =>
      exact udpKeeps_of_eq (List.prefix_refl _) rfl rfl rfl
  | receive env =>
      refine udpKeeps_of_eq ?_ rfl rfl rfl
      exact (foldl_receive (env.frames s.polls) s.rx).2.2.1 ▸ List.prefix_refl _
  | noteDispatch => exact udpKeeps_of_eq (List.prefix_append _ _) rfl rfl rfl
  | @udp _ pkt len hnoted hudp =>
      by_cases htakes : UdpTakes (pkt.window 34) (len - 34) s
      · rw [udpProcess_takes htakes]
        refine ⟨List.prefix_refl _, fun hhonest _ _ => ?_⟩
        obtain ⟨slot, hslot⟩ := hnoted
        exact ⟨_, hslot, udpTaken_inside ((hhonest _ hslot).field_le hudp htakes)⟩
      · rw [udpProcess_leaves htakes]
        exact refl s

/-! ## Receiving -/

/-- What a round of `udp_recv` comes to. -/
theorem udpRecvRound_inv {env : Env} {poll : NetM Unit} {max deadline : Nat} {s' : Net}
    {r : Option (Option (List UInt8))}
    (h : outcome (udpRecvRound env poll max deadline) s = (some r, s')) :
    r = some none ∨ ∃ t, outcome poll { s with readings := s.readings + 1 } = (some (), t) ∧
      ((t.udpGot = true ∧ r = some (some (t.udpBuf.loadList 0 (min t.udpLen max))) ∧
          s' = { t with udpGot := false }) ∨
        (t.udpGot = false ∧ r = none ∧ s' = t)) := by
  rw [udpRecvRound, outcome_bind_some outcome_timerGetTicks] at h
  split at h
  next =>
    refine .inr ?_
    rcases hpoll : outcome poll { s with readings := s.readings + 1 } with ⟨_ | _, t⟩
    · rw [outcome_bind_none hpoll] at h
      cases h
    · refine ⟨t, rfl, ?_⟩
      rw [outcome_bind_some hpoll, outcome_get_bind] at h
      split at h
      next hgot =>
        cases h
        exact .inl ⟨hgot, rfl, rfl⟩
      next hgot =>
        cases h
        exact .inr ⟨by simpa using hgot, rfl, rfl⟩
  next =>
    cases h
    exact .inl rfl

theorem udpRecvLoop_delivers {env : Env} {poll : NetM Unit} {max deadline rounds : Nat}
    {bytes : List UInt8} {s' : Net} (hpoll : ∀ s, Within UdpKeeps s poll) (hgot : s.udpGot = false)
    (h : outcome (loop (udpRecvRound env poll max deadline) rounds) s =
      (some (some bytes), s')) (hhonest : ∀ d ∈ s'.rx.dispatched, LengthHonest d.2) :
    ∃ d ∈ s'.rx.dispatched, bytes <+: d.2.drop 42 := by
  induction rounds generalizing s with
  | zero => cases h
  | succ rounds ih =>
      rcases hround : outcome (udpRecvRound env poll max deadline) s with ⟨_ | r, t⟩
      · rw [loop, outcome_bind_none hround] at h
        cases h
      · obtain rfl | ⟨t', ht', hreturns | hagain⟩ := udpRecvRound_inv hround
        · rw [outcome_loop_done hround] at h
          cases h
        · obtain ⟨hgot', rfl, rfl⟩ := hreturns
          rw [outcome_loop_done hround] at h
          cases h
          have hkeeps : UdpKeeps { s with readings := s.readings + 1 } t' := by
            have hwithin := hpoll { s with readings := s.readings + 1 }
            rwa [Within, ht'] at hwithin
          have hnone : UdpFrom { s with readings := s.readings + 1 } := by
            intro htrue
            rw [hgot] at htrue
            cases htrue
          obtain ⟨d, hd, hdelivered⟩ := hkeeps.delivered hhonest hnone hgot'
          exact ⟨d, hd, hdelivered.bytes max⟩
        · obtain ⟨hgot', rfl, rfl⟩ := hagain
          rw [outcome_loop_again hround] at h
          exact ih hgot' h

/-- A datagram delivers bytes of its frame only, if and only if the length in its
header fits the frame or is one for which it is dropped. While all frames are such,
`udp_recv` returns bytes of one of them. -/
theorem udp_delivers_inside_iff (frame : List UInt8) :
    (DeliversInside frame ↔ LengthHonest frame) ∧
    ∀ (env : Env) (rounds depth port max : Nat) (s s' : Net) (bytes : List UInt8),
      outcome (udpRecv env (netPoll env rounds depth) rounds port max) s = (some (some bytes), s') →
        (∀ d ∈ s'.rx.dispatched, LengthHonest d.2) →
          ∃ d ∈ s'.rx.dispatched, bytes <+: d.2.drop 42 := by
  refine ⟨⟨honest_of_deliversInside, deliversInside_of_honest⟩, ?_⟩
  intro env rounds depth port max s s' bytes h hhonest
  have hpoll (s : Net) : Within UdpKeeps s (netPoll env rounds depth) :=
    (netPoll_polls env rounds depth s).rel PollStep.udpKeeps
  rw [udpRecv, outcome_modify_bind, outcome_bind_some outcome_deadlineIn] at h
  exact udpRecvLoop_delivers hpoll rfl h hhonest

/-- A frame with a datagram of three bytes for port 0xC000, whose header has this
length. -/
def datagramFrame (length : Nat) : Frame where
  bytes := (ipFrame gatewayMac macAddr gateway ourIp ipUdp
    ((udpDatagram 53 0xC000 (fun k => [1, 2, 3].getD k 0) 3).storeLe 4 2 (htons length))
    11).loadList 0 45
  fits := by simp

/-- The frame arrives at the first poll. -/
def datagramEnv : Env := { Env.quiet with
  frames := fun n => if n = 0 then [datagramFrame 11] else [] }

/-- The datagram as it should be, from the card to the caller. -/
theorem udp_delivers_inside_iff_three :
    (DeliversInside (datagramFrame 11).bytes ↔ LengthHonest (datagramFrame 11).bytes) ∧
    ∃ d ∈ (outcome (udpRecv datagramEnv (netPoll datagramEnv 2 1) 2 0xC000 512)
      startNet).2.rx.dispatched, [1, 2, 3] <+: d.2.drop 42 :=
  ⟨(udp_delivers_inside_iff _).1,
    (udp_delivers_inside_iff (datagramFrame 11).bytes).2 datagramEnv 2 1 0xC000 512 startNet _ _
      (Prod.ext (show _ = some (some [1, 2, 3]) by decide +kernel) rfl) (by decide +kernel)⟩

/-- A header that claims 20 bytes has nine bytes copied from behind the frame. -/
theorem long_datagram_overread :
    (datagramFrame 20).bytes.length = 45 ∧
    udpLengthField (frameMemory (datagramFrame 20).bytes) = 20 ∧
    ¬DeliversInside (datagramFrame 20).bytes :=
  ⟨by decide, by decide, fun h => absurd (honest_of_deliversInside h) (by decide)⟩

end Dosfs
