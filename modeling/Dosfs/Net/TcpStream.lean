import Dosfs.Net.Emission
import Dosfs.Net.TcpAnswers
import Dosfs.Net.TcpBuffer

/-!
# The byte stream of a connection

A connection appends the data of each segment in the order of arrival and
acknowledges it whether there was room for it or not. So what it returns is the
stream of its peer as long as each segment that it stores is the next one, and
what it acknowledges is what it has stored as long as every segment fits.
-/

namespace Dosfs

open Foundation Fuelled

/-! ## Segments of the peer -/

namespace Arrival

/-- There is data, and room for it in the buffer. -/
def Kept (a : Arrival) : Prop := 0 < a.data.length ∧ a.before + a.data.length < 8192

instance (a : Arrival) : Decidable a.Kept := inferInstanceAs (Decidable (_ ∧ _))

/-- The segment is a piece of the stream, at an offset that its number tells. -/
def CutAt (isn : Nat) (stream : List UInt8) (offset : Nat) (a : Arrival) : Prop :=
  a.seqNum = (isn + 1 + offset) % 2 ^ 32 ∧ a.data <+: stream.drop offset

instance {isn offset : Nat} {stream : List UInt8} (a : Arrival) :
    Decidable (a.CutAt isn stream offset) :=
  inferInstanceAs (Decidable (_ ∧ _))

end Arrival

/-- The segments follow one another, the first with number `next`, and nothing
follows a FIN. -/
def InOrder (next : Nat) : List Arrival → Prop
  | [] => True
  | a :: as =>
      a.seqNum = next % 2 ^ 32 ∧ (a.fin = true → as = []) ∧ InOrder (next + a.data.length) as

instance decidableInOrder : (next : Nat) → (as : List Arrival) → Decidable (InOrder next as)
  | _, [] => isTrue trivial
  | next, a :: as =>
      haveI := decidableInOrder (next + a.data.length) as
      inferInstanceAs (Decidable (_ ∧ _ ∧ _))

/-- The number of bytes in the segments. -/
def dataLength (as : List Arrival) : Nat := (as.map (·.data.length)).sum

theorem dataLength_concat (as : List Arrival) (a : Arrival) :
    dataLength (as ++ [a]) = dataLength as + a.data.length := by
  simp [dataLength]

/-- A segment that is next in order comes after all others, and none of them
has a FIN. -/
theorem inOrder_append_singleton {next : Nat} {as : List Arrival} {a : Arrival}
    (h : InOrder next (as ++ [a])) :
    InOrder next as ∧ as.any (·.fin) = false ∧ a.seqNum = (next + dataLength as) % 2 ^ 32 := by
  induction as generalizing next with
  | nil => exact ⟨trivial, rfl, h.1⟩
  | cons b as ih =>
      obtain ⟨hnum, hfin, hrest⟩ := h
      obtain ⟨horder, hnone, hlast⟩ := ih hrest
      have hb : b.fin = false := by
        by_contra hb
        have hnil := hfin (Bool.not_eq_false _ ▸ hb)
        simp at hnil
      refine ⟨⟨hnum, fun htrue => ?_, horder⟩, ?_, ?_⟩
      · rw [hb] at htrue
        cases htrue
      · rw [List.any_cons, hb, hnone, Bool.or_false]
      · rw [hlast, dataLength, dataLength, List.map_cons, List.sum_cons, Nat.add_assoc]

/-! ## Records and buffer -/

/-- The record of a connection agrees with its buffer. -/
structure TalkInv (t : TcpState) : Prop where
  safe : BufferSafe t
  fresh : t.state = .synSent → t.rxLen = 0 ∧ t.talk.arrived = [] ∧ t.talk.acks = []
  returned : t.talk.returned = t.rxBuf.loadList 0 t.rxRead

namespace TalkInv

variable {t t' : TcpState} {segment : Memory} {len : Nat}

theorem accept (h : TalkInv t) (hlen : 20 ≤ len) (hstate : t.state = .established) :
    TalkInv (t.accept segment len) := by
  refine ⟨h.safe.accept hlen, fun hsyn => ?_, ?_⟩
  · rw [(t.accept_frame segment len).1, hstate] at hsyn
    cases hsyn
  · have hrx : t.rxLen < 8192 := Nat.lt_succ_of_le h.safe.len_le
    by_cases hinc : (tcpHeader segment).increment len = 0
    · rw [TcpState.accept_of_nothing hinc]
      exact h.returned
    · by_cases hfits : 0 < (tcpHeader segment).dataLen len ∧
          t.rxLen + (tcpHeader segment).dataLen len < 8192
      · rw [TcpState.accept_of_fits hfits.1 hfits.2]
        have hread := h.safe.read_le
        exact h.returned.trans (Memory.loadList_overwrite_of_disjoint (by omega)).symm
      · rw [TcpState.accept_of_not_fits hrx hinc hfits]
        exact h.returned

theorem step (hstep : TcpStep t t') (h : TalkInv t) : TalkInv t' := by
  have hsafe := h.safe.step hstep
  cases hstep with
  | accept segment len hlen hstate => exact h.accept hlen hstate
  | deliver n hn =>
      refine ⟨hsafe, h.fresh, ?_⟩
      change t.talk.returned ++ t.rxBuf.loadList t.rxRead n = t.rxBuf.loadList 0 (t.rxRead + n)
      rw [h.returned, Memory.loadList_add, Nat.zero_add]
  | start sport dport => exact ⟨hsafe, fun _ => ⟨rfl, rfl, rfl⟩, rfl⟩
  | noteAck flags data dlen hstate =>
      unfold TcpState.noteAck at hsafe ⊢
      split
      next hack =>
        rw [if_pos hack] at hsafe
        refine ⟨hsafe, fun hsyn => ?_, h.returned⟩
        rcases hstate hack with hest | hfin
        · exact absurd (hest.symm.trans hsyn) (by decide)
        · exact absurd (hfin.symm.trans hsyn) (by decide)
      next => exact h
  | establish => exact ⟨hsafe, nofun, h.returned⟩
  | sent => exact ⟨hsafe, h.fresh, h.returned⟩
  | closed | closing => exact ⟨hsafe, nofun, h.returned⟩

theorem start : TalkInv startNet.ts where
  safe := bufferSafe_start
  fresh hsyn := absurd hsyn (by decide)
  returned := rfl

end TalkInv

/-! ## A peer -/

/-- The gateway asks for our hardware address. -/
def arpRequestFrame : Frame where
  bytes := (arpPacket broadcastMac 1 gatewayMac gateway zeroMac ourIp).loadList 0 42
  fits := by simp

/-- A segment from a server on the gateway to our first port. -/
def peerFrame (seqNum : Nat) (flags : UInt8) (data : List UInt8) (hdata : data.length ≤ 1446) :
    Frame where
  bytes :=
    let segment := tcpSegment 80 0xC000 seqNum 0x1001 flags (fun k => data.getD k 0) data.length
    let checksum := tcpChecksum gateway ourIp segment (20 + data.length)
    (ipFrame gatewayMac macAddr gateway ourIp ipTcp (segment.storeLe 16 2 checksum)
      (20 + data.length)).loadList 0 (54 + data.length)
  fits := by
    rw [Memory.loadList_length]
    omega

/-- The gateway introduces itself and its server answers our SYN. After that the
card delivers these frames, one batch each time it is polled. -/
def peerEnv (batches : List (List Frame)) : Env where
  frames n := ([arpRequestFrame] :: [peerFrame 0x5000 0x12 [] (by decide)] :: batches).getD n []
  ticks n := n
  kmalloc _ := true
  garbage _ := 0

def gatewayHost : CString := CString.ofBuffer [0x31, 0x30, 0x2E, 0x30, 0x2E, 0x32, 0x2E, 0x32]

/-- Two segments with a byte each, in order. -/
def orderedEnv : Env :=
  peerEnv [[peerFrame 0x5001 0x18 [1] (by decide)], [peerFrame 0x5002 0x18 [2] (by decide)]]

/-- The same segments the other way round. -/
def swappedEnv : Env :=
  peerEnv [[peerFrame 0x5002 0x18 [2] (by decide)], [peerFrame 0x5001 0x18 [1] (by decide)]]

/-- Six full segments in order. -/
def longEnv : Env :=
  peerEnv [(List.range 6).map fun k =>
    peerFrame (0x5001 + k * 1446) 0x18 (List.replicate 1446 0) List.length_replicate.le]

def recvCalls : List NetOp := [.poll, .connect gatewayHost 80, .recv 16, .recv 16]

/-! ## The stream that is returned -/

/-- The buffer holds a prefix of the stream, as long as every segment that was
stored came in its place. -/
def StreamInv (stream : List UInt8) (t : TcpState) : Prop :=
  (∀ a ∈ t.talk.arrived,
      ∃ offset, a.CutAt t.talk.isn stream offset ∧ (a.Kept → offset = a.before)) →
    t.rxBuf.loadList 0 t.rxLen <+: stream

theorem prefix_append_of_prefix_drop {stream front next : List UInt8} (hfront : front <+: stream)
    (hnext : next <+: stream.drop front.length) : front ++ next <+: stream := by
  obtain ⟨rest, rfl⟩ := hfront
  rw [List.drop_left] at hnext
  exact (List.prefix_append_right_inj front).2 hnext

namespace StreamInv

variable {stream : List UInt8} {t t' : TcpState} {segment : Memory} {len : Nat}

theorem accept (h : StreamInv stream t) (hinv : TalkInv t) :
    StreamInv stream (t.accept segment len) := by
  have hrx : t.rxLen < 8192 := Nat.lt_succ_of_le hinv.safe.len_le
  by_cases hinc : (tcpHeader segment).increment len = 0
  · rwa [TcpState.accept_of_nothing hinc]
  · by_cases hfits : 0 < (tcpHeader segment).dataLen len ∧
        t.rxLen + (tcpHeader segment).dataLen len < 8192
    · rw [TcpState.accept_of_fits hfits.1 hfits.2]
      intro hplace
      have hfront : t.rxBuf.loadList 0 t.rxLen <+: stream :=
        h fun a ha => hplace a (List.mem_append_left _ ha)
      obtain ⟨offset, ⟨-, hcut⟩, hkept⟩ :=
        hplace _ (List.mem_append_right _ (List.mem_singleton_self _))
      have hoffset : offset = t.rxLen :=
        hkept (by simpa [Arrival.Kept, TcpState.arrival] using hfits)
      subst hoffset
      change Memory.loadList _ 0 (t.rxLen + (tcpHeader segment).dataLen len) <+: stream
      rw [Memory.loadList_add, Nat.zero_add, Memory.loadList_overwrite_same,
        Memory.loadList_overwrite_of_disjoint (by omega), Memory.loadList_window, Nat.add_zero]
      exact prefix_append_of_prefix_drop hfront (by rwa [Memory.loadList_length])
    · rw [TcpState.accept_of_not_fits hrx hinc hfits]
      exact fun hplace => h fun a ha => hplace a (List.mem_append_left _ ha)

theorem step (hstep : TcpStep t t') (hinv : TalkInv t) (h : StreamInv stream t) :
    StreamInv stream t' := by
  cases hstep with
  | accept segment len _ _ => exact h.accept hinv
  | establish seqNum hstate =>
      intro _
      change t.rxBuf.loadList 0 t.rxLen <+: stream
      rw [(hinv.fresh hstate).1]
      exact List.nil_prefix
  | start => exact fun _ => List.nil_prefix
  | noteAck flags data dlen _ =>
      unfold TcpState.noteAck
      split
      next => exact h
      next => exact h
  | sent | closed | closing | deliver => exact h

end StreamInv

/-- If every segment of the peer that a connection stores is the one that
follows what it stored before, then what the connection returns is a prefix of the
stream, and so is what the calls of `tcp_recv` have answered. -/
theorem tcp_returns_prefix (env : Env) (rounds depth : Nat) (ops : List NetOp)
    (stream : List UInt8)
    (hplace : ∀ a ∈ (connectionAfter env rounds depth ops).talk.arrived,
      ∃ offset, a.CutAt (connectionAfter env rounds depth ops).talk.isn stream offset ∧
        (a.Kept → offset = a.before)) :
    (connectionAfter env rounds depth ops).talk.returned <+: stream ∧
      ∀ answers, (outcome (performAll env rounds depth ops) startNet).1 = some answers →
        received ops answers <+: stream := by
  have hinv : TalkInv (connectionAfter env rounds depth ops) ∧
      StreamInv stream (connectionAfter env rounds depth ops) :=
    connectionAfter_inv (I := fun t => TalkInv t ∧ StreamInv stream t)
      (fun t t' hstep h => ⟨h.1.step hstep, h.2.step hstep h.1⟩)
      ⟨TalkInv.start, fun _ => List.nil_prefix⟩
  have hread := hinv.1.safe.read_le
  have hreturned : (connectionAfter env rounds depth ops).talk.returned <+: stream := by
    rw [hinv.1.returned]
    refine List.IsPrefix.trans ?_ (hinv.2 hplace)
    rw [← Nat.min_eq_left hread, ← Memory.loadList_take]
    exact List.take_prefix _ _
  exact ⟨hreturned, fun _ hanswers => performAll_received ops hanswers ▸ hreturned⟩

theorem tcp_returns_prefix_ordered :
    (connectionAfter orderedEnv 5 1 recvCalls).talk.returned <+: [1, 2, 3] ∧
      ∀ answers, (outcome (performAll orderedEnv 5 1 recvCalls) startNet).1 = some answers →
        received recvCalls answers <+: [1, 2, 3] := by
  have hcut : ∀ a ∈ (connectionAfter orderedEnv 5 1 recvCalls).talk.arrived,
      a.CutAt (connectionAfter orderedEnv 5 1 recvCalls).talk.isn [1, 2, 3] a.before := by
    decide +kernel
  exact tcp_returns_prefix orderedEnv 5 1 recvCalls [1, 2, 3]
    fun a ha => ⟨a.before, hcut a ha, fun _ => rfl⟩

/-- A segment that overtakes another is returned first. -/
theorem overtaking_segment_returned :
    (∀ a ∈ (connectionAfter swappedEnv 5 1 recvCalls).talk.arrived, ∃ offset,
      a.CutAt (connectionAfter swappedEnv 5 1 recvCalls).talk.isn [1, 2] offset) ∧
    ¬(connectionAfter swappedEnv 5 1 recvCalls).talk.returned <+: [1, 2] := by
  have hcut : ∀ a ∈ (connectionAfter swappedEnv 5 1 recvCalls).talk.arrived,
      a.CutAt (connectionAfter swappedEnv 5 1 recvCalls).talk.isn [1, 2] (a.seqNum - 0x5001) := by
    decide +kernel
  exact ⟨fun a ha => ⟨_, hcut a ha⟩, by decide +kernel⟩

/-! ## The numbers that are acknowledged -/

/-- The segments came in order, and there was room for every one of them. -/
def Orderly (t : TcpState) : Prop :=
  InOrder (t.talk.isn + 1) t.talk.arrived ∧
    ∀ a ∈ t.talk.arrived, a.before + a.data.length < 8192

/-- The number after the peer's SYN, the bytes that were kept and its FIN. -/
def expectedAck (isn kept : Nat) (fin : Bool) : Nat :=
  (isn + 1 + kept + if fin then 1 else 0) % 2 ^ 32

/-- What an orderly connection acknowledges is what it has kept. -/
structure AckInv (t : TcpState) : Prop where
  kept : Orderly t → t.rxLen = dataLength t.talk.arrived
  number : t.state = .established ∨ t.state = .finWait → Orderly t →
    t.ack = expectedAck t.talk.isn t.rxLen (t.talk.arrived.any (·.fin))
  acks : Orderly t → ∀ ack ∈ t.talk.acks, ack.number = expectedAck t.talk.isn ack.kept ack.fin

namespace AckInv

variable {t t' : TcpState} {segment : Memory} {len : Nat}

/-- The record and the numbers after a segment with data or a FIN. -/
theorem accept_record (hrx : t.rxLen < 8192) (hinc : (tcpHeader segment).increment len ≠ 0) :
    (t.accept segment len).talk =
        { t.talk with arrived := t.talk.arrived ++ [t.arrival segment len] } ∧
      (t.accept segment len).ack =
        ((tcpHeader segment).seqNum + (tcpHeader segment).increment len) % 2 ^ 32 ∧
      (t.rxLen + (tcpHeader segment).dataLen len < 8192 →
        (t.accept segment len).rxLen = t.rxLen + (tcpHeader segment).dataLen len) := by
  by_cases hfits : 0 < (tcpHeader segment).dataLen len ∧
      t.rxLen + (tcpHeader segment).dataLen len < 8192
  · rw [TcpState.accept_of_fits hfits.1 hfits.2]
    exact ⟨rfl, rfl, fun _ => rfl⟩
  · rw [TcpState.accept_of_not_fits hrx hinc hfits]
    refine ⟨rfl, rfl, fun hroom => ?_⟩
    have hnone : (tcpHeader segment).dataLen len = 0 := by omega
    change t.rxLen = _
    rw [hnone, Nat.add_zero]

/-- What an orderly connection after a segment says about the one before. -/
theorem accept_orderly (h : AckInv t) (hrx : t.rxLen < 8192)
    (hinc : (tcpHeader segment).increment len ≠ 0) (horder : Orderly (t.accept segment len)) :
    Orderly t ∧ t.talk.arrived.any (·.fin) = false ∧
      (t.arrival segment len).seqNum = (t.talk.isn + 1 + t.rxLen) % 2 ^ 32 ∧
      (t.accept segment len).rxLen = t.rxLen + (t.arrival segment len).data.length := by
  obtain ⟨htalk, -, hroom⟩ := accept_record hrx hinc
  have hdata : (t.arrival segment len).data.length = (tcpHeader segment).dataLen len :=
    Memory.loadList_length
  obtain ⟨hseq, hfit⟩ := horder
  rw [htalk] at hseq hfit
  obtain ⟨hseq, hfin, hnum⟩ := inOrder_append_singleton hseq
  have hold : Orderly t := ⟨hseq, fun a ha => hfit a (List.mem_append_left _ ha)⟩
  have hnew := hfit _ (List.mem_append_right _ (List.mem_singleton_self _))
  rw [← h.kept hold] at hnum
  rw [← hdata] at hroom
  exact ⟨hold, hfin, hnum, hroom hnew⟩

theorem accept (h : AckInv t) (hinv : TalkInv t) : AckInv (t.accept segment len) := by
  have hrx : t.rxLen < 8192 := Nat.lt_succ_of_le hinv.safe.len_le
  by_cases hinc : (tcpHeader segment).increment len = 0
  · rwa [TcpState.accept_of_nothing hinc]
  · obtain ⟨htalk, hack, -⟩ := accept_record hrx hinc
    constructor
    · intro horder
      obtain ⟨hold, -, -, hlen⟩ := h.accept_orderly hrx hinc horder
      rw [hlen, htalk, dataLength_concat, h.kept hold]
    · intro _ horder
      obtain ⟨-, hfin, hnum, hlen⟩ := h.accept_orderly hrx hinc horder
      have hend : (t.arrival segment len).seqNum + (tcpHeader segment).increment len =
          (t.arrival segment len).seqNum + ((t.arrival segment len).data.length +
            if (t.arrival segment len).fin then 1 else 0) := by
        rw [show (t.arrival segment len).data.length = (tcpHeader segment).dataLen len from
          Memory.loadList_length]
        rfl
      rw [hack, hlen, htalk, List.any_append, hfin, Bool.false_or, expectedAck]
      change ((t.arrival segment len).seqNum + _) % 2 ^ 32 = _
      rw [hend, hnum, Nat.mod_add_mod]
      simp [Nat.add_assoc]
    · intro horder ack hmem
      obtain ⟨hold, -, -, -⟩ := h.accept_orderly hrx hinc horder
      rw [htalk] at hmem ⊢
      exact h.acks hold ack hmem

theorem step (hstep : TcpStep t t') (hinv : TalkInv t) (h : AckInv t) : AckInv t' := by
  cases hstep with
  | accept segment len _ _ => exact h.accept hinv
  | establish seqNum hstate =>
      obtain ⟨hlen, harrived, hacks⟩ := hinv.fresh hstate
      constructor
      · intro _
        change t.rxLen = dataLength t.talk.arrived
        rw [hlen, harrived]
        rfl
      · intro _ _
        change (seqNum + 1) % 2 ^ 32 = expectedAck seqNum t.rxLen (t.talk.arrived.any (·.fin))
        rw [hlen, harrived]
        rfl
      · intro _ ack hack
        change ack ∈ t.talk.acks at hack
        rw [hacks] at hack
        exact absurd hack List.not_mem_nil
  | start => exact ⟨fun _ => rfl, nofun, fun _ _ hack => absurd hack List.not_mem_nil⟩
  | noteAck flags data dlen hstate =>
      unfold TcpState.noteAck
      split
      next hack =>
        refine ⟨h.kept, h.number, fun horder ack hmem => ?_⟩
        rcases List.mem_append.1 hmem with hold | hnew
        · exact h.acks horder ack hold
        · rw [List.mem_singleton.1 hnew]
          change ackNum _ = _
          rw [tcpSegment_ackNum, h.number (hstate hack) horder]
          exact Nat.mod_mod _ _
      next => exact h
  | sent | deliver => exact ⟨h.kept, h.number, h.acks⟩
  | closed | closing => exact ⟨h.kept, nofun, h.acks⟩

end AckInv

/-- A segment with the ACK flag, sent from this state, puts an acknowledgement on record; if the
next hop resolves, it goes out in one frame, which carries the number on record. -/
def CarriesNoted (env : Env) (rounds depth : Nat) (s : Net) : Prop :=
  ∀ flags data dlen mac s₁, hasFlag flags tcpFlagAck → 20 + dlen ≤ 1466 →
    Resolves env rounds depth s.tcpDstIp (segmentBuilt s flags data dlen) mac s₁ →
    ∃ ack frame,
      (segmentBuilt s flags data dlen).ts.talk.acks = s.ts.talk.acks ++ [ack] ∧
      (outcome (tcpSendSeg env (netPoll env rounds depth) rounds flags data dlen) s).2.sent =
        s₁.sent ++ [frame] ∧
      ackNum (segmentOf frame) = ack.number

/-- If the segments of the peer arrive in order and every one of them fits the
buffer, then every acknowledgement number is that of the bytes kept; and the frames that
go out carry the numbers on record. -/
theorem tcp_acks_what_it_keeps (env : Env) (rounds depth : Nat) (ops : List NetOp)
    (hseq : InOrder ((connectionAfter env rounds depth ops).talk.isn + 1)
      (connectionAfter env rounds depth ops).talk.arrived)
    (hfit : ∀ a ∈ (connectionAfter env rounds depth ops).talk.arrived,
      a.before + a.data.length < 8192) :
    (∀ ack ∈ (connectionAfter env rounds depth ops).talk.acks,
      ack.number =
        expectedAck (connectionAfter env rounds depth ops).talk.isn ack.kept ack.fin) ∧
      ∀ s, CarriesNoted env rounds depth s := by
  have hinv : TalkInv (connectionAfter env rounds depth ops) ∧
      AckInv (connectionAfter env rounds depth ops) :=
    connectionAfter_inv (I := fun t => TalkInv t ∧ AckInv t)
      (fun t t' hstep h => ⟨h.1.step hstep, h.2.step hstep h.1⟩)
      ⟨TalkInv.start, fun _ => rfl, nofun, fun _ _ hack => absurd hack List.not_mem_nil⟩
  have hpoll := netPoll_within KeepsPeer.closed env rounds depth
  exact ⟨hinv.2.acks ⟨hseq, hfit⟩, fun _ _ _ _ _ _ hack hlen harp =>
    tcpSendSeg_acknowledges hpoll hlen hack harp⟩

theorem tcp_acks_what_it_keeps_ordered :
    (connectionAfter orderedEnv 5 1 recvCalls).talk.acks ≠ [] ∧
    (∀ ack ∈ (connectionAfter orderedEnv 5 1 recvCalls).talk.acks,
      ack.number =
        expectedAck (connectionAfter orderedEnv 5 1 recvCalls).talk.isn ack.kept ack.fin) ∧
    ∀ s, CarriesNoted orderedEnv 5 1 s :=
  ⟨by decide +kernel,
    tcp_acks_what_it_keeps orderedEnv 5 1 recvCalls (by decide +kernel) (by decide +kernel)⟩

/-- The sixth of six full segments is dropped and acknowledged. -/
theorem dropped_segment_acknowledged :
    InOrder ((connectionAfter longEnv 8 1 [.poll, .connect gatewayHost 80, .poll]).talk.isn + 1)
      (connectionAfter longEnv 8 1 [.poll, .connect gatewayHost 80, .poll]).talk.arrived ∧
    ∃ ack ∈ (connectionAfter longEnv 8 1 [.poll, .connect gatewayHost 80, .poll]).talk.acks,
      ack.number ≠ expectedAck
        (connectionAfter longEnv 8 1 [.poll, .connect gatewayHost 80, .poll]).talk.isn
        ack.kept ack.fin := by
  constructor
  · decide +kernel
  · decide +kernel

end Dosfs
