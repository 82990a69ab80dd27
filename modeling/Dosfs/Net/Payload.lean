import Dosfs.Net.TcpBuffer

/-!
# What the handlers are given

`dispatch` takes the header of an IP packet to have 20 bytes and its payload to
reach to the end of the frame. Neither the length of the header nor that of the
packet is read, so options are taken for payload, and so is padding.
-/

namespace Dosfs

open Foundation Fuelled

/-! ## IP packets -/

/-- The length of the header in words. -/
def ihl (pkt : Memory) : Nat := (pkt 14 &&& 0xF).toNat

/-- The length of the packet with its header. -/
def totalLen (pkt : Memory) : Nat := ntohs (pkt.loadLe 16 2)

/-- A frame of `len` bytes carries a well-formed IPv4 packet, perhaps with
padding behind it. -/
structure IpPacket (pkt : Memory) (len : Nat) : Prop where
  ethertype : ntohs (pkt.loadLe 12 2) = ethTypeIp
  version : pkt 14 >>> 4 = 4
  header : 5 ≤ ihl pkt
  payload : 4 * ihl pkt ≤ totalLen pkt
  fits : totalLen pkt + 14 ≤ len

instance (pkt : Memory) (len : Nat) : Decidable (IpPacket pkt len) :=
  decidable_of_iff (ntohs (pkt.loadLe 12 2) = ethTypeIp ∧ pkt 14 >>> 4 = 4 ∧ 5 ≤ ihl pkt ∧
      4 * ihl pkt ≤ totalLen pkt ∧ totalLen pkt + 14 ≤ len)
    ⟨fun ⟨h₁, h₂, h₃, h₄, h₅⟩ => ⟨h₁, h₂, h₃, h₄, h₅⟩,
      fun ⟨h₁, h₂, h₃, h₄, h₅⟩ => ⟨h₁, h₂, h₃, h₄, h₅⟩⟩

/-! ## Calls of handlers -/

inductive Transport
  | icmp
  | tcp
  | udp
  deriving DecidableEq

/-- The protocol that a packet names. -/
def transport (proto : UInt8) : Option Transport :=
  if proto = ipIcmp then some .icmp
  else if proto = ipTcp then some .tcp
  else if proto = ipUdp then some .udp
  else none

/-- A handler, the place of the payload in the frame, and its length. -/
structure HandlerCall where
  handler : Transport
  offset : Nat
  length : Nat
  deriving DecidableEq

/-- The call that the header of the packet asks for. -/
def payloadCall (handler : Transport) (pkt : Memory) : HandlerCall :=
  ⟨handler, 14 + 4 * ihl pkt, totalLen pkt - 4 * ihl pkt⟩

/-- The call that `dispatch` makes. -/
def dispatchCall (handler : Transport) (len : Nat) : HandlerCall := ⟨handler, 34, len - 34⟩

/-- Run the handler on a slot of the ring. -/
def HandlerCall.run (call : HandlerCall) (env : Env) (poll : NetM Unit) (rounds slot : Nat) :
    NetM Unit :=
  match call.handler with
  | .icmp =>
      icmpProcess env poll rounds (fun s => (s.rx.buf slot).window call.offset) call.length
        (fun s => Ip.load (s.rx.buf slot) 26)
  | .tcp => tcpProcess env poll rounds (fun s => (s.rx.buf slot).window call.offset) call.length
  | .udp => do
      let s ← get
      udpProcess ((s.rx.buf slot).window call.offset) call.length

section

variable {env : Env} {poll : NetM Unit} {rounds slot len : Nat} {s : Net} {handler : Transport}

theorem IpPacket.le_len (h : IpPacket (s.rx.buf slot) len) : 34 ≤ len := by
  have hheader := h.header
  have hpayload := h.payload
  have hfits := h.fits
  omega

theorem transport_cases {proto : UInt8} (h : transport proto = some handler) :
    handler = .icmp ∧ proto = ipIcmp ∨ handler = .tcp ∧ proto = ipTcp ∨
      handler = .udp ∧ proto = ipUdp := by
  unfold transport at h
  split at h
  next hicmp => exact Or.inl ⟨(Option.some.inj h).symm, hicmp⟩
  next =>
    split at h
    next htcp => exact Or.inr (Or.inl ⟨(Option.some.inj h).symm, htcp⟩)
    next =>
      split at h
      next hudp => exact Or.inr (Or.inr ⟨(Option.some.inj h).symm, hudp⟩)
      next => cases h

/-- On an IP packet `dispatch` does what its call does. -/
theorem outcome_dispatch (h : IpPacket (s.rx.buf slot) len)
    (hproto : transport (s.rx.buf slot 23) = some handler) :
    outcome (dispatch env poll rounds slot len) s =
      outcome ((dispatchCall handler len).run env poll rounds slot) s := by
  have hlen := h.le_len
  rw [dispatch, if_neg (by omega), outcome_get_bind]
  dsimp only
  rw [h.ethertype, if_neg (by decide), if_neg (by simp [hlen])]
  rcases transport_cases hproto with ⟨rfl, hicmp⟩ | ⟨rfl, htcp⟩ | ⟨rfl, hudp⟩
  · rw [if_pos hicmp]
    rfl
  · rw [htcp, if_neg (by decide), if_pos rfl]
    rfl
  · rw [hudp, if_neg (by decide), if_neg (by decide), if_pos rfl]
    change _ = outcome (get >>= fun s => udpProcess ((s.rx.buf slot).window 34) (len - 34)) s
    rw [outcome_get_bind]

/-- The call is the right one for packets without options in frames without
padding. -/
theorem dispatchCall_eq_iff {pkt : Memory} (h : IpPacket pkt len) :
    dispatchCall handler len = payloadCall handler pkt ↔
      ihl pkt = 5 ∧ totalLen pkt = len - 14 := by
  obtain ⟨-, -, hheader, hpayload, hfits⟩ := h
  simp only [dispatchCall, payloadCall, HandlerCall.mk.injEq, true_and]
  omega

end

/-- A handler gets exactly the payload of an IP packet, which starts behind the
header and ends with the packet, if and only if the header has no options and
the frame has no padding. -/
theorem dispatch_payload_iff {s : Net} {slot len : Nat} {handler : Transport}
    (h : IpPacket (s.rx.buf slot) len) (hproto : transport (s.rx.buf slot 23) = some handler) :
    (∀ env poll rounds, outcome (dispatch env poll rounds slot len) s =
      outcome ((dispatchCall handler len).run env poll rounds slot) s) ∧
    (dispatchCall handler len = payloadCall handler (s.rx.buf slot) ↔
      ihl (s.rx.buf slot) = 5 ∧ totalLen (s.rx.buf slot) = len - 14) :=
  ⟨fun _ _ _ => outcome_dispatch h hproto, dispatchCall_eq_iff h⟩

/-! ## Padding -/

/-- Data for which there is room makes the buffer longer. -/
theorem accept_rxLen {t : TcpState} {segment : Memory} {len : Nat}
    (hroom : t.rxLen + (tcpHeader segment).dataLen len < 8192) :
    (t.accept segment len).rxLen = t.rxLen + (tcpHeader segment).dataLen len := by
  have hsum : (t.rxLen + (tcpHeader segment).dataLen len) % 2 ^ 32 =
      t.rxLen + (tcpHeader segment).dataLen len := Nat.mod_eq_of_lt (by omega)
  have hkeep : (t.keep segment (tcpHeader segment).dataOff
      ((tcpHeader segment).dataLen len) len).rxLen =
      t.rxLen + (tcpHeader segment).dataLen len := by
    unfold TcpState.keep
    rw [hsum]
    split
    next => rfl
    next => omega
  rw [← hkeep]
  exact (TcpState.acknowledge_frame _ _ _ _).2.2.1

/-- Padding behind a segment is appended to the stream. -/
theorem accept_rxLen_padded {t : TcpState} {segment : Memory} {len pad : Nat}
    (hoff : (tcpHeader segment).dataOff ≤ len) (hlen : len + pad < 2 ^ 16)
    (hroom : t.rxLen + (len + pad - (tcpHeader segment).dataOff) < 8192) :
    (t.accept segment (len + pad)).rxLen = (t.accept segment len).rxLen + pad := by
  have hdata (n : Nat) (hn : n < 2 ^ 16) (hle : (tcpHeader segment).dataOff ≤ n) :
      (tcpHeader segment).dataLen n = n - (tcpHeader segment).dataOff := by
    unfold TcpHeader.dataLen
    omega
  have hlong := hdata (len + pad) hlen (by omega)
  have hshort := hdata len (by omega) hoff
  rw [accept_rxLen (by omega), accept_rxLen (by omega), hlong, hshort]
  omega

/-- An acknowledgement of 40 bytes in a frame of Ethernet's minimum length. -/
def paddedAck : Memory :=
  (ipFrame ⟨0x52, 0x55, 0x0A, 0x00, 0x02, 0x02⟩ macAddr gateway ourIp ipTcp
    (tcpSegment 80 0xC000 1 0x1001 tcpFlagAck (fun _ => 0) 0) 20)

/-- A slot that holds it. -/
def ackNet : Net := { startNet with rx := { startNet.rx with buf := fun _ => paddedAck } }

/-- The same packet without the padding. -/
theorem dispatch_payload_iff_unpadded :
    (∀ env poll rounds, outcome (dispatch env poll rounds 0 54) ackNet =
      outcome ((dispatchCall .tcp 54).run env poll rounds 0) ackNet) ∧
    (dispatchCall .tcp 54 = payloadCall .tcp (ackNet.rx.buf 0) ↔
      ihl (ackNet.rx.buf 0) = 5 ∧ totalLen (ackNet.rx.buf 0) = 54 - 14) :=
  dispatch_payload_iff (show IpPacket (ackNet.rx.buf 0) 54 by decide)
    (show transport (ackNet.rx.buf 0 23) = some .tcp by decide)

/-- The six bytes of padding behind an acknowledgement are handed to TCP, and a
connection takes them for data. -/
theorem padded_ack_extends_stream :
    IpPacket paddedAck 60 ∧ transport (paddedAck 23) = some .tcp ∧
    dispatchCall .tcp 60 = ⟨.tcp, 34, 26⟩ ∧ payloadCall .tcp paddedAck = ⟨.tcp, 34, 20⟩ ∧
    let t := { startNet.ts with state := .established, sport := 0xC000, dport := 80 }
    (t.accept (paddedAck.window 34) 26).rxLen = 6 ∧
      (t.accept (paddedAck.window 34) 20).rxLen = 0 := by
  refine ⟨by decide, by decide, by decide, by decide, ?_⟩
  decide

end Dosfs
