import Dosfs.Foundation.Fuelled
import Dosfs.Net.Packet

/-!
# State of the network stack

The variables of `net.c`, the frames handed to the card, and what the stack
asks of its surroundings: the frames that have arrived, the timer and the heap.
Next to the variables stand records that no function reads: which frames
went into and came out of the receive ring, what was copied into the buffer of
the connection, and what the connection has heard, said and delivered.
-/

namespace Dosfs

open Foundation

/-! ## Surroundings -/

/-- A frame from the card, which cuts off what exceeds its MTU. -/
structure Frame where
  bytes : List UInt8
  fits : bytes.length ≤ 1500

/-- What the stack finds when it asks for the `n`-th time. -/
structure Env where
  /-- The frames that `ne2000_poll` delivers before it finds no more. -/
  frames : Nat → List Frame
  /-- The tick counter of the timer, before it is cut to its 32 bits. -/
  ticks : Nat → Nat
  /-- Whether `kmalloc` finds memory. -/
  kmalloc : Nat → Bool
  /-- The bytes in a local buffer that nothing has been written to. -/
  garbage : Memory

/-- No frames arrive, the timer goes on by one a reading, and there is memory. -/
def Env.quiet : Env where
  frames _ := []
  ticks n := n
  kmalloc _ := true
  garbage _ := 0

/-! ## Receive ring -/

/-- The slots of `rx_buf` with their lengths and the two indices of the ring. -/
structure RxRing where
  buf : Nat → Memory
  len : Nat → Nat
  head : Nat
  tail : Nat
  /-- The frames put into the ring so far, each with its slot. -/
  accepted : List (Nat × List UInt8)
  /-- The slots handed to `dispatch` so far, each with its bytes. -/
  dispatched : List (Nat × List UInt8)

namespace RxRing

/-- Append a frame, or drop it when the ring is full. -/
def receive (rx : RxRing) (frame : Frame) : RxRing :=
  let n := (rx.tail + 1) % 16
  if n = rx.head then rx
  else
    { rx with
      buf := Function.update rx.buf rx.tail ((rx.buf rx.tail).storeList 0 frame.bytes)
      len := Function.update rx.len rx.tail frame.bytes.length
      tail := n
      accepted := rx.accepted ++ [(rx.tail, frame.bytes)] }

/-- The bytes in the oldest slot. -/
def front (rx : RxRing) : List UInt8 := (rx.buf rx.head).loadList 0 (rx.len rx.head)

def noteDispatch (rx : RxRing) : RxRing :=
  { rx with dispatched := rx.dispatched ++ [(rx.head, rx.front)] }

def advance (rx : RxRing) : RxRing := { rx with head := (rx.head + 1) % 16 }

end RxRing

/-! ## ARP cache -/

structure ArpEntry where
  ip : Ip
  mac : Mac
  valid : Bool
  deriving DecidableEq

/-- The entry is in use for this address. -/
def ArpEntry.isFor (entry : ArpEntry) (ip : Ip) : Bool := entry.valid && entry.ip = ip

def arpLookup (cache : List ArpEntry) (ip : Ip) : Option Mac :=
  (cache.find? (·.isFor ip)).map (·.mac)

/-- Renew the entry of the address, or use the first free one. -/
def arpCacheAdd (cache : List ArpEntry) (ip : Ip) (mac : Mac) : List ArpEntry :=
  if cache.any (·.isFor ip) then
    cache.replaceF fun entry => if entry.isFor ip then some { entry with mac := mac } else none
  else
    cache.replaceF fun entry => if entry.valid then none else some ⟨ip, mac, true⟩

/-! ## TCP connection -/

inductive TcpPhase
  | closed
  | synSent
  | established
  | finWait
  | closing
  deriving DecidableEq

/-- A copy out of a segment of `length` bytes into the receive buffer. -/
structure Copy where
  dest : Nat
  source : Nat
  count : Nat
  length : Nat
  deriving DecidableEq

/-- A segment with data or a FIN that an established connection has processed,
and the number of bytes in the receive buffer when it did. -/
structure Arrival where
  seqNum : Nat
  data : List UInt8
  fin : Bool
  before : Nat
  deriving DecidableEq

/-- An acknowledgement number sent, the number of bytes kept by then, and
whether a FIN had been processed. -/
structure Ack where
  number : Nat
  kept : Nat
  fin : Bool
  deriving DecidableEq

/-- What a connection has heard, said and delivered since `tcp_connect`. -/
structure Talk where
  /-- The sequence number of the peer's SYN. -/
  isn : Nat
  arrived : List Arrival
  acks : List Ack
  /-- The bytes that `tcp_recv` has returned. -/
  returned : List UInt8

def Talk.start : Talk := ⟨0, [], [], []⟩

/-- `tcp_state_t`. -/
structure TcpState where
  state : TcpPhase
  sport : Nat
  dport : Nat
  seq : Nat
  ack : Nat
  rxBuf : Memory
  rxLen : Nat
  rxRead : Nat
  copies : List Copy
  talk : Talk

namespace TcpHeader

/-- The 16-bit difference of the length of a segment and its data offset. -/
def dataLen (h : TcpHeader) (len : Nat) : Nat := (len + 2 ^ 16 - h.dataOff) % 2 ^ 16

/-- How far a segment moves the acknowledgement number. -/
def increment (h : TcpHeader) (len : Nat) : Nat :=
  h.dataLen len + if hasFlag h.flags tcpFlagFin then 1 else 0

end TcpHeader

namespace TcpState

/-- Append the data of a segment when there is room for it. -/
def keep (t : TcpState) (segment : Memory) (dataOff dlen len : Nat) : TcpState :=
  if 0 < dlen ∧ (t.rxLen + dlen) % 2 ^ 32 < 8192 then
    { t with
      rxBuf := t.rxBuf.overwrite t.rxLen dlen (segment.window dataOff)
      rxLen := (t.rxLen + dlen) % 2 ^ 32
      copies := t.copies ++ [⟨t.rxLen, dataOff, dlen, len⟩] }
  else t

/-- Move the acknowledgement number to the end of a segment. -/
def acknowledge (t : TcpState) (seqNum inc : Nat) (arrival : Arrival) : TcpState :=
  if inc ≠ 0 then
    { t with
      ack := (seqNum + inc) % 2 ^ 32
      talk := { t.talk with arrived := t.talk.arrived ++ [arrival] } }
  else t

/-- What the record of the connection says about a segment. -/
def arrival (t : TcpState) (segment : Memory) (len : Nat) : Arrival :=
  let h := tcpHeader segment
  ⟨h.seqNum, segment.loadList h.dataOff (h.dataLen len), hasFlag h.flags tcpFlagFin, t.rxLen⟩

/-- Process the data and the FIN of a segment. -/
def accept (t : TcpState) (segment : Memory) (len : Nat) : TcpState :=
  let h := tcpHeader segment
  (t.keep segment h.dataOff (h.dataLen len) len).acknowledge h.seqNum (h.increment len)
    (t.arrival segment len)

/-- Data goes to the buffer and nowhere else. -/
theorem keep_frame (t : TcpState) (segment : Memory) (dataOff dlen len : Nat) :
    let t' := t.keep segment dataOff dlen len
    t'.state = t.state ∧ t'.seq = t.seq ∧ t'.talk = t.talk := by
  unfold keep
  split <;> exact ⟨rfl, rfl, rfl⟩

theorem acknowledge_frame (t : TcpState) (seqNum inc : Nat) (arrival : Arrival) :
    let t' := t.acknowledge seqNum inc arrival
    t'.state = t.state ∧ t'.seq = t.seq ∧ t'.rxLen = t.rxLen ∧ t'.talk.acks = t.talk.acks := by
  unfold acknowledge
  split <;> exact ⟨rfl, rfl, rfl, rfl⟩

theorem accept_frame (t : TcpState) (segment : Memory) (len : Nat) :
    let t' := t.accept segment len
    t'.state = t.state ∧ t'.seq = t.seq ∧ t'.talk.acks = t.talk.acks := by
  obtain ⟨hstate, hseq, htalk⟩ := t.keep_frame segment (tcpHeader segment).dataOff
    ((tcpHeader segment).dataLen len) len
  obtain ⟨hstate', hseq', -, hacks'⟩ := (t.keep segment (tcpHeader segment).dataOff
    ((tcpHeader segment).dataLen len) len).acknowledge_frame (tcpHeader segment).seqNum
    ((tcpHeader segment).increment len) (t.arrival segment len)
  exact ⟨hstate'.trans hstate, hseq'.trans hseq, hacks'.trans (by rw [htalk])⟩

/-- The peer has answered the SYN. -/
def establish (t : TcpState) (seqNum : Nat) : TcpState :=
  { t with
    ack := (seqNum + 1) % 2 ^ 32
    state := .established
    talk := { t.talk with isn := seqNum } }

/-- Start a new connection. -/
def start (t : TcpState) (sport dport : Nat) : TcpState :=
  { t with
    sport := sport, dport := dport, seq := 0x1000, ack := 0, state := .synSent
    rxLen := 0, rxRead := 0, talk := Talk.start }

/-- Note the acknowledgement number of a segment that is sent with these flags. -/
def noteAck (t : TcpState) (flags : UInt8) (segment : Memory) : TcpState :=
  if hasFlag flags tcpFlagAck then
    { t with talk := { t.talk with acks := t.talk.acks ++
      [⟨ackNum segment, t.rxLen, t.talk.arrived.any (·.fin)⟩] } }
  else t

/-- Move the sequence number past a segment that was sent. -/
def sent (t : TcpState) (flags : UInt8) (dlen : Nat) : TcpState :=
  let syn := if hasFlag flags tcpFlagSyn then 1 else 0
  let fin := if hasFlag flags tcpFlagFin then 1 else 0
  { t with seq := (t.seq + syn + fin + dlen) % 2 ^ 32 }

/-- The next `n` bytes in the receive buffer. -/
def unread (t : TcpState) (n : Nat) : List UInt8 := t.rxBuf.loadList t.rxRead n

/-- Hand out the next `n` bytes. -/
def deliver (t : TcpState) (n : Nat) : TcpState :=
  { t with
    rxRead := t.rxRead + n
    talk := { t.talk with returned := t.talk.returned ++ t.unread n } }

end TcpState

/-! ## The whole stack -/

structure Net where
  rx : RxRing
  arpCache : List ArpEntry
  arpWaiting : Bool
  arpReplyMac : Mac
  pingId : Nat
  pingOk : Bool
  pingRtt : Nat
  icmpRecvCount : Nat
  lastIcmpType : UInt8
  ts : TcpState
  tcpDstIp : Ip
  tcpEphPort : Nat
  udpBuf : Memory
  udpLen : Nat
  udpPort : Nat
  udpGot : Bool
  /-- The frames handed to the card so far. -/
  sent : List (List UInt8)
  /-- How often the card was polled until it had no more frames. -/
  polls : Nat
  /-- How often the timer was read. -/
  readings : Nat
  /-- How often memory was asked for. -/
  allocs : Nat

/-- A computation of the stack. -/
abbrev NetM := Fuelled Net

/-- The variables before `net_init`. -/
def bootNet : Net where
  rx := ⟨fun _ _ => 0, fun _ => 0, 0, 0, [], []⟩
  arpCache := List.replicate 8 ⟨⟨0, 0, 0, 0⟩, zeroMac, false⟩
  arpWaiting := false
  arpReplyMac := zeroMac
  pingId := 0
  pingOk := false
  pingRtt := 0
  icmpRecvCount := 0
  lastIcmpType := 0
  ts := ⟨.closed, 0, 0, 0, 0, fun _ => 0, 0, 0, [], Talk.start⟩
  tcpDstIp := ⟨0, 0, 0, 0⟩
  tcpEphPort := 0xC000
  udpBuf := fun _ => 0
  udpLen := 0
  udpPort := 0
  udpGot := false
  sent := []
  polls := 0
  readings := 0
  allocs := 0

def netInit (s : Net) : Net :=
  { s with
    rx := { s.rx with head := 0, tail := 0 }
    arpCache := List.replicate 8 ⟨⟨0, 0, 0, 0⟩, zeroMac, false⟩
    ts := { s.ts with
      state := .closed, sport := 0, dport := 0, seq := 0, ack := 0
      rxBuf := fun _ => 0, rxLen := 0, rxRead := 0 }
    udpGot := false }

/-- The stack when the kernel has set it up. -/
def startNet : Net := netInit bootNet

end Dosfs
