import Mathlib.Data.Nat.Bitwise
import Mathlib.Tactic.IntervalCases
import Dosfs.Foundation.ByteMemory
import Dosfs.Libc.String

/-!
# Packets

Byte order, checksums and the headers of `net.h`, as `net.c` reads and fills
them in: a packet is a byte buffer, and a header field is a number stored in it
least significant byte first, so the fields of the wire go through the byte
order helpers.
-/

namespace Dosfs

open Foundation

/-! ## Byte order -/

def htons (x : Nat) : Nat := (x % 2 ^ 16) >>> 8 ||| (x <<< 8) % 2 ^ 16

def ntohs (x : Nat) : Nat := htons x

def htonl (x : Nat) : Nat :=
  (x >>> 24 &&& 0xFF) ||| (x >>> 8 &&& 0xFF00) ||| (x <<< 8 &&& 0xFF0000) |||
    (x <<< 24 &&& 0xFF000000)

def ntohl (x : Nat) : Nat := htonl x

theorem ntohs_htons (x : Nat) : ntohs (htons x) = x % 2 ^ 16 := by
  apply Nat.eq_of_testBit_eq
  intro i
  simp only [ntohs, htons, Nat.testBit_or, Nat.testBit_mod_two_pow, Nat.testBit_shiftRight,
    Nat.testBit_shiftLeft]
  by_cases hi : i < 16
  · interval_cases i <;> simp
  · simp [hi]
    omega

private theorem testBit_byteMask (i : Nat) : Nat.testBit 0xFF i = decide (i < 8) := by
  rw [show (0xFF : Nat) = 2 ^ 8 - 1 from rfl, Nat.testBit_two_pow_sub_one]

/-- The bytes of a number are turned round. -/
theorem testBit_htonl (x : Nat) {i : Nat} (hi : i < 32) :
    (htonl x).testBit i = x.testBit (8 * (3 - i / 8) + i % 8) := by
  simp only [htonl, show (0xFF00 : Nat) = 0xFF <<< 8 from rfl,
    show (0xFF0000 : Nat) = 0xFF <<< 16 from rfl, show (0xFF000000 : Nat) = 0xFF <<< 24 from rfl,
    Nat.testBit_or, Nat.testBit_and, Nat.testBit_shiftRight, Nat.testBit_shiftLeft,
    testBit_byteMask]
  interval_cases i <;> simp

theorem htonl_lt (x : Nat) : htonl x < 2 ^ 32 := by
  unfold htonl
  refine Nat.or_lt_two_pow (Nat.or_lt_two_pow (Nat.or_lt_two_pow ?_ ?_) ?_) ?_ <;>
    exact Nat.and_lt_two_pow _ (by decide)

theorem ntohl_htonl (x : Nat) : ntohl (htonl x) = x % 2 ^ 32 := by
  apply Nat.eq_of_testBit_eq
  intro i
  rw [ntohl, Nat.testBit_mod_two_pow]
  by_cases hi : i < 32
  · have hback : 8 * (3 - (8 * (3 - i / 8) + i % 8) / 8) + (8 * (3 - i / 8) + i % 8) % 8 = i := by
      omega
    rw [testBit_htonl _ hi, testBit_htonl _ (by omega), hback, decide_eq_true hi, Bool.true_and]
  · have hhigh : htonl (htonl x) < 2 ^ i :=
      (htonl_lt _).trans_le (Nat.pow_le_pow_right (by decide) (Nat.le_of_not_lt hi))
    rw [Nat.testBit_lt_two_pow hhigh, decide_eq_false hi, Bool.false_and]

/-! ## Addresses -/

/-- An IPv4 address. -/
structure Ip where
  a : UInt8
  b : UInt8
  c : UInt8
  d : UInt8
  deriving DecidableEq

/-- An Ethernet address. -/
structure Mac where
  a : UInt8
  b : UInt8
  c : UInt8
  d : UInt8
  e : UInt8
  f : UInt8
  deriving DecidableEq

namespace Ip

def bytes (ip : Ip) : List UInt8 := [ip.a, ip.b, ip.c, ip.d]

/-- The address at `addr`. -/
def load (mem : Memory) (addr : Nat) : Ip :=
  ⟨mem addr, mem (addr + 1), mem (addr + 2), mem (addr + 3)⟩

/-- The address with a mask applied to each byte. -/
def masked (ip mask : Ip) : Ip :=
  ⟨ip.a &&& mask.a, ip.b &&& mask.b, ip.c &&& mask.c, ip.d &&& mask.d⟩

end Ip

namespace Mac

def bytes (mac : Mac) : List UInt8 := [mac.a, mac.b, mac.c, mac.d, mac.e, mac.f]

/-- The address at `addr`. -/
def load (mem : Memory) (addr : Nat) : Mac :=
  ⟨mem addr, mem (addr + 1), mem (addr + 2), mem (addr + 3), mem (addr + 4), mem (addr + 5)⟩

end Mac

def ourIp : Ip := ⟨10, 0, 2, 15⟩

def netmask : Ip := ⟨255, 255, 255, 0⟩

def gateway : Ip := ⟨10, 0, 2, 2⟩

/-- A hardware address for the gateway, as the examples have it. -/
def gatewayMac : Mac := ⟨0x52, 0x55, 0x0A, 0x00, 0x02, 0x02⟩

/-- The hardware address that `ne2000_init` gives the card. -/
def macAddr : Mac := ⟨0x52, 0x54, 0x00, 0x12, 0x34, 0x56⟩

/-- An address outside the local subnet is reached through the gateway. -/
def routeIp (dstIp : Ip) : Ip :=
  if dstIp.masked netmask = ourIp.masked netmask then dstIp else gateway

/-! ## Checksums -/

/-- Add up the `len` bytes from `p` on as 16-bit words. -/
def sumWords (mem : Memory) (p sum : Nat) : Nat → Nat
  | len + 2 => sumWords mem (p + 2) ((sum + mem.loadLe p 2) % 2 ^ 32) len
  | 1 => (sum + (mem p).toNat) % 2 ^ 32
  | 0 => sum

/-- Add the carries back in until none is left. -/
def foldCarries (sum : Nat) : Nat :=
  if sum >>> 16 ≠ 0 then foldCarries ((sum &&& 0xFFFF) + sum >>> 16) else sum
termination_by sum
decreasing_by
  have hcarry : sum / 2 ^ 16 ≠ 0 := by rwa [← Nat.shiftRight_eq_div_pow]
  rw [Nat.shiftRight_eq_div_pow, show (0xFFFF : Nat) = 2 ^ 16 - 1 from rfl,
    Nat.and_two_pow_sub_one_eq_mod]
  omega

def ipChecksum (mem : Memory) (len : Nat) : Nat :=
  (2 ^ 16 - 1) - foldCarries (sumWords mem 0 0 len) % 2 ^ 16

/-- The header fields that a TCP checksum covers besides the segment. -/
def pseudoHeader (src dst : Ip) (len : Nat) : Memory :=
  ((Memory.storeList (fun _ => 0) 0 src.bytes).storeList 4 dst.bytes).storeList 8
    [0, 6, UInt8.ofNat (len / 256), UInt8.ofNat len]

/-- The checksum of a segment when there is memory for its copy. -/
def tcpChecksum (src dst : Ip) (data : Memory) (len : Nat) : Nat :=
  ipChecksum ((pseudoHeader src dst len).overwrite 12 len data) ((12 + len) % 2 ^ 16)

/-! ## Ethernet, ARP and IP -/

def ethTypeIp : Nat := 0x0800

def ethTypeArp : Nat := 0x0806

def ipIcmp : UInt8 := 1

def ipTcp : UInt8 := 6

def ipUdp : UInt8 := 17

/-- A buffer with an Ethernet header at its start. -/
def ethHeader (dstMac srcMac : Mac) (ethertype : Nat) : Memory :=
  ((Memory.storeList (fun _ => 0) 0 dstMac.bytes).storeList 6 srcMac.bytes).storeLe 12 2
    (htons ethertype)

def broadcastMac : Mac := ⟨0xFF, 0xFF, 0xFF, 0xFF, 0xFF, 0xFF⟩

def zeroMac : Mac := ⟨0, 0, 0, 0, 0, 0⟩

/-- The 42 bytes of an ARP packet; a request is broadcast and leaves the
hardware address it asks for zero. -/
def arpPacket (ethMac : Mac) (op : Nat) (srcMac : Mac) (srcIp : Ip) (dstMac : Mac) (dstIp : Ip) :
    Memory :=
  let packet := ethHeader ethMac srcMac ethTypeArp
  let packet := (packet.storeLe 14 2 (htons 1)).storeLe 16 2 (htons 0x0800)
  let packet := (packet.storeByte 18 6).storeByte 19 4
  let packet := packet.storeLe 20 2 (htons op)
  let packet := (packet.storeList 22 srcMac.bytes).storeList 28 srcIp.bytes
  (packet.storeList 32 dstMac.bytes).storeList 38 dstIp.bytes

/-- An IP frame around `len` bytes of payload. -/
def ipFrame (srcMac dstMac : Mac) (srcIp dstIp : Ip) (proto : UInt8) (payload : Memory)
    (len : Nat) : Memory :=
  let frame := memset (ethHeader dstMac srcMac ethTypeIp) 14 0 20
  let frame := frame.storeByte 14 0x45
  let frame := frame.storeLe 16 2 (htons (20 + len))
  let frame := (frame.storeByte 22 64).storeByte 23 proto
  let frame := (frame.storeList 26 srcIp.bytes).storeList 30 dstIp.bytes
  let frame := frame.overwrite 34 len payload
  frame.storeLe 24 2 (ipChecksum (frame.window 14) 20)

/-! ## ICMP -/

/-- Turn a request of `len` bytes into its reply. -/
def echoReply (request : Memory) (len : Nat) : Memory :=
  let reply := (request.storeByte 0 0).storeLe 2 2 0
  reply.storeLe 2 2 (ipChecksum reply len)

/-- The 64 bytes of an echo request. -/
def echoRequest (pingId : Nat) : Memory :=
  let request := Memory.storeByte (fun _ => 0) 0 8
  let request := (request.storeLe 4 2 (htons pingId)).storeLe 6 2 (htons 1)
  request.storeLe 2 2 (ipChecksum request 64)

/-! ## TCP -/

def tcpFlagFin : UInt8 := 0x01

def tcpFlagSyn : UInt8 := 0x02

def tcpFlagRst : UInt8 := 0x04

def tcpFlagPsh : UInt8 := 0x08

def tcpFlagAck : UInt8 := 0x10

/-- The segment has one of these flags. -/
def hasFlag (flags mask : UInt8) : Bool := flags &&& mask != 0

/-- The fields of a received TCP header. -/
structure TcpHeader where
  dstPort : Nat
  seqNum : Nat
  dataOff : Nat
  flags : UInt8

/-- Read the header of a segment. -/
def tcpHeader (segment : Memory) : TcpHeader where
  dstPort := ntohs (segment.loadLe 2 2)
  seqNum := ntohl (segment.loadLe 4 4)
  dataOff := (segment 12 >>> 4 &&& 0xF).toNat * 4
  flags := segment 13

/-- A segment around `dlen` bytes of data, its checksum still zero. -/
def tcpSegment (sport dport seq ack : Nat) (flags : UInt8) (data : Memory) (dlen : Nat) :
    Memory :=
  let segment := Memory.storeLe (fun _ => 0) 0 2 (htons sport)
  let segment := segment.storeLe 2 2 (htons dport)
  let segment := (segment.storeLe 4 4 (htonl seq)).storeLe 8 4 (htonl ack)
  let segment := (segment.storeByte 12 0x50).storeByte 13 flags
  let segment := segment.storeLe 14 2 (htons 0x1000)
  segment.overwrite 20 dlen data

/-- The number that a segment acknowledges. -/
def ackNum (segment : Memory) : Nat := ntohl (segment.loadLe 8 4)

/-- A reader of the segment finds the acknowledgement number that was put in. -/
theorem tcpSegment_ackNum {sport dport seq ack dlen : Nat} {flags : UInt8} {data : Memory} :
    ackNum (tcpSegment sport dport seq ack flags data dlen) = ack % 2 ^ 32 := by
  unfold ackNum tcpSegment
  rw [Memory.loadLe_overwrite_of_disjoint (by omega), Memory.loadLe_storeLe_of_disjoint (by omega),
    Memory.loadLe_storeByte_of_disjoint (by omega), Memory.loadLe_storeByte_of_disjoint (by omega),
    Memory.loadLe_storeLe_same]
  have hbytes : htonl ack % 256 ^ 4 = htonl ack := Nat.mod_eq_of_lt (htonl_lt ack)
  rw [hbytes, ntohl_htonl]

/-! ## UDP -/

/-- A datagram around `len` bytes of data. -/
def udpDatagram (srcPort dstPort : Nat) (data : Memory) (len : Nat) : Memory :=
  let datagram := Memory.storeLe (fun _ => 0) 0 2 (htons srcPort)
  let datagram := datagram.storeLe 2 2 (htons dstPort)
  let datagram := (datagram.storeLe 4 2 (htons (8 + len))).storeLe 6 2 0
  datagram.overwrite 8 len data

end Dosfs
