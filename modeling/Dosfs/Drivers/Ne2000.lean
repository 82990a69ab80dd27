import Dosfs.Foundation.Circular
import Dosfs.Foundation.Run

/-!
# The NE2000 receive ring

A translation of `ne2000_poll` and of what `ne2000_init` does to the ring, over
a model of the controller: its memory, the registers of the ring, remote reads
that wrap at the end of the ring, and the storing of received packets.
-/

namespace Dosfs

open Foundation

/-- The memory of the controller and the registers of the receive ring. -/
structure Nic where
  mem : Nat → UInt8
  pstart : UInt8
  pstop : UInt8
  bndry : UInt8
  curr : UInt8

/-! ## The driver -/

/-- The address that follows in a remote read. -/
def Nic.nextAddr (nic : Nic) (addr : Nat) : Nat :=
  if addr + 1 = nic.pstop.toNat * 256 then nic.pstart.toNat * 256 else addr + 1

/-- `ne_dma_read`. The transfer is by words, which never straddle the end of the
ring; the second byte of the last word is dropped when the length is odd. -/
def neDmaRead (nic : Nic) : Nat → Nat → List UInt8
  | _, 0 => []
  | addr, len + 1 => nic.mem addr :: neDmaRead nic (nic.nextAddr addr) len

/-- The registers that `ne2000_init` sets. -/
def ne2000Init (nic : Nic) : Nic :=
  { nic with curr := 0x4C + 1, pstart := 0x4C, pstop := 0x80, bndry := 0x4C }

/-- The page that `ne2000_poll` takes for the next packet. -/
def rxPage (bndry : UInt8) : UInt8 :=
  let page := bndry + 1
  if 0x80 ≤ page then 0x4C else page

/-- The length field of the header on that page. -/
def rxLength (nic : Nic) : Nat :=
  let hdr := neDmaRead nic ((rxPage nic.bndry).toNat * 256) 4
  (hdr.getD 2 0).toNat + (hdr.getD 3 0).toNat * 256

/-- `ne2000_poll`; the answer is the packet when it returns 1. -/
def ne2000Poll (nic : Nic) : Option (List UInt8) × Nic :=
  if nic.curr = nic.bndry then (none, nic)
  else
    let nicAddr := (rxPage nic.bndry).toNat * 256
    let hdr := neDmaRead nic nicAddr 4
    let pktLen := rxLength nic
    let nextPge := hdr.getD 1 0
    if pktLen < 4 then (none, nic)
    else
      let dataLen := pktLen - 4
      let dataLen := if 1500 < dataLen then 1500 else dataLen
      let data := neDmaRead nic (nicAddr + 4) dataLen
      let newBndry := if 0x4C < nextPge then nextPge - 1 else 0x80 - 1
      (some data, { nic with bndry := newBndry })

/-! ## The controller -/

/-- The cells of the receive ring. -/
def ringSize : Nat := 13312

def Nic.ring (nic : Nic) : Nat → UInt8 := fun cell => nic.mem (0x4C00 + cell)

/-- The number of pages of a stored packet. -/
def packetPages (packet : List UInt8) : Nat := (packet.length + 4 + 255) / 256

/-- The page at a distance from the start of the ring, which has 52 pages. -/
def pageAt (n : Nat) : UInt8 := 0x4C + UInt8.ofNat (n % 52)

/-- The distance of a page from the start of the ring. -/
def pageIndex (page : UInt8) : Nat := page.toNat - 0x4C

/-- A packet as it is stored: the status, the page of the next packet, the
length with the header, and the data. -/
def framed (status next : UInt8) (packet : List UInt8) : List UInt8 :=
  [status, next, UInt8.ofNat (packet.length + 4), UInt8.ofNat ((packet.length + 4) / 256)] ++ packet

/-- A packet is stored from the page `CURR` on. -/
def Nic.receive (nic : Nic) (status : UInt8) (packet : List UInt8) : Nic :=
  let first := pageIndex nic.curr
  let next := pageAt (first + packetPages packet)
  let cells := Circular.write ringSize nic.ring (256 * first) (framed status next packet)
  { nic with
    mem := fun addr => if 0x4C00 ≤ addr ∧ addr < 0x8000 then cells (addr - 0x4C00) else nic.mem addr
    curr := next }

/-! ## Runs -/

/-- What happens to the ring: a packet arrives, or the driver polls. -/
inductive NicEvent
  | arrive (status : UInt8) (packet : List UInt8)
  | poll

/-- The controller with a history: the packets stored, those of them that were
not read yet, the packets that polls returned, and for each poll that returned 0
the number of packets that were unread. -/
structure NicRun where
  nic : Nic
  stored : List (List UInt8)
  unread : List (List UInt8)
  delivered : List (List UInt8)
  idle : List Nat

def NicRun.start (nic : Nic) : NicRun := ⟨ne2000Init nic, [], [], [], []⟩

def unreadPages (unread : List (List UInt8)) : Nat := (unread.map packetPages).sum

/-- The packet has a length that the network allows, and storing it overwrites
no unread page. -/
def NicRun.Accepts (s : NicRun) (packet : List UInt8) : Prop :=
  (1 ≤ packet.length ∧ packet.length ≤ 1500) ∧ unreadPages s.unread + packetPages packet ≤ 52

instance (s : NicRun) (packet : List UInt8) : Decidable (s.Accepts packet) :=
  inferInstanceAs (Decidable (_ ∧ _))

/-- One event; the answer is that of a poll. -/
def nicStep : NicEvent → NicRun → Option (Option (List UInt8) × NicRun)
  | .arrive status packet, s =>
      if s.Accepts packet then
        some (none, { s with
          nic := s.nic.receive status packet
          stored := s.stored ++ [packet]
          unread := s.unread ++ [packet] })
      else some (none, s)
  | .poll, s =>
      match ne2000Poll s.nic with
      | (none, nic) => some (none, { s with nic, idle := s.unread.length :: s.idle })
      | (some packet, nic) =>
          some (some packet, { s with
            nic, unread := s.unread.tail, delivered := s.delivered ++ [packet] })

end Dosfs
