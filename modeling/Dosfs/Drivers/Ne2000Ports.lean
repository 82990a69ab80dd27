import Dosfs.Foundation.ByteMemory
import Dosfs.Foundation.Shared
import Dosfs.Drivers.Ne2000

/-!
# The NE2000 at its ports

A translation of `drivers/ne2000.c` down to the single accesses to a port, over a model of
the registers that `ne2000.h` names. Between two accesses packets arrive, transmissions
and remote transfers come to their end, and the handler of the card's interrupt runs
unless the line is masked.
-/

namespace Dosfs.Ports

open Foundation

/-! ## The card -/

/-- The command register, the registers that are only written, the address and the count
of a remote transfer, and the mask of the interrupt controller. -/
structure Control where
  cr : UInt8
  imr : UInt8
  dcfg : UInt8
  rxcr : UInt8
  txcr : UInt8
  par : UInt8 → UInt8
  rsar : Nat
  rcnt : Nat
  mask : UInt8

/-- The registers of a transmission, and the frames that went out so far. -/
structure Transmitter where
  tpsr : UInt8
  tcnt : Nat
  busy : Bool
  wire : List (List UInt8)

/-- The card; `unread` lists the packets in the pages that the driver has not given back. -/
structure Card where
  nic : Nic
  unread : List (List UInt8)
  tx : Transmitter
  isr : UInt8
  ctl : Control

namespace Card

/-- The register page that the command register selects. -/
def page (card : Card) : UInt8 := card.ctl.cr >>> 6

/-- A packet is stored when it has a length that the network allows and there are pages
for it. -/
def Accepts (card : Card) (packet : List UInt8) : Prop :=
  (1 ≤ packet.length ∧ packet.length ≤ 1500) ∧ unreadPages card.unread + packetPages packet ≤ 52

instance (card : Card) (packet : List UInt8) : Decidable (card.Accepts packet) :=
  inferInstanceAs (Decidable (_ ∧ _))

def receive (card : Card) (status : UInt8) (packet : List UInt8) : Card :=
  if card.Accepts packet then
    { card with
      nic := card.nic.receive status packet
      unread := card.unread ++ [packet]
      isr := card.isr ||| 0x01 }
  else card

/-- What a transmission sends. -/
def outgoing (card : Card) : List UInt8 :=
  Memory.loadList card.nic.mem (card.tx.tpsr.toNat * 256) card.tx.tcnt

def transmit (card : Card) : Card :=
  if card.tx.busy then
    { card with
      tx := { card.tx with busy := false, wire := card.tx.wire ++ [card.outgoing] }
      isr := card.isr ||| 0x02 }
  else card

/-- Write a register of page 0. Giving back the pages before `BNDRY` is what the driver
does with a packet it has read. -/
def outPage0 (card : Card) (reg val : UInt8) : Card :=
  match reg with
  | 0x01 => { card with nic := { card.nic with pstart := val } }
  | 0x02 => { card with nic := { card.nic with pstop := val } }
  | 0x03 => { card with nic := { card.nic with bndry := val }, unread := card.unread.tail }
  | 0x04 => { card with tx := { card.tx with tpsr := val } }
  | 0x05 => { card with tx := { card.tx with tcnt := card.tx.tcnt / 256 * 256 + val.toNat } }
  | 0x06 => { card with tx := { card.tx with tcnt := card.tx.tcnt % 256 + val.toNat * 256 } }
  | 0x07 => { card with isr := card.isr &&& ~~~(val &&& 0x7F) }
  | 0x08 => { card with ctl := { card.ctl with rsar := card.ctl.rsar / 256 * 256 + val.toNat } }
  | 0x09 => { card with ctl := { card.ctl with rsar := card.ctl.rsar % 256 + val.toNat * 256 } }
  | 0x0A => { card with ctl := { card.ctl with rcnt := card.ctl.rcnt / 256 * 256 + val.toNat } }
  | 0x0B => { card with ctl := { card.ctl with rcnt := card.ctl.rcnt % 256 + val.toNat * 256 } }
  | 0x0C => { card with ctl := { card.ctl with rxcr := val } }
  | 0x0D => { card with ctl := { card.ctl with txcr := val } }
  | 0x0E => { card with ctl := { card.ctl with dcfg := val } }
  | 0x0F => { card with ctl := { card.ctl with imr := val } }
  | _ => card

def outPage1 (card : Card) (reg val : UInt8) : Card :=
  if reg = 0x07 then { card with nic := { card.nic with curr := val } }
  else if 0x01 ≤ reg ∧ reg ≤ 0x06 then
    { card with ctl := { card.ctl with par := Function.update card.ctl.par reg val } }
  else card

/-- Write a register. The command starts a transmission when it has the bit for it. -/
def outb (card : Card) (reg val : UInt8) : Card :=
  if reg = 0x00 then
    { card with
      ctl := { card.ctl with cr := val }
      tx := { card.tx with busy := card.tx.busy || val &&& 0x04 != 0 } }
  else if card.page = 0 then card.outPage0 reg val
  else if card.page = 1 then card.outPage1 reg val
  else card

/-- Read a register; the driver reads no others. -/
def inb (card : Card) (reg : UInt8) : UInt8 :=
  if reg = 0x00 then card.ctl.cr
  else if card.page = 0 then
    if reg = 0x03 then card.nic.bndry else if reg = 0x07 then card.isr else 0
  else if card.page = 1 then
    if reg = 0x07 then card.nic.curr else card.ctl.par reg
  else 0

/-- One byte of a remote transfer has passed. -/
def step (ctl : Control) (nic : Nic) : Control :=
  { ctl with rsar := nic.nextAddr ctl.rsar, rcnt := ctl.rcnt - 1 }

def putByte (card : Card) (b : UInt8) : Card :=
  { card with
    nic := { card.nic with mem := Function.update card.nic.mem card.ctl.rsar b }
    ctl := step card.ctl card.nic }

/-- Write the data port: two bytes when the card is set to words. -/
def outw (card : Card) (w : UInt16) : Card :=
  if card.ctl.rcnt = 0 then card
  else if card.ctl.dcfg &&& 1 = 0 then card.putByte w.toUInt8
  else (card.putByte w.toUInt8).putByte (w >>> 8).toUInt8

def getByte (card : Card) : UInt8 × Card :=
  (card.nic.mem card.ctl.rsar, { card with ctl := step card.ctl card.nic })

def inw (card : Card) : UInt16 × Card :=
  let (low, card) := card.getByte
  if card.ctl.dcfg &&& 1 = 0 then (low.toUInt16, card)
  else
    let (high, card) := card.getByte
    (low.toUInt16 ||| (high.toUInt16 <<< 8), card)

end Card

/-! ## What happens meanwhile -/

inductive CardEvent
  /-- A packet arrives. -/
  | arrive (status : UInt8) (packet : List UInt8)
  /-- The transmission is over. -/
  | transmitted
  /-- The remote transfer is over. -/
  | transferred
  /-- The interrupt of the card; packets arrive between the two accesses of the handler. -/
  | interrupt (arrivals : List (UInt8 × List UInt8))

/-- `NE2000_IRQ_MASK` -/
def irqMask : UInt8 := 0x08

/-- `ne_irq_handler` -/
def neIrqHandler (card : Card) (arrivals : List (UInt8 × List UInt8)) : Card :=
  let isr := card.inb 0x07
  (arrivals.foldl (fun card p => card.receive p.1 p.2) card).outb 0x07 isr

def Card.event (card : Card) : CardEvent → Card
  | .arrive status packet => card.receive status packet
  | .transmitted => card.transmit
  | .transferred => if card.ctl.rcnt = 0 then { card with isr := card.isr ||| 0x40 } else card
  | .interrupt arrivals =>
      if card.ctl.mask &&& irqMask = 0 ∧ card.isr &&& card.ctl.imr ≠ 0 then
        neIrqHandler card arrivals
      else card

/-! ## The driver -/

/-- A computation of the driver. -/
abbrev CardM := Shared Card CardEvent

def neOutb (reg val : UInt8) : CardM Unit := Shared.access Card.event fun c => ((), c.outb reg val)

def neInb (reg : UInt8) : CardM UInt8 := Shared.access Card.event fun c => (c.inb reg, c)

def neOutw (w : UInt16) : CardM Unit := Shared.access Card.event fun c => ((), c.outw w)

def neInw : CardM UInt16 := Shared.access Card.event Card.inw

/-- `inb(0x21)` -/
def picRead : CardM UInt8 := Shared.access Card.event fun c => (c.ctl.mask, c)

/-- `outb(0x21, mask)` -/
def picWrite (mask : UInt8) : CardM Unit :=
  Shared.access Card.event fun c => ((), { c with ctl := { c.ctl with mask } })

/-- The loops that wait for a bit of the interrupt status and clear it. -/
def awaitBit (bit : UInt8) : CardM Bool :=
  Shared.attempt
    (do
      let isr ← neInb 0x07
      if isr &&& bit ≠ 0 then
        neOutb 0x07 bit
        return true
      else
        return false) 100000

/-- The beginning of both remote transfers. -/
def startTransfer (command : UInt8) (nicAddr len : Nat) : CardM Unit := do
  neOutb 0x07 0x40
  neOutb 0x08 (UInt8.ofNat nicAddr)
  neOutb 0x09 (UInt8.ofNat (nicAddr / 256))
  neOutb 0x0A (UInt8.ofNat len)
  neOutb 0x0B (UInt8.ofNat (len / 256))
  neOutb 0x00 command

/-- The word at an index; the last byte may be missing. -/
def wordAt (src : Memory) (len i : Nat) : UInt16 :=
  let w := (src (i * 2)).toUInt16
  if i * 2 + 1 < len then w ||| ((src (i * 2 + 1)).toUInt16 <<< 8) else w

def writeWords (src : Memory) (len : Nat) : Nat → Nat → CardM Unit
  | _, 0 => return ()
  | i, todo + 1 => do
      neOutw (wordAt src len i)
      writeWords src len (i + 1) todo

def neDmaWrite (nicAddr : Nat) (src : Memory) (len : Nat) : CardM Unit := do
  let picMask ← picRead
  picWrite (picMask ||| irqMask)
  startTransfer 0x12 nicAddr len
  writeWords src len 0 ((len + 1) / 2)
  let _ ← awaitBit 0x40
  picWrite picMask

def readWords (len : Nat) : Nat → Nat → CardM (List UInt8)
  | _, 0 => return []
  | i, todo + 1 => do
      let w ← neInw
      let rest ← readWords len (i + 1) todo
      if i * 2 + 1 < len then
        return w.toUInt8 :: (w >>> 8).toUInt8 :: rest
      else
        return w.toUInt8 :: rest

def neDmaRead (nicAddr len : Nat) : CardM (List UInt8) := do
  let picMask ← picRead
  picWrite (picMask ||| irqMask)
  startTransfer 0x0A nicAddr len
  let data ← readWords len 0 ((len + 1) / 2)
  let _ ← awaitBit 0x40
  picWrite picMask
  return data

/-- The address that `ne2000_init` gives the card. -/
def macBytes : List UInt8 := [0x52, 0x54, 0x00, 0x12, 0x34, 0x56]

/-- The loop that writes the address to `PAR0` and the registers behind it. -/
def writePar : UInt8 → List UInt8 → CardM Unit
  | _, [] => return ()
  | reg, b :: mac => do
      neOutb reg b
      writePar (reg + 1) mac

def ne2000Init : CardM Unit := do
  -- reading the reset port resets the card
  Shared.access Card.event fun c => ((), { c with isr := 0x80, ctl := { c.ctl with cr := 0x21 } })
  neOutb 0x00 0x01
  neOutb 0x00 0x02
  neOutb 0x00 0x42
  writePar 0x01 macBytes
  neOutb 0x07 0x4D
  neOutb 0x00 0x02
  neOutb 0x01 0x4C
  neOutb 0x02 0x80
  neOutb 0x03 0x4C
  neOutb 0x0E 0x33
  neOutb 0x0C 0x04
  neOutb 0x0D 0x00
  neOutb 0x07 0xFF
  neOutb 0x0F 0x43
  let mask ← picRead
  picWrite (mask &&& ~~~irqMask)

/-- `ne2000_send`; whether the transmission was over before it gave up waiting. -/
def ne2000Send (buf : Memory) (len : Nat) : CardM Bool := do
  let len := if 1500 < len then 1500 else len
  neDmaWrite 0x4000 buf len
  let picMask ← picRead
  picWrite (picMask ||| irqMask)
  neOutb 0x07 0x02
  neOutb 0x04 0x40
  neOutb 0x05 (UInt8.ofNat len)
  neOutb 0x06 (UInt8.ofNat (len / 256))
  neOutb 0x00 0x06
  let sent ← awaitBit 0x02
  picWrite picMask
  if sent then
    return true
  else
    -- the registers that the message shows
    let _ ← neInb 0x07
    let _ ← neInb 0x00
    return false

/-- The part of `ne2000_poll` that reads the data; nothing is read of an empty packet. -/
def readData (nicAddr dataLen : Nat) : CardM (List UInt8) :=
  if 0 < dataLen then neDmaRead nicAddr dataLen else pure []

/-- The part of `ne2000_poll` that reads the packet on the next page. -/
def readPacket (bndry : UInt8) : CardM (Option (List UInt8)) := do
  let nicAddr := (rxPage bndry).toNat * 256
  let hdr ← neDmaRead nicAddr 4
  let pktLen := (hdr.getD 2 0).toNat + (hdr.getD 3 0).toNat * 256
  let nextPge := hdr.getD 1 0
  if pktLen < 4 then
    return none
  else
    let dataLen := if 1500 < pktLen - 4 then 1500 else pktLen - 4
    let data ← readData (nicAddr + 4) dataLen
    neOutb 0x03 (if 0x4C < nextPge then nextPge - 1 else 0x80 - 1)
    return some data

/-- `ne2000_poll`; the packet when it returns 1. -/
def ne2000Poll : CardM (Option (List UInt8)) := do
  neOutb 0x00 0x02
  let bndry ← neInb 0x03
  neOutb 0x00 0x42
  let curr ← neInb 0x07
  neOutb 0x00 0x02
  if curr = bndry then
    let _ ← neInb 0x07
    return none
  else
    readPacket bndry

end Dosfs.Ports
