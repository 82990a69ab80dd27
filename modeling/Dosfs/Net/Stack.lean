import Dosfs.Net.State

/-!
# Receiving and sending

The handlers of `net.c` and the loop of `net_poll` that feeds them. A handler
that sends may have to wait for the hardware address of its peer, and polls the
card again while it waits, so every function takes the computation `poll` that
stands for `net_poll` and a bound on the rounds of each loop; `netPoll` ties
the knot with a bound on the depth of the recursion.

A handler gets a pointer into its slot of the ring, which other frames may fill
while it waits. Where it reads a packet after waiting, it reads it anew.
-/

namespace Dosfs

open Foundation

section

variable (env : Env) (poll : NetM Unit) (rounds : Nat)

/-! ## Surroundings -/

def timerGetTicks : NetM Nat := do
  let s ← get
  modify fun s => { s with readings := s.readings + 1 }
  return env.ticks s.readings % 2 ^ 32

/-- Whether there is memory; the block itself is not needed. -/
def kmallocSucceeds : NetM Bool := do
  let s ← get
  modify fun s => { s with allocs := s.allocs + 1 }
  return env.kmalloc s.allocs

/-- The driver cuts off what exceeds its MTU. -/
def ne2000Send (frame : Memory) (len : Nat) : NetM Unit :=
  modify fun s => { s with sent := s.sent ++ [frame.loadList 0 (min len 1500)] }

/-- One round of a loop that polls while `waiting` and the deadline allow. -/
def waitRound (waiting : Net → Bool) (deadline : Nat) : NetM (Option Unit) := do
  let s ← get
  if waiting s then
    let now ← timerGetTicks env
    if now < deadline then
      poll
      return none
    else
      return some ()
  else
    return some ()

/-- A deadline `limit` ticks from now. -/
def deadlineIn (limit : Nat) : NetM Nat := do
  let now ← timerGetTicks env
  return (now + limit) % 2 ^ 32

/-! ## ARP -/

/-- What `arp_resolve` does when it has stopped waiting. -/
def arpFinish (ip : Ip) : NetM (Option Mac) := do
  let s ← get
  if s.arpWaiting then
    return none
  else
    modify fun s => { s with arpCache := arpCacheAdd s.arpCache ip s.arpReplyMac }
    return some s.arpReplyMac

def arpResolve (ip : Ip) : NetM (Option Mac) := do
  let s ← get
  match arpLookup s.arpCache ip with
  | some mac => return some mac
  | none =>
      modify fun s => { s with arpWaiting := true }
      ne2000Send (arpPacket broadcastMac 1 macAddr ourIp zeroMac ip) 42
      let deadline ← deadlineIn env 100
      Fuelled.loop (waitRound env poll (·.arpWaiting) deadline) rounds
      arpFinish ip

/-- Answer a request for our address. -/
def arpAnswer (pkt : Memory) : NetM Unit := do
  if pkt.loadLe 20 2 = htons 1 ∧ Ip.load pkt 38 = ourIp then
    let srcMac := Mac.load pkt 22
    ne2000Send (arpPacket srcMac 2 macAddr ourIp srcMac (Ip.load pkt 28)) 42
    modify fun s => { s with
      arpCache := arpCacheAdd s.arpCache (Ip.load pkt 28) (Mac.load pkt 22) }

/-- Take an answer, whatever address it is for, when one is waited for. -/
def arpTakeReply (pkt : Memory) : NetM Unit := do
  let s ← get
  if pkt.loadLe 20 2 = htons 2 ∧ s.arpWaiting then
    modify fun s => { s with
      arpReplyMac := Mac.load pkt 22
      arpCache := arpCacheAdd s.arpCache (Ip.load pkt 28) (Mac.load pkt 22)
      arpWaiting := false }

def arpProcess (pkt : Memory) (len : Nat) : NetM Unit := do
  if len < 42 then
    return ()
  else
    arpAnswer pkt
    arpTakeReply pkt

/-! ## IP -/

/-- Send a packet to a hardware address. The destination is read anew. -/
def netSendFrame (mac : Mac) (dstIp : Net → Ip) (proto : UInt8) (payload : Memory) (len : Nat) :
    NetM Int := do
  if 1500 < (14 + 20 + len) % 2 ^ 16 then
    return -1
  else
    let s ← get
    ne2000Send (ipFrame macAddr mac ourIp (dstIp s) proto payload len) ((14 + 20 + len) % 2 ^ 16)
    return 0

/-- The result is 0, or -1 when nothing was sent. -/
def netSendIp (dstIp : Net → Ip) (proto : UInt8) (payload : Memory) (len : Nat) : NetM Int := do
  let s ← get
  match ← arpResolve env poll rounds (routeIp (dstIp s)) with
  | none => return -1
  | some mac => netSendFrame mac dstIp proto payload len

/-! ## ICMP -/

def icmpProcess (payload : Net → Memory) (len : Nat) (src : Net → Ip) : NetM Unit := do
  if len < 8 then
    return ()
  else
    let s ← get
    let icmp := payload s
    modify fun s => { s with
      icmpRecvCount := (s.icmpRecvCount + 1) % 2 ^ 32
      lastIcmpType := icmp 0 }
    if icmp 0 = 0 ∧ (icmp.loadLe 4 2 = htons s.pingId ∨ icmp.loadLe 4 2 = s.pingId) then
      modify fun s => { s with pingOk := true }
    else if icmp 0 = 8 then
      let found ← kmallocSucceeds env
      if found then
        let _ ← netSendIp env poll rounds src ipIcmp (echoReply icmp len) len

/-! ## TCP -/

/-- A segment goes out with checksum 0 when there is no memory for its copy. -/
def tcpSendSeg (flags : UInt8) (data : Memory) (dlen : Nat) : NetM Unit := do
  if 1500 < (20 + dlen) % 2 ^ 16 then
    return ()
  else
    let s ← get
    let segment := tcpSegment s.ts.sport s.ts.dport s.ts.seq s.ts.ack flags data dlen
    let len := (20 + dlen) % 2 ^ 16
    modify fun s => { s with ts := s.ts.noteAck flags segment }
    let found ← kmallocSucceeds env
    let checksum := if found then tcpChecksum ourIp s.tcpDstIp segment len else 0
    let _ ← netSendIp env poll rounds (·.tcpDstIp) ipTcp (segment.storeLe 16 2 checksum) len
    modify fun s => { s with ts := s.ts.sent flags dlen }

/-- Close the connection after a FIN. The flags are read again: they may be
those of another frame by now. -/
def tcpFinish (payload : Net → Memory) : NetM Unit := do
  let s ← get
  if hasFlag (tcpHeader (payload s)).flags tcpFlagFin then
    modify fun s => { s with ts := { s.ts with state := .closed } }

/-- Take the data and the FIN of a segment and acknowledge them. -/
def tcpTake (payload : Net → Memory) (segment : Memory) (len : Nat) : NetM Unit := do
  modify fun s => { s with ts := s.ts.accept segment len }
  if (tcpHeader segment).increment len ≠ 0 then
    tcpSendSeg env poll rounds tcpFlagAck (fun _ => 0) 0
    tcpFinish payload
  else
    tcpFinish payload

def tcpProcess (payload : Net → Memory) (len : Nat) : NetM Unit := do
  if len < 20 then
    return ()
  else
    let s ← get
    let h := tcpHeader (payload s)
    if h.dstPort ≠ s.ts.sport then
      return ()
    else
      match s.ts.state with
      | .synSent =>
          if hasFlag h.flags tcpFlagSyn ∧ hasFlag h.flags tcpFlagAck then
            modify fun s => { s with ts := s.ts.establish h.seqNum }
            tcpSendSeg env poll rounds tcpFlagAck (fun _ => 0) 0
      | .established =>
          if hasFlag h.flags tcpFlagRst then
            modify fun s => { s with ts := { s.ts with state := .closed } }
          else
            tcpTake env poll rounds payload (payload s) len
      | _ => return ()

/-! ## UDP -/

def udpProcess (payload : Memory) (len : Nat) : NetM Unit := do
  if len < 8 then
    return ()
  else
    let dport := ntohs (payload.loadLe 2 2)
    let dlen := ntohs (payload.loadLe 4 2)
    if dlen < 8 ∨ 1536 < dlen - 8 then
      return ()
    else
      let s ← get
      if ¬s.udpGot ∧ dport = s.udpPort then
        modify fun s => { s with
          udpBuf := s.udpBuf.overwrite 0 (dlen - 8) (payload.window 8)
          udpLen := dlen - 8
          udpGot := true }

/-! ## Dispatch -/

/-- Handle the `len` bytes in a slot of the ring. -/
def dispatch (slot len : Nat) : NetM Unit := do
  if len < 14 then
    return ()
  else
    let s ← get
    let pkt := s.rx.buf slot
    let type := ntohs (pkt.loadLe 12 2)
    if type = ethTypeArp then
      arpProcess pkt len
    else if type ≠ ethTypeIp ∨ len < 34 then
      return ()
    else if pkt 23 = ipIcmp then
      icmpProcess env poll rounds (fun s => (s.rx.buf slot).window 34) (len - 34)
        (fun s => Ip.load (s.rx.buf slot) 26)
    else if pkt 23 = ipTcp then
      tcpProcess env poll rounds (fun s => (s.rx.buf slot).window 34) (len - 34)
    else if pkt 23 = ipUdp then
      udpProcess (pkt.window 34) (len - 34)

/-- Take the frames from the card. -/
def receiveAll (s : Net) : Net :=
  { s with
    rx := (env.frames s.polls).foldl RxRing.receive s.rx
    polls := s.polls + 1 }

def releaseSlot : NetM (Option Unit) := do
  modify fun s => { s with rx := s.rx.advance }
  return none

/-- One round of the loop that empties the ring: a slot is released after it
was handled. -/
def drainRound : NetM (Option Unit) := do
  let s ← get
  if s.rx.head = s.rx.tail then
    return some ()
  else
    modify fun s => { s with rx := s.rx.noteDispatch }
    dispatch env poll rounds s.rx.head (s.rx.len s.rx.head)
    releaseSlot

end

def netPoll (env : Env) (rounds : Nat) : Nat → NetM Unit
  | 0 => failure
  | depth + 1 => do
      modify (receiveAll env)
      Fuelled.loop (drainRound env (netPoll env rounds depth) rounds) rounds

end Dosfs
