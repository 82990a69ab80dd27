import Dosfs.Net.Stack

/-!
# Interface of the network stack

The functions that the shell calls, and runs of them. Every one of them waits
by polling the card; `poll` stands for `net_poll` here too.
-/

namespace Dosfs

open Foundation

/-! ## Host names -/

/-- A decimal number at the start of a string, and the rest of the string. -/
def parseNumber : List UInt8 → Nat → Nat × List UInt8
  | c :: p, n =>
      if 0x30 ≤ c ∧ c ≤ 0x39 then parseNumber p ((n * 10 + (c.toNat - 0x30)) % 2 ^ 32)
      else (n, c :: p)
  | [], n => (n, [])

def skipDot : List UInt8 → List UInt8
  | c :: p => if c = 0x2E then p else c :: p
  | [] => []

/-- The address that `tcp_connect` reads off a host string; `none` sends the
string to `dns_resolve`. -/
def hostAddress (host : CString) : Option Ip :=
  let (a, p) := parseNumber host.bytes 0
  let (b, p) := parseNumber (skipDot p) 0
  let (c, p) := parseNumber (skipDot p) 0
  let (d, p) := parseNumber (skipDot p) 0
  if p ≠ [] ∨ (a = 0 ∧ b = 0 ∧ c = 0 ∧ d = 0 ∧ host.bytes.head? ≠ some 0x30) then none
  else some ⟨UInt8.ofNat a, UInt8.ofNat b, UInt8.ofNat c, UInt8.ofNat d⟩

/-- The labels of a name, each after its length; `none` when one is too long. -/
def dnsEncName (name : List UInt8) : Option (List UInt8) :=
  match name with
  | [] => some [0]
  | c :: cs =>
      let label := (c :: cs).takeWhile (· != 0x2E)
      if 63 < label.length then none
      else
        (dnsEncName (((c :: cs).drop label.length).drop 1)).map
          fun rest => UInt8.ofNat label.length :: label ++ rest
termination_by name.length
decreasing_by
  rw [List.length_drop, List.length_drop, List.length_cons]
  omega

/-- The position after the name at `p`, unless it goes on for too long. -/
def dnsSkipName (msg : Memory) : Nat → Nat → Option Nat
  | 0, _ => none
  | rounds + 1, p =>
      if msg p = 0 then some (p + 1)
      else if msg p &&& 0xC0 ≠ 0 then some (p + 2)
      else dnsSkipName msg rounds (p + ((msg p).toNat + 1))

/-- The first 12 bytes of the query are its header. -/
def dnsQuery (enc : List UInt8) : List UInt8 :=
  [0x12, 0x34, 0x01, 0x00, 0, 1, 0, 0, 0, 0, 0, 0] ++ enc ++ [0, 1, 0, 1]

/-- What a reply with the right number says: an address or an error. -/
def dnsAnswer (reply : Memory) (rounds : Nat) : Option (Except Int Ip) :=
  if reply 2 &&& 0x80 ≠ 0 ∧ reply 3 &&& 0x0F = 0 then
    if 0 < (reply 6).toNat * 256 + (reply 7).toNat then do
      let p ← dnsSkipName reply rounds 12
      let p ← dnsSkipName reply rounds (p + 4)
      -- TYPE, CLASS and TTL come before the length of the record
      if (reply p).toNat * 256 + (reply (p + 1)).toNat = 1 ∧
          (reply (p + 8)).toNat * 256 + (reply (p + 9)).toNat = 4 then
        return .ok (Ip.load reply (p + 10))
      else
        return .error (-4)
    else some (.error (-3))
  else some (.error (-2))

section

variable (env : Env) (poll : NetM Unit) (rounds : Nat)

/-! ## Ping -/

def netPing (ip : Nat) : NetM Int := do
  let dst : Ip := ⟨UInt8.ofNat (ip >>> 24), UInt8.ofNat (ip >>> 16), UInt8.ofNat (ip >>> 8),
    UInt8.ofNat ip⟩
  modify fun s => { s with pingId := (s.pingId + 1) % 2 ^ 16, pingOk := false }
  let s ← get
  let t0 ← timerGetTicks env
  let r ← netSendIp env poll rounds (fun _ => dst) ipIcmp (echoRequest s.pingId) 64
  if r ≠ 0 then
    return -1
  else
    Fuelled.loop (waitRound env poll (!·.pingOk) ((t0 + 50) % 2 ^ 32)) rounds
    let s ← get
    if s.pingOk then
      let now ← timerGetTicks env
      modify fun s => { s with pingRtt := (now + 2 ^ 32 - t0) % 2 ^ 32 }
      return Int.bmod ((now + 2 ^ 32 - t0) % 2 ^ 32 : Nat) (2 ^ 32)
    else
      return -2

/-! ## UDP -/

def udpSend (dstIp : Ip) (dstPort srcPort : Nat) (data : Memory) (len : Nat) : NetM Int := do
  if 512 < (8 + len) % 2 ^ 16 then
    return -1
  else
    netSendIp env poll rounds (fun _ => dstIp) ipUdp (udpDatagram srcPort dstPort data len)
      ((8 + len) % 2 ^ 16)

/-- One round of `udp_recv`: the bytes copied out, or `none` for -1. -/
def udpRecvRound (max deadline : Nat) : NetM (Option (Option (List UInt8))) := do
  let now ← timerGetTicks env
  if now < deadline then
    poll
    let s ← get
    if s.udpGot then
      modify fun s => { s with udpGot := false }
      return some (some (s.udpBuf.loadList 0 (min s.udpLen max)))
    else
      return none
  else
    return some none

def udpRecv (port max : Nat) : NetM (Option (List UInt8)) := do
  modify fun s => { s with udpPort := port, udpGot := false }
  let deadline ← deadlineIn env 50
  Fuelled.loop (udpRecvRound env poll max deadline) rounds

/-! ## DNS -/

/-- The loop of `dns_resolve`. What a shorter datagram leaves of an earlier
one in the reply buffer stays there. -/
def dnsAwait (srcPort deadline : Nat) : Nat → Memory → NetM (Except Int Ip)
  | 0, _ => failure
  | fuel + 1, reply => do
      let now ← timerGetTicks env
      if now < deadline then
        match ← udpRecv env poll rounds srcPort 512 with
        | none => dnsAwait srcPort deadline fuel reply
        | some bytes =>
            let reply := reply.storeList 0 bytes
            if 12 < bytes.length ∧ reply 0 = 0x12 ∧ reply 1 = 0x34 then
              match dnsAnswer reply rounds with
              | none => failure
              | some answer => return answer
            else
              dnsAwait srcPort deadline fuel reply
      else
        return .error (-1)

def dnsResolve (hostname : CString) : NetM (Except Int Ip) := do
  let s ← get
  modify fun s => { s with tcpEphPort := (s.tcpEphPort + 1) % 2 ^ 16 }
  match dnsEncName hostname.bytes with
  | none => return .error (-5)
  | some enc =>
      let query := dnsQuery enc
      let r ← udpSend env poll rounds ⟨10, 0, 2, 3⟩ 53 s.tcpEphPort
        (fun k => query.getD k 0) (query.length % 2 ^ 16)
      if r ≠ 0 then
        return .error (-1)
      else
        let deadline ← deadlineIn env 100
        dnsAwait env poll rounds s.tcpEphPort deadline rounds env.garbage

/-! ## TCP -/

/-- What `tcp_connect` does once it has the address. -/
def tcpOpen (ip : Ip) (port : Nat) : NetM Int := do
  modify fun s => { s with
    tcpDstIp := ip
    ts := s.ts.start s.tcpEphPort port
    tcpEphPort := (s.tcpEphPort + 1) % 2 ^ 16 }
  tcpSendSeg env poll rounds tcpFlagSyn (fun _ => 0) 0
  let deadline ← deadlineIn env 50
  Fuelled.loop (waitRound env poll (·.ts.state = .synSent) deadline) rounds
  let s ← get
  if s.ts.state = .established then
    return 0
  else
    modify fun s => { s with ts := { s.ts with state := .closed } }
    return -1

def tcpConnect (host : CString) (port : Nat) : NetM Int := do
  match hostAddress host with
  | some ip => tcpOpen env poll rounds ip port
  | none =>
      match ← dnsResolve env poll rounds host with
      | .error _ => return -2
      | .ok ip => tcpOpen env poll rounds ip port

def tcpSendData (data : Memory) (len : Nat) : NetM Int := do
  let s ← get
  if s.ts.state ≠ .established then
    return -1
  else
    tcpSendSeg env poll rounds (tcpFlagAck ||| tcpFlagPsh) data len
    return len

/-- One round of `tcp_recv`: the bytes copied out, or `none` for -1. -/
def tcpRecvRound (max deadline : Nat) : NetM (Option (Option (List UInt8))) := do
  let now ← timerGetTicks env
  if now < deadline then
    poll
    let s ← get
    if s.ts.rxRead < s.ts.rxLen then
      let n := min (s.ts.rxLen - s.ts.rxRead) max
      modify fun s => { s with ts := s.ts.deliver n }
      return some (some (s.ts.unread n))
    else if s.ts.state = .closed then
      return some none
    else
      return none
  else
    return some (some [])

def tcpRecv (max : Nat) : NetM (Option (List UInt8)) := do
  let s ← get
  if s.ts.state = .closed ∧ s.ts.rxLen ≤ s.ts.rxRead then
    return none
  else
    let deadline ← deadlineIn env 50
    Fuelled.loop (tcpRecvRound env poll max deadline) rounds

/-- Send a FIN and wait for the connection to be closed. -/
def tcpHangUp : NetM Unit := do
  tcpSendSeg env poll rounds (tcpFlagFin ||| tcpFlagAck) (fun _ => 0) 0
  modify fun s => { s with ts := { s.ts with state := .closing } }
  let deadline ← deadlineIn env 30
  Fuelled.loop (waitRound env poll (·.ts.state ≠ .closed) deadline) rounds

def tcpClose : NetM Unit := do
  let s ← get
  if s.ts.state = .established ∨ s.ts.state = .finWait then
    tcpHangUp env poll rounds
    modify fun s => { s with ts := { s.ts with state := .closed } }
  else
    modify fun s => { s with ts := { s.ts with state := .closed } }

end

/-! ## Runs -/

/-- A call of one of the functions of `net.h`. -/
inductive NetOp
  | poll
  | resolve (ip : Ip)
  | ping (ip : Nat)
  | udpSend (dstIp : Ip) (dstPort srcPort : Nat) (data : List UInt8)
  | udpRecv (port max : Nat)
  | dns (hostname : CString)
  | connect (host : CString) (port : Nat)
  | sendData (data : List UInt8)
  | recv (max : Nat)
  | close
  /-- `tcp_process` on a segment in a buffer of the caller. -/
  | segment (bytes : List UInt8)

inductive NetAnswer
  | done
  | code (n : Int)
  | mac (found : Option Mac)
  | bytes (copied : Option (List UInt8))
  | address (found : Except Int Ip)

variable (env : Env) (rounds depth : Nat)

/-- A call returns, or it uses up the bounds on its loops. -/
def perform : NetOp → NetM NetAnswer
  | .poll => do
      netPoll env rounds depth
      return .done
  | .resolve ip => .mac <$> arpResolve env (netPoll env rounds depth) rounds ip
  | .ping ip => .code <$> netPing env (netPoll env rounds depth) rounds ip
  | .udpSend dstIp dstPort srcPort data =>
      .code <$> udpSend env (netPoll env rounds depth) rounds dstIp dstPort srcPort
        (fun k => data.getD k 0) (data.length % 2 ^ 16)
  | .udpRecv port max => .bytes <$> udpRecv env (netPoll env rounds depth) rounds port max
  | .dns hostname => .address <$> dnsResolve env (netPoll env rounds depth) rounds hostname
  | .connect host port => .code <$> tcpConnect env (netPoll env rounds depth) rounds host port
  | .sendData data =>
      .code <$> tcpSendData env (netPoll env rounds depth) rounds
        (fun k => data.getD k 0) (data.length % 2 ^ 16)
  | .recv max => .bytes <$> tcpRecv env (netPoll env rounds depth) rounds max
  | .close => do
      tcpClose env (netPoll env rounds depth) rounds
      return .done
  | .segment bytes => do
      tcpProcess env (netPoll env rounds depth) rounds (fun _ k => bytes.getD k 0)
        (bytes.length % 2 ^ 16)
      return .done

/-- Calls one after the other, until one of them does not return. -/
def performAll : List NetOp → NetM (List NetAnswer)
  | [] => return []
  | op :: ops => do
      let answer ← perform env rounds depth op
      let answers ← performAll ops
      return answer :: answers

end Dosfs
