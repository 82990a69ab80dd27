import Dosfs.Foundation.Logged
import Dosfs.Net.Emission
import Dosfs.Net.Peer

/-!
# Copies into send buffers

`net_send_ip`, `tcp_send_seg` and `udp_send` build a packet in a buffer of fixed
size on the stack. Each of them adds its header to the length in 16 bits before it
compares it with the size of the buffer, but copies the whole length. Here the
senders note their copies; without the notes they are the senders of the stack.
-/

namespace Dosfs

open Foundation Fuelled Logged

/-! ## The senders and their copies -/

/-- A copy of `count` bytes to `offset` in a buffer of `size` bytes. -/
structure BufferCopy where
  size : Nat
  offset : Nat
  count : Nat
  deriving DecidableEq

def BufferCopy.Inside (copy : BufferCopy) : Prop := copy.offset + copy.count ≤ copy.size

/-- A computation of the stack that notes its copies. -/
abbrev CopyM := Logged Net BufferCopy

section

variable (env : Env) (poll : NetM Unit) (rounds : Nat)

def netSendIpCopying (dstIp : Net → Ip) (proto : UInt8) (payload : Memory) (len : Nat) :
    CopyM Int := do
  let s ← quiet get
  match ← quiet (arpResolve env poll rounds (routeIp (dstIp s))) with
  | none => return -1
  | some mac =>
      if 1500 < (14 + 20 + len) % 2 ^ 16 then
        return -1
      else
        let s ← quiet get
        note ⟨1500, 34, len⟩
        quiet (ne2000Send (ipFrame macAddr mac ourIp (dstIp s) proto payload len)
          ((14 + 20 + len) % 2 ^ 16))
        return 0

/-- `if (dlen) memcpy(buf + 20, data, dlen)` -/
def noteSegmentData (dlen : Nat) : CopyM Unit := do
  if dlen ≠ 0 then
    note ⟨1500, 20, dlen⟩

def tcpSendSegCopying (flags : UInt8) (data : Memory) (dlen : Nat) : CopyM Unit := do
  if 1500 < (20 + dlen) % 2 ^ 16 then
    return ()
  else
    let s ← quiet get
    let segment := tcpSegment s.ts.sport s.ts.dport s.ts.seq s.ts.ack flags data dlen
    let len := (20 + dlen) % 2 ^ 16
    quiet (modify fun s => { s with ts := s.ts.noteAck flags segment })
    noteSegmentData dlen
    let found ← quiet (kmallocSucceeds env)
    let checksum := if found then tcpChecksum ourIp s.tcpDstIp segment len else 0
    let _ ← netSendIpCopying env poll rounds (·.tcpDstIp) ipTcp (segment.storeLe 16 2 checksum) len
    quiet (modify fun s => { s with ts := s.ts.sent flags dlen })

def tcpSendDataCopying (data : Memory) (len : Nat) : CopyM Int := do
  let s ← quiet get
  if s.ts.state ≠ .established then
    return -1
  else
    tcpSendSegCopying env poll rounds (tcpFlagAck ||| tcpFlagPsh) data len
    return len

/-- `if (data && len) memcpy(buf + 8, data, len)`, with data given -/
def noteDatagramData (len : Nat) : CopyM Unit := do
  if len ≠ 0 then
    note ⟨512, 8, len⟩

def udpSendCopying (dstIp : Ip) (dstPort srcPort : Nat) (data : Memory) (len : Nat) :
    CopyM Int := do
  if 512 < (8 + len) % 2 ^ 16 then
    return -1
  else
    noteDatagramData len
    netSendIpCopying env poll rounds (fun _ => dstIp) ipUdp (udpDatagram srcPort dstPort data len)
      ((8 + len) % 2 ^ 16)

end

/-! ## Without the notes -/

section

variable {env : Env} {poll : NetM Unit} {rounds : Nat} {len dlen : Nat}

theorem netSendIpCopying_forgets {dstIp : Net → Ip} {proto : UInt8} {payload : Memory} :
    Forgets (netSendIpCopying env poll rounds dstIp proto payload len)
      (netSendIp env poll rounds dstIp proto payload len) := by
  refine forgets_get_bind fun s => forgets_bind (forgets_quiet _) fun found => ?_
  cases found with
  | none => exact forgets_pure (-1)
  | some mac =>
      refine forgets_ite (forgets_pure (-1)) (forgets_get_bind fun s => forgets_note_bind ?_)
      exact forgets_bind (forgets_quiet _) fun _ => forgets_pure 0

/-- A copy that is made or not, and nothing else. -/
theorem forgets_ite_note_bind {α : Type} {c : Prop} [Decidable c] {copy : BufferCopy}
    {f : Unit → CopyM α} {y : NetM α} (hf : Forgets (f ()) y) :
    Forgets ((do if c then note copy : CopyM Unit) >>= f) y := by
  split
  next => exact forgets_note_bind hf
  next => exact hf

theorem tcpSendSegCopying_forgets {flags : UInt8} {data : Memory} :
    Forgets (tcpSendSegCopying env poll rounds flags data dlen)
      (tcpSendSeg env poll rounds flags data dlen) := by
  refine forgets_ite (forgets_pure ()) (forgets_get_bind fun s => ?_)
  refine forgets_bind (forgets_quiet _) fun _ => forgets_ite_note_bind ?_
  refine forgets_bind (forgets_quiet _) fun found => ?_
  exact forgets_bind netSendIpCopying_forgets fun _ => forgets_quiet _

theorem tcpSendDataCopying_forgets {data : Memory} :
    Forgets (tcpSendDataCopying env poll rounds data len)
      (tcpSendData env poll rounds data len) := by
  refine forgets_get_bind fun s => forgets_ite (forgets_pure (-1)) ?_
  exact forgets_bind tcpSendSegCopying_forgets fun _ => forgets_pure _

theorem udpSendCopying_forgets {dstIp : Ip} {dstPort srcPort : Nat} {data : Memory} :
    Forgets (udpSendCopying env poll rounds dstIp dstPort srcPort data len)
      (udpSend env poll rounds dstIp dstPort srcPort data len) :=
  forgets_ite (forgets_pure (-1)) (forgets_ite_note_bind netSendIpCopying_forgets)

/-! ## Copies inside the buffers -/

/-- Every copy that is executed, from whatever state, stays inside its buffer. -/
def CopiesInside {α : Type} (x : CopyM α) : Prop :=
  ∀ s, ∀ copy ∈ (outcome x (s, [])).2.2, copy.Inside

theorem copiesInside_of_notesOnly {α : Type} {x : CopyM α}
    (h : ∀ k, Within (NotesOnly BufferCopy.Inside) k x) : CopiesInside x := by
  intro s copy hcopy
  exact (h (s, []) copy hcopy).resolve_left List.not_mem_nil

section

variable {k : Net × List BufferCopy}

theorem netSendIpCopying_inside {dstIp : Net → Ip} {proto : UInt8} {payload : Memory}
    (hlen : 34 + len < 2 ^ 16) :
    Within (NotesOnly BufferCopy.Inside) k
      (netSendIpCopying env poll rounds dstIp proto payload len) := by
  refine within_bind (notesOnly_quiet _) fun s _ _ _ => ?_
  refine within_bind (notesOnly_quiet _) fun found _ _ _ => ?_
  cases found with
  | none => exact within_pure (-1)
  | some mac =>
      refine within_ite (fun _ => within_pure (-1)) fun hfits => ?_
      rw [Nat.mod_eq_of_lt hlen] at hfits
      refine within_bind (notesOnly_quiet _) fun s _ _ _ => ?_
      refine within_bind (notesOnly_note (Nat.le_of_not_lt hfits)) fun _ _ _ _ => ?_
      exact within_bind (notesOnly_quiet _) fun _ _ _ _ => within_pure 0

/-- A copy that is made or not. -/
theorem notesOnly_ite_note {c : Prop} [Decidable c] {copy : BufferCopy} (hinside : copy.Inside) :
    Within (NotesOnly BufferCopy.Inside) k (do if c then note copy : CopyM Unit) := by
  exact within_ite (fun _ => notesOnly_note hinside) fun _ => within_pure ()

theorem tcpSendSegCopying_inside {flags : UInt8} {data : Memory} (hlen : 20 + dlen < 2 ^ 16) :
    Within (NotesOnly BufferCopy.Inside) k
      (tcpSendSegCopying env poll rounds flags data dlen) := by
  refine within_ite (fun _ => within_pure ()) fun hfits => ?_
  rw [Nat.mod_eq_of_lt hlen] at hfits
  refine within_bind (notesOnly_quiet _) fun s _ _ _ => ?_
  refine within_bind (notesOnly_quiet _) fun _ _ _ _ => ?_
  refine within_bind (notesOnly_ite_note (Nat.le_of_not_lt hfits)) fun _ _ _ _ => ?_
  refine within_bind (notesOnly_quiet _) fun found _ _ _ => ?_
  refine within_bind (netSendIpCopying_inside ?_) fun _ _ _ _ => notesOnly_quiet _
  omega

theorem tcpSendDataCopying_inside {data : Memory} (hlen : 20 + len < 2 ^ 16) :
    Within (NotesOnly BufferCopy.Inside) k (tcpSendDataCopying env poll rounds data len) := by
  refine within_bind (notesOnly_quiet _) fun s _ _ _ => ?_
  refine within_ite (fun _ => within_pure (-1)) fun _ => ?_
  exact within_bind (tcpSendSegCopying_inside hlen) fun _ _ _ _ => within_pure _

theorem udpSendCopying_inside {dstIp : Ip} {dstPort srcPort : Nat} {data : Memory}
    (hlen : 8 + len < 2 ^ 16) :
    Within (NotesOnly BufferCopy.Inside) k
      (udpSendCopying env poll rounds dstIp dstPort srcPort data len) := by
  refine within_ite (fun _ => within_pure (-1)) fun hfits => ?_
  rw [Nat.mod_eq_of_lt hlen] at hfits
  refine within_bind (notesOnly_ite_note (Nat.le_of_not_lt hfits)) fun _ _ _ _ => ?_
  refine netSendIpCopying_inside ?_
  omega

end

/-! ## Copies that are executed -/

/-- With the hardware address known, a length that passes the check is copied. -/
theorem netSendIpCopying_copies {dstIp : Net → Ip} {proto : UInt8} {payload : Memory} {s : Net}
    {mac : Mac} (hcached : arpLookup s.arpCache (routeIp (dstIp s)) = some mac)
    (hpasses : (14 + 20 + len) % 2 ^ 16 ≤ 1500) :
    ⟨1500, 34, len⟩ ∈
      (outcome (netSendIpCopying env poll rounds dstIp proto payload len) (s, [])).2.2 := by
  have harp : outcome (quiet (arpResolve env poll rounds (routeIp (dstIp s))) : CopyM _) (s, []) =
      (some (some mac), s, []) := by
    rw [outcome_quiet, outcome_arpResolve_of_cached hcached]
  have hstart : outcome (quiet get : CopyM Net) (s, []) = (some s, s, []) := rfl
  rw [netSendIpCopying, outcome_bind_some hstart, outcome_bind_some harp]
  dsimp only
  rw [if_neg (Nat.not_lt.2 hpasses)]
  exact List.mem_singleton_self _

theorem netSendIpCopying_keeps {dstIp : Net → Ip} {proto : UInt8} {payload : Memory}
    {k : Net × List BufferCopy} :
    Within KeepsNotes k (netSendIpCopying env poll rounds dstIp proto payload len) := by
  refine within_bind keepsNotes_quiet fun s _ _ _ => ?_
  refine within_bind keepsNotes_quiet fun found _ _ _ => ?_
  cases found with
  | none => exact within_pure (-1)
  | some mac =>
      refine within_ite (fun _ => within_pure (-1)) fun _ => ?_
      refine within_bind keepsNotes_quiet fun s _ _ _ => ?_
      refine within_bind keepsNotes_note fun _ _ _ _ => ?_
      exact within_bind keepsNotes_quiet fun _ _ _ _ => within_pure 0

/-- A length that passes the check is copied before the address is resolved. -/
theorem tcpSendSegCopying_copies {flags : UInt8} {data : Memory} {s : Net}
    (hpasses : (20 + dlen) % 2 ^ 16 ≤ 1500) (hlen : dlen ≠ 0) :
    ⟨1500, 20, dlen⟩ ∈
      (outcome (tcpSendSegCopying env poll rounds flags data dlen) (s, [])).2.2 := by
  have hstart : outcome (quiet get : CopyM Net) (s, []) = (some s, s, []) := rfl
  rw [tcpSendSegCopying, if_neg (Nat.not_lt.2 hpasses), outcome_bind_some hstart]
  dsimp only
  rw [outcome_bind_some (outcome_quiet _ _), noteSegmentData, if_pos hlen, outcome_note_bind]
  refine mem_of_keepsNotes ?_ (List.mem_singleton_self _)
  refine within_bind keepsNotes_quiet fun found _ _ _ => ?_
  exact within_bind netSendIpCopying_keeps fun _ _ _ _ => keepsNotes_quiet

theorem tcpSendDataCopying_copies {data : Memory} {s : Net} (hstate : s.ts.state = .established)
    (hpasses : (20 + len) % 2 ^ 16 ≤ 1500) (hlen : len ≠ 0) :
    ⟨1500, 20, len⟩ ∈ (outcome (tcpSendDataCopying env poll rounds data len) (s, [])).2.2 := by
  have hstart : outcome (quiet get : CopyM Net) (s, []) = (some s, s, []) := rfl
  rw [tcpSendDataCopying, outcome_bind_some hstart, if_neg (not_not.2 hstate)]
  have hkeeps := @within_bind_after _ _ _ (tcpSendSegCopying env poll rounds
    (tcpFlagAck ||| tcpFlagPsh) data len) (fun _ => (pure (len : Int) : CopyM Int)) (s, [])
    KeepsNotes _ fun _ _ => within_pure _
  exact hkeeps _ (tcpSendSegCopying_copies hpasses hlen)

theorem udpSendCopying_copies {dstIp : Ip} {dstPort srcPort : Nat} {data : Memory} {s : Net}
    (hpasses : (8 + len) % 2 ^ 16 ≤ 512) (hlen : len ≠ 0) :
    ⟨512, 8, len⟩ ∈ (outcome (udpSendCopying env poll rounds dstIp dstPort srcPort data len)
      (s, [])).2.2 := by
  rw [udpSendCopying, if_neg (Nat.not_lt.2 hpasses), noteDatagramData, if_pos hlen,
    outcome_note_bind]
  exact mem_of_keepsNotes netSendIpCopying_keeps (List.mem_singleton_self _)

end

/-- For every length of 16 bits, the copies of a sender stay inside their buffers
from every state if and only if the length and the header in front of it add up to
less than 2^16. -/
theorem send_buffers_iff (len : UInt16) :
    ((∀ env rounds depth dstIp proto payload, CopiesInside
        (netSendIpCopying env (netPoll env rounds depth) rounds dstIp proto payload len.toNat)) ↔
      34 + len.toNat < 2 ^ 16) ∧
    ((∀ env rounds depth data, CopiesInside
        (tcpSendDataCopying env (netPoll env rounds depth) rounds data len.toNat)) ↔
      20 + len.toNat < 2 ^ 16) ∧
    ((∀ env rounds depth dstIp dstPort srcPort data, CopiesInside
        (udpSendCopying env (netPoll env rounds depth) rounds dstIp dstPort srcPort data
          len.toNat)) ↔
      8 + len.toNat < 2 ^ 16) := by
  have hlen := len.toNat_lt
  generalize len.toNat = len at hlen
  have env : Env := ⟨fun _ => [], id, fun _ => true, fun _ => 0⟩
  refine ⟨⟨fun hinside => ?_, fun hlow => ?_⟩, ⟨fun hinside => ?_, fun hlow => ?_⟩,
    ⟨fun hinside => ?_, fun hlow => ?_⟩⟩
  · by_contra hhigh
    have hcopy := hinside env 0 0 (fun _ => gateway) ipTcp (fun _ => 0) cachedNet _
      (netSendIpCopying_copies rfl (by omega))
    simp only [BufferCopy.Inside] at hcopy
    omega
  · exact fun env rounds depth dstIp proto payload =>
      copiesInside_of_notesOnly fun _ => netSendIpCopying_inside hlow
  · by_contra hhigh
    have hcopy := hinside env 0 0 (fun _ => 0) openNet _
      (tcpSendDataCopying_copies rfl (by omega) (by omega))
    simp only [BufferCopy.Inside] at hcopy
    omega
  · exact fun env rounds depth data =>
      copiesInside_of_notesOnly fun _ => tcpSendDataCopying_inside hlow
  · by_contra hhigh
    have hcopy := hinside env 0 0 gateway 0 0 (fun _ => 0) openNet _
      (udpSendCopying_copies (by omega) (by omega))
    simp only [BufferCopy.Inside] at hcopy
    omega
  · exact fun env rounds depth dstIp dstPort srcPort data =>
      copiesInside_of_notesOnly fun _ => udpSendCopying_inside hlow

/-- A length of 65516 bytes passes the check of `tcp_send_seg`, since the segment
seems to be empty. All of them are copied into the buffer of 1500 bytes. -/
theorem segment_overruns_buffer :
    let env : Env := ⟨fun _ => [], id, fun _ => true, fun _ => 0⟩
    ⟨1500, 20, 65516⟩ ∈ (outcome (tcpSendDataCopying env (netPoll env 1 1) 1 (fun _ => 7) 65516)
      (openNet, [])).2.2 ∧ ¬ (⟨1500, 20, 65516⟩ : BufferCopy).Inside := by
  intro env
  refine ⟨tcpSendDataCopying_copies rfl (by decide) (by decide), ?_⟩
  simp only [BufferCopy.Inside]
  decide

end Dosfs
