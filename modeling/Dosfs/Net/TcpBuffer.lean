import Dosfs.Net.Moves

/-!
# The receive buffer of a connection

A segment may say anything about where its data starts. When it points past
its own end the length of the data wraps around, and the sum with what is
buffered already is too large for the buffer, so nothing is copied.
-/

namespace Dosfs

open Foundation Fuelled

/-- The header of a segment has at most 15 words. -/
theorem dataOff_le (segment : Memory) : (tcpHeader segment).dataOff ≤ 60 := by
  have hnibble : (segment 12 >>> 4 &&& 0xF).toNat ≤ 15 := by
    rw [UInt8.toNat_and]
    exact Nat.and_le_right
  have hoff : (tcpHeader segment).dataOff = (segment 12 >>> 4 &&& 0xF).toNat * 4 := rfl
  omega

/-- Data that fits the buffer lies inside its segment. -/
theorem dataOff_add_dataLen_le {segment : Memory} {len : Nat} (hlen : 20 ≤ len)
    (hfit : (tcpHeader segment).dataLen len < 8192) :
    (tcpHeader segment).dataOff + (tcpHeader segment).dataLen len ≤ len := by
  have hoff := dataOff_le segment
  unfold TcpHeader.dataLen at *
  omega

theorem dataLen_lt (h : TcpHeader) (len : Nat) : h.dataLen len < 2 ^ 16 :=
  Nat.mod_lt _ (by decide)

namespace TcpState

variable {t : TcpState} {segment : Memory} {len : Nat}

theorem accept_of_nothing (hinc : (tcpHeader segment).increment len = 0) :
    t.accept segment len = t := by
  have hdlen : (tcpHeader segment).dataLen len = 0 := Nat.eq_zero_of_add_eq_zero_right hinc
  simp [accept, acknowledge, keep, hinc, hdlen]

/-- Data for which there is room is appended. -/
theorem accept_of_fits (hdlen : 0 < (tcpHeader segment).dataLen len)
    (hfits : t.rxLen + (tcpHeader segment).dataLen len < 8192) :
    t.accept segment len =
      { t with
        rxBuf := t.rxBuf.overwrite t.rxLen ((tcpHeader segment).dataLen len)
          (segment.window (tcpHeader segment).dataOff)
        rxLen := t.rxLen + (tcpHeader segment).dataLen len
        copies := t.copies ++ [⟨t.rxLen, (tcpHeader segment).dataOff,
          (tcpHeader segment).dataLen len, len⟩]
        ack := ((tcpHeader segment).seqNum + (tcpHeader segment).increment len) % 2 ^ 32
        talk := { t.talk with arrived := t.talk.arrived ++ [t.arrival segment len] } } := by
  have hsum : (t.rxLen + (tcpHeader segment).dataLen len) % 2 ^ 32 =
      t.rxLen + (tcpHeader segment).dataLen len := Nat.mod_eq_of_lt (by omega)
  have hinc : (tcpHeader segment).increment len ≠ 0 := by
    unfold TcpHeader.increment
    omega
  have hkeep : t.keep segment (tcpHeader segment).dataOff ((tcpHeader segment).dataLen len) len =
      { t with
        rxBuf := t.rxBuf.overwrite t.rxLen ((tcpHeader segment).dataLen len)
          (segment.window (tcpHeader segment).dataOff)
        rxLen := t.rxLen + (tcpHeader segment).dataLen len
        copies := t.copies ++ [⟨t.rxLen, (tcpHeader segment).dataOff,
          (tcpHeader segment).dataLen len, len⟩] } := by
    rw [keep, hsum, if_pos ⟨hdlen, hfits⟩]
  rw [accept, hkeep, acknowledge, if_pos hinc]

/-- Other data is acknowledged all the same. -/
theorem accept_of_not_fits (hrx : t.rxLen < 8192) (hinc : (tcpHeader segment).increment len ≠ 0)
    (hnot : ¬(0 < (tcpHeader segment).dataLen len ∧
      t.rxLen + (tcpHeader segment).dataLen len < 8192)) :
    t.accept segment len =
      { t with
        ack := ((tcpHeader segment).seqNum + (tcpHeader segment).increment len) % 2 ^ 32
        talk := { t.talk with arrived := t.talk.arrived ++ [t.arrival segment len] } } := by
  have hlt := dataLen_lt (tcpHeader segment) len
  have hsum : (t.rxLen + (tcpHeader segment).dataLen len) % 2 ^ 32 =
      t.rxLen + (tcpHeader segment).dataLen len := Nat.mod_eq_of_lt (by omega)
  have hkeep : t.keep segment (tcpHeader segment).dataOff ((tcpHeader segment).dataLen len) len =
      t := if_neg (by rwa [hsum])
  rw [accept, hkeep, acknowledge, if_pos hinc]

end TcpState

/-- The indices of the buffer are in order and inside it, and so is every copy
into it; no copy reads past the end of its segment. -/
structure BufferSafe (t : TcpState) : Prop where
  read_le : t.rxRead ≤ t.rxLen
  len_le : t.rxLen ≤ 8191
  dest : ∀ c ∈ t.copies, c.dest + c.count ≤ 8192
  source : ∀ c ∈ t.copies, c.source + c.count ≤ c.length

namespace BufferSafe

theorem accept {t : TcpState} (h : BufferSafe t) {segment : Memory} {len : Nat} (hlen : 20 ≤ len) :
    BufferSafe (t.accept segment len) := by
  have hrx : t.rxLen < 8192 := Nat.lt_succ_of_le h.len_le
  by_cases hinc : (tcpHeader segment).increment len = 0
  · rwa [TcpState.accept_of_nothing hinc]
  · by_cases hfits : 0 < (tcpHeader segment).dataLen len ∧
        t.rxLen + (tcpHeader segment).dataLen len < 8192
    · have hfit : (tcpHeader segment).dataLen len < 8192 := by omega
      have hsource := dataOff_add_dataLen_le hlen hfit
      rw [TcpState.accept_of_fits hfits.1 hfits.2]
      constructor
      · exact h.read_le.trans (Nat.le_add_right _ _)
      · exact Nat.le_of_lt_succ hfits.2
      · intro c hc
        rcases List.mem_append.1 hc with hold | hnew
        · exact h.dest c hold
        · rw [List.mem_singleton.1 hnew]
          exact hfits.2.le
      · intro c hc
        rcases List.mem_append.1 hc with hold | hnew
        · exact h.source c hold
        · rw [List.mem_singleton.1 hnew]
          exact hsource
    · rw [TcpState.accept_of_not_fits hrx hinc hfits]
      exact ⟨h.read_le, h.len_le, h.dest, h.source⟩

/-- Every step of a connection keeps its buffer safe. -/
theorem step {t t' : TcpState} (hstep : TcpStep t t') (h : BufferSafe t) : BufferSafe t' := by
  cases hstep with
  | accept segment len hlen _ => exact h.accept hlen
  | deliver n hn => exact ⟨hn, h.len_le, h.dest, h.source⟩
  | start sport dport => exact ⟨Nat.le_refl 0, Nat.zero_le 8191, h.dest, h.source⟩
  | noteAck flags data dlen _ =>
      unfold TcpState.noteAck
      split
      next => exact ⟨h.read_le, h.len_le, h.dest, h.source⟩
      next => exact h
  | establish | sent | closed | closing => exact ⟨h.read_le, h.len_le, h.dest, h.source⟩

end BufferSafe

/-- The connection where a run of calls from the start ends or stops. -/
def connectionAfter (env : Env) (rounds depth : Nat) (ops : List NetOp) : TcpState :=
  (outcome (performAll env rounds depth ops) startNet).2.ts

/-- What holds of an unused connection and is kept by every step of a connection
holds wherever a run gets. -/
theorem connectionAfter_inv {env : Env} {rounds depth : Nat} {ops : List NetOp}
    {I : TcpState → Prop} (hstep : ∀ t t', TcpStep t t' → I t → I t') (hinit : I startNet.ts) :
    I (connectionAfter env rounds depth ops) :=
  (performAll_moves ops).tcp_inv hstep hinit

theorem bufferSafe_start : BufferSafe startNet.ts where
  read_le := Nat.le_refl 0
  len_le := Nat.zero_le 8191
  dest _ hc := absurd hc List.not_mem_nil
  source _ hc := absurd hc List.not_mem_nil

/-- Nothing has been written behind the buffer. -/
def CleanBehind (t : TcpState) : Prop := ∀ x, 8192 ≤ x → t.rxBuf x = 0

theorem CleanBehind.step {t t' : TcpState} (hstep : TcpStep t t') (hsafe : BufferSafe t)
    (h : CleanBehind t) : CleanBehind t' := by
  cases hstep with
  | accept segment len hlen _ =>
      have hrx : t.rxLen < 8192 := Nat.lt_succ_of_le hsafe.len_le
      by_cases hinc : (tcpHeader segment).increment len = 0
      · rwa [TcpState.accept_of_nothing hinc]
      · by_cases hfits : 0 < (tcpHeader segment).dataLen len ∧
            t.rxLen + (tcpHeader segment).dataLen len < 8192
        · rw [TcpState.accept_of_fits hfits.1 hfits.2]
          intro x hx
          exact (Memory.overwrite_of_notMem (by omega)).trans (h x hx)
        · rw [TcpState.accept_of_not_fits hrx hinc hfits]
          exact fun x hx => h x hx
  | noteAck flags data dlen _ =>
      unfold TcpState.noteAck
      split
      next => exact fun x hx => h x hx
      next => exact h
  | start | establish | sent | closed | closing | deliver => exact fun x hx => h x hx

/-- What the code keeps of a connection, without the record of it. -/
def TcpState.unrecorded (t : TcpState) : TcpState := { t with talk := Talk.start }

theorem tcpHeader_congr {segment segment' : Memory} {len : Nat} (hlen : 20 ≤ len)
    (hsame : ∀ k < len, segment k = segment' k) : tcpHeader segment = tcpHeader segment' := by
  have hload (addr count : Nat) (hin : addr + count ≤ 20) :
      segment.loadLe addr count = segment'.loadLe addr count :=
    Memory.loadLe_congr fun x _ hx => hsame x (by omega)
  rw [tcpHeader, tcpHeader, hload 2 2 (by decide), hload 4 4 (by decide), hsame 12 (by omega),
    hsame 13 (by omega)]

/-- The bytes of a segment from its length on do not matter. -/
theorem BufferSafe.accept_congr {t : TcpState} (h : BufferSafe t) {segment segment' : Memory}
    {len : Nat} (hlen : 20 ≤ len) (hsame : ∀ k < len, segment k = segment' k) :
    (t.accept segment len).unrecorded = (t.accept segment' len).unrecorded := by
  have hheader := tcpHeader_congr hlen hsame
  have hrx : t.rxLen < 8192 := Nat.lt_succ_of_le h.len_le
  by_cases hinc : (tcpHeader segment).increment len = 0
  · rw [TcpState.accept_of_nothing hinc, TcpState.accept_of_nothing (hheader ▸ hinc)]
  · by_cases hfits : 0 < (tcpHeader segment).dataLen len ∧
        t.rxLen + (tcpHeader segment).dataLen len < 8192
    · -- the data lies inside the segment
      have hin : (tcpHeader segment).dataOff + (tcpHeader segment).dataLen len ≤ len :=
        dataOff_add_dataLen_le hlen (by omega)
      have hbuf : t.rxBuf.overwrite t.rxLen ((tcpHeader segment).dataLen len)
            (segment.window (tcpHeader segment).dataOff) =
          t.rxBuf.overwrite t.rxLen ((tcpHeader segment).dataLen len)
            (segment'.window (tcpHeader segment).dataOff) := by
        funext x
        by_cases hx : t.rxLen ≤ x ∧ x < t.rxLen + (tcpHeader segment).dataLen len
        · rw [Memory.overwrite_of_mem hx.1 hx.2, Memory.overwrite_of_mem hx.1 hx.2]
          exact hsame _ (by omega)
        · rw [Memory.overwrite_of_notMem (by omega), Memory.overwrite_of_notMem (by omega)]
      rw [TcpState.accept_of_fits hfits.1 hfits.2, hbuf,
        TcpState.accept_of_fits (hheader ▸ hfits.1) (hheader ▸ hfits.2), ← hheader]
      rfl
    · rw [TcpState.accept_of_not_fits hrx hinc hfits,
        TcpState.accept_of_not_fits hrx (hheader ▸ hinc) (hheader ▸ hfits), ← hheader]
      rfl

/-- Whatever segments arrive and whatever is called in between, the receive
buffer stays safe: nothing is written behind it, and the segment that comes
next is not read behind its end. -/
theorem tcp_buffer_safe (env : Env) (rounds depth : Nat) (ops : List NetOp) :
    let t := connectionAfter env rounds depth ops
    BufferSafe t ∧ CleanBehind t ∧
      ∀ segment segment' len, 20 ≤ len → (∀ k < len, segment k = segment' k) →
        (t.accept segment len).unrecorded = (t.accept segment' len).unrecorded := by
  intro t
  have hinv : BufferSafe t ∧ CleanBehind t :=
    connectionAfter_inv (I := fun t => BufferSafe t ∧ CleanBehind t)
      (fun t t' hstep h => ⟨h.1.step hstep, h.2.step hstep h.1⟩) ⟨bufferSafe_start, fun _ _ => rfl⟩
  exact ⟨hinv.1, hinv.2, fun _ _ _ hlen hsame => hinv.1.accept_congr hlen hsame⟩

end Dosfs
