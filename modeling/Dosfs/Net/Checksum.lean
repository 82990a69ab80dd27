import Dosfs.Foundation.OnesComplement
import Dosfs.Net.Packet

/-!
# Checksums

`ip_checksum` adds up the words of a packet as the machine reads them, least
significant byte first, and folds the carries. A packet whose checksum field was
zero verifies once the result is stored there.
-/

namespace Dosfs

open Foundation OnesComplement

/-! ## The sum -/

/-- The loop adds up the words of the buffer, as long as 32 bits hold the sum. -/
theorem sumWords_eq {mem : Memory} {p s len : Nat} (h : s + sumLe (mem.loadList p len) < 2 ^ 32) :
    sumWords mem p s len = s + sumLe (mem.loadList p len) := by
  induction len using Nat.twoStepInduction generalizing p s with
  | zero => rfl
  | one => exact Nat.mod_eq_of_lt h
  | more len ih _ =>
      have hload : sumLe (mem.loadList p (len + 2)) =
          mem.loadLe p 2 + sumLe (mem.loadList (p + 2) len) := by
        rw [Memory.loadList_succ, Memory.loadList_succ]
        rfl
      rw [hload] at h ⊢
      rw [sumWords, Nat.mod_eq_of_lt (by omega), ih (by omega), Nat.add_assoc]

theorem foldCarries_eq (n : Nat) : foldCarries n = endAround n := by
  induction n using Nat.strongRecOn with
  | ind n ih =>
      have hhigh : n >>> 16 = n / 2 ^ 16 := Nat.shiftRight_eq_div_pow n 16
      have hlow : n &&& 0xFFFF = n % 2 ^ 16 := Nat.and_two_pow_sub_one_eq_mod n 16
      rw [foldCarries, hhigh, hlow]
      split
      next hcarry =>
        rw [ih _ (by omega)]
        refine endAround_congr ?_ (by omega)
        unfold Nat.ModEq
        omega
      next hnone => exact (endAround_of_le (by omega)).symm

theorem ipChecksum_eq {mem : Memory} {len : Nat} (hlen : len ≤ 65535) :
    ipChecksum mem len = 65535 - endAround (sumLe (mem.loadList 0 len)) := by
  have hle := sumLe_le (mem.loadList 0 len)
  have hfold := endAround_le (sumLe (mem.loadList 0 len))
  rw [Memory.loadList_length] at hle
  rw [ipChecksum, sumWords_eq (by omega), Nat.zero_add, foldCarries_eq,
    Nat.mod_eq_of_lt (by omega)]
  rfl

/-- A packet verifies with its checksum in a field that was zero. -/
theorem ipChecksum_verifies {mem : Memory} {k len : Nat} (heven : k % 2 = 0) (hk : k + 2 ≤ len)
    (hlen : len ≤ 65535) (hzero : mem.loadList k 2 = [0, 0]) :
    Verifies ((mem.storeLe k 2 (ipChecksum mem len)).loadList 0 len) := by
  obtain ⟨rest, rfl⟩ : ∃ rest, len = k + 2 + rest := ⟨len - (k + 2), by omega⟩
  have hsplit (mem : Memory) : mem.loadList 0 (k + 2 + rest) =
      mem.loadList 0 k ++ mem.loadList k 2 ++ mem.loadList (k + 2) rest := by
    rw [Memory.loadList_add, Memory.loadList_add, Nat.zero_add, Nat.zero_add]
  have hstored (c : Nat) :
      (mem.storeLe k 2 c).loadList k 2 = [UInt8.ofNat c, UInt8.ofNat (c / 256)] := by
    rw [Memory.storeLe, Memory.loadList_overwrite_same]
    simp [Memory.loadList, List.range_succ]
  have hverifies := @verifies_of_complement (mem.loadList 0 k) (mem.loadList (k + 2) rest)
    (by rw [Memory.loadList_length]; exact heven)
  rw [← hzero, ← hsplit, ← ipChecksum_eq hlen] at hverifies
  rw [hsplit, hstored]
  unfold Memory.storeLe
  rw [Memory.loadList_overwrite_of_disjoint (by omega),
    Memory.loadList_overwrite_of_disjoint (by omega)]
  exact hverifies

/-! ## The checksum of a string that holds its checksum -/

theorem ipChecksum_eq_zero_iff {mem : Memory} {len : Nat} (hlen : len ≤ 65535) :
    ipChecksum mem len = 0 ↔ Verifies (mem.loadList 0 len) := by
  have hle := endAround_le (sumLe (mem.loadList 0 len))
  rw [ipChecksum_eq hlen, verifies_iff, ← endAround_eq_max_iff]
  omega

/-- No round of the loop wraps: the accumulator is the sum of the words so far. -/
theorem sumWords_exact (mem : Memory) {len : Nat} (hlen : len ≤ 65535) :
    sumWords mem 0 0 len = sumLe (mem.loadList 0 len) ∧ sumLe (mem.loadList 0 len) < 2 ^ 32 := by
  have hle := sumLe_le (mem.loadList 0 len)
  rw [Memory.loadList_length] at hle
  have hlt : sumLe (mem.loadList 0 len) < 2 ^ 32 := by omega
  exact ⟨(sumWords_eq (by rwa [Nat.zero_add])).trans (Nat.zero_add _), hlt⟩

/-- The loop that folds the carries, given up after so many rounds. -/
def foldRounds : Nat → Nat → Option Nat
  | 0, sum => if sum >>> 16 = 0 then some sum else none
  | rounds + 1, sum =>
      if sum >>> 16 = 0 then some sum else foldRounds rounds ((sum &&& 0xFFFF) + sum >>> 16)

theorem foldRounds_done {sum : Nat} (hdone : sum >>> 16 = 0) (rounds : Nat) :
    foldRounds rounds sum = some (foldCarries sum) := by
  have hfold : foldCarries sum = sum := by rw [foldCarries, if_neg (not_not_intro hdone)]
  rw [hfold]
  cases rounds <;> exact if_pos hdone

/-- A round that folds a carry does not change what the loop comes to. -/
theorem foldRounds_succ {sum rounds : Nat}
    (hnext : foldRounds rounds ((sum &&& 0xFFFF) + sum >>> 16) =
      some (foldCarries ((sum &&& 0xFFFF) + sum >>> 16))) :
    foldRounds (rounds + 1) sum = some (foldCarries sum) := by
  by_cases hdone : sum >>> 16 = 0
  · exact foldRounds_done hdone _
  · rw [foldRounds, if_neg hdone, foldCarries, if_pos hdone]
    exact hnext

/-- Two rounds fold all carries of a sum of 32 bits. -/
theorem foldRounds_two {sum : Nat} (hsum : sum < 2 ^ 32) :
    foldRounds 2 sum = some (foldCarries sum) := by
  have hround (n : Nat) : (n &&& 0xFFFF) + n >>> 16 = n % 2 ^ 16 + n / 2 ^ 16 := by
    rw [Nat.and_two_pow_sub_one_eq_mod n 16, Nat.shiftRight_eq_div_pow]
  refine foldRounds_succ (foldRounds_succ (foldRounds_done ?_ 0))
  rw [hround, hround, Nat.shiftRight_eq_div_pow]
  omega

/-- With two bytes cleared and the checksum stored there, the checksum is zero. The checksum of
a string is the complement of the sum of its words with the carries added in: the accumulator
holds the sum of every part of the string, and two rounds fold its carries. -/
theorem ipChecksum_self (mem : Memory) {k len : Nat} (heven : k % 2 = 0) (hk : k + 1 < len)
    (hlen : len ≤ 65535) :
    let cleared := mem.storeLe k 2 0
    let stored := cleared.storeLe k 2 (ipChecksum cleared len)
    ipChecksum stored len = 0 ∧
      (∀ mem' n, n ≤ len → ipChecksum mem' n = 65535 - endAround (sumLe (mem'.loadList 0 n))) ∧
      (∀ mem' n, n ≤ len → sumWords mem' 0 0 n = sumLe (mem'.loadList 0 n) ∧
        sumLe (mem'.loadList 0 n) < 2 ^ 32) ∧
      ∀ mem', foldRounds 2 (sumWords mem' 0 0 len) =
        some (foldCarries (sumWords mem' 0 0 len)) := by
  intro cleared stored
  have hzero : cleared.loadList k 2 = [0, 0] := by
    change (mem.overwrite k 2 _).loadList k 2 = _
    rw [Memory.loadList_overwrite_same]
    simp [Memory.loadList, List.range_succ]
  refine ⟨?_, fun mem' n hn => ipChecksum_eq (hn.trans hlen),
    fun mem' n hn => sumWords_exact mem' (hn.trans hlen), fun mem' => ?_⟩
  · rw [ipChecksum_eq_zero_iff hlen]
    exact ipChecksum_verifies heven hk hlen hzero
  · obtain ⟨hexact, hlt⟩ := sumWords_exact mem' hlen
    rw [hexact]
    exact foldRounds_two hlt

/-- The bytes from 200 to 208, the fifth and sixth of which make room for the checksum. -/
theorem ipChecksum_self_bytes :
    let cleared := Memory.storeLe (fun x => UInt8.ofNat (200 + x)) 4 2 0
    ipChecksum (cleared.storeLe 4 2 (ipChecksum cleared 9)) 9 = 0 ∧
      ipChecksum cleared 9 = 65535 - endAround (sumLe (cleared.loadList 0 9)) :=
  have h := ipChecksum_self (fun x => UInt8.ofNat (200 + x)) (by decide : 4 % 2 = 0)
    (by decide : 4 + 1 < 9) (by decide)
  ⟨h.1, h.2.1 _ 9 (le_refl 9)⟩

/-! ## IP headers -/

/-- A number of two bytes on the wire. -/
def wireWord (n : Nat) : List UInt8 := [UInt8.ofNat (n / 256), UInt8.ofNat n]

theorem htons_eq (n : Nat) : htons n = 256 * (n % 256) + n % 65536 / 256 := by
  have hhigh : (n <<< 8) % 2 ^ 16 = (n % 256) <<< 8 := by
    rw [Nat.shiftLeft_eq, Nat.shiftLeft_eq]
    omega
  rw [htons, hhigh, Nat.lor_comm, Nat.shiftRight_eq_div_pow,
    ← Nat.shiftLeft_add_eq_or_of_lt (by omega), Nat.shiftLeft_eq]
  omega

/-- What `htons` stores is the number on the wire. -/
theorem htons_wire (n : Nat) :
    [UInt8.ofNat (htons n / 256 ^ 0), UInt8.ofNat (htons n / 256 ^ 1)] = wireWord n := by
  have hfirst : UInt8.ofNat (htons n / 256 ^ 0) = UInt8.ofNat (n / 256) := by
    apply UInt8.toNat_inj.mp
    rw [UInt8.toNat_ofNat', UInt8.toNat_ofNat', htons_eq, pow_zero, Nat.div_one]
    change (256 * (n % 256) + n % 65536 / 256) % 256 = n / 256 % 256
    rw [Nat.mul_add_mod]
    omega
  have hsecond : UInt8.ofNat (htons n / 256 ^ 1) = UInt8.ofNat n := by
    apply UInt8.toNat_inj.mp
    rw [UInt8.toNat_ofNat', UInt8.toNat_ofNat', htons_eq, pow_one, Nat.mul_add_div (by decide),
      Nat.div_eq_of_lt (show n % 65536 / 256 < 256 by omega)]
    omega
  rw [hfirst, hsecond, wireWord]

/-- Part of a frame. -/
def part (frame : List UInt8) (start count : Nat) : List UInt8 := (frame.drop start).take count

/-- A frame is an IP packet with these addresses, this protocol and this payload. -/
structure IpFrame (frame : List UInt8) (dstMac : Mac) (dstIp : Ip) (proto : UInt8)
    (payload : List UInt8) : Prop where
  length : frame.length = 34 + payload.length
  dstMac : part frame 0 6 = dstMac.bytes
  srcMac : part frame 6 6 = macAddr.bytes
  ethertype : part frame 12 2 = [0x08, 0x00]
  versionIhl : part frame 14 1 = [0x45]
  totalLen : part frame 16 2 = wireWord (20 + payload.length)
  proto : part frame 23 1 = [proto]
  verifies : Verifies (part frame 14 20)
  srcIp : part frame 26 4 = ourIp.bytes
  dstIp : part frame 30 4 = dstIp.bytes
  payload : frame.drop 34 = payload

theorem part_loadList {mem : Memory} {start count len : Nat} (h : start + count ≤ len) :
    part (mem.loadList 0 len) start count = mem.loadList start count := by
  rw [part, Memory.loadList_drop, Memory.loadList_take, Nat.zero_add, Nat.min_eq_left (by omega)]

section

variable {dstMac : Mac} {dst : Ip} {proto : UInt8} {payload : Memory} {len : Nat}

/-- The header verifies. -/
theorem ipFrame_verifies :
    Verifies ((ipFrame macAddr dstMac ourIp dst proto payload len).loadList 14 20) := by
  unfold ipFrame
  dsimp only
  generalize hframe : Memory.overwrite _ 34 len payload = frame
  have hzero : (frame.window 14).loadList 10 2 = [0, 0] := by
    rw [← hframe]
    rfl
  have hwindow (c : Nat) : (frame.storeLe 24 2 c).window 14 = (frame.window 14).storeLe 10 2 c :=
    @Memory.window_overwrite frame 14 _ 10 2
  have hverifies := @ipChecksum_verifies (frame.window 14) 10 20 (by decide) (by decide)
    (by decide) hzero
  rwa [← hwindow, Memory.loadList_window] at hverifies

/-- The frames of `net_send_ip` are well formed. -/
theorem ipFrame_wellFormed :
    IpFrame ((ipFrame macAddr dstMac ourIp dst proto payload len).loadList 0 (34 + len)) dstMac dst
      proto (payload.loadList 0 len) := by
  have hpart {start count : Nat} (h : start + count ≤ 34) :
      part ((ipFrame macAddr dstMac ourIp dst proto payload len).loadList 0 (34 + len)) start
          count =
        (ipFrame macAddr dstMac ourIp dst proto payload len).loadList start count :=
    part_loadList (by omega)
  constructor
  · rw [Memory.loadList_length, Memory.loadList_length]
  · rw [hpart (by omega)]
    rfl
  · rw [hpart (by omega)]
    rfl
  · rw [hpart (by omega)]
    rfl
  · rw [hpart (by omega)]
    rfl
  · rw [hpart (by omega), Memory.loadList_length, ← htons_wire]
    rfl
  · rw [hpart (by omega)]
    rfl
  · rw [hpart (by omega)]
    exact ipFrame_verifies
  · rw [hpart (by omega)]
    rfl
  · rw [hpart (by omega)]
    rfl
  · rw [Memory.loadList_drop, Nat.zero_add, Nat.add_sub_cancel_left]
    unfold ipFrame Memory.storeLe
    rw [Memory.loadList_overwrite_of_disjoint (by omega), Memory.loadList_overwrite_same]

end

/-! ## ICMP and TCP -/

theorem echoReply_verifies {request : Memory} {len : Nat} (hmin : 4 ≤ len) (hlen : len ≤ 65535) :
    Verifies ((echoReply request len).loadList 0 len) :=
  ipChecksum_verifies (by decide) hmin hlen rfl

theorem echoRequest_verifies (pingId : Nat) : Verifies ((echoRequest pingId).loadList 0 64) :=
  ipChecksum_verifies (by decide) (by decide) (by decide) rfl

/-- The header fields that the checksum of a TCP segment covers besides it. -/
def tcpPseudo (src dst : Ip) (len : Nat) : List UInt8 :=
  src.bytes ++ dst.bytes ++ [0, ipTcp] ++ wireWord len

theorem pseudoHeader_loadList (src dst : Ip) (len : Nat) :
    (pseudoHeader src dst len).loadList 0 12 = tcpPseudo src dst len := rfl

/-- Behind the pseudo-header the copy is the segment, also when a field of it is
stored. -/
theorem copy_loadList {mem data : Memory} {k c len : Nat} (hk : k + 2 ≤ len) :
    ((mem.overwrite 12 len data).storeLe (12 + k) 2 c).loadList 0 (12 + len) =
      mem.loadList 0 12 ++ (data.storeLe k 2 c).loadList 0 len := by
  have hfield : (mem.overwrite 12 len data).storeLe (12 + k) 2 c =
      mem.overwrite 12 len (data.storeLe k 2 c) := by
    funext x
    by_cases hin : 12 ≤ x ∧ x < 12 + len
    · rw [Memory.overwrite_of_mem hin.1 hin.2]
      by_cases hfield : 12 + k ≤ x ∧ x < 12 + k + 2
      · rw [Memory.storeLe, Memory.overwrite_of_mem hfield.1 hfield.2, Memory.storeLe,
          Memory.overwrite_of_mem (by omega) (by omega), Nat.sub_sub]
      · rw [Memory.storeLe, Memory.overwrite_of_notMem (by omega),
          Memory.overwrite_of_mem hin.1 hin.2, Memory.storeLe,
          Memory.overwrite_of_notMem (by omega)]
    · rw [Memory.storeLe, Memory.overwrite_of_notMem (by omega),
        Memory.overwrite_of_notMem (by omega), Memory.overwrite_of_notMem (by omega)]
  rw [hfield, Memory.loadList_add, Nat.zero_add, Memory.loadList_overwrite_same,
    Memory.loadList_overwrite_of_disjoint (by omega)]

/-- A segment verifies over its pseudo-header. -/
theorem tcpChecksum_verifies {src dst : Ip} {data : Memory} {len : Nat} (hmin : 18 ≤ len)
    (hlen : 12 + len < 2 ^ 16) (hzero : data.loadList 16 2 = [0, 0]) :
    Verifies (tcpPseudo src dst len ++
      (data.storeLe 16 2 (tcpChecksum src dst data len)).loadList 0 len) := by
  have hfield : ((pseudoHeader src dst len).overwrite 12 len data).loadList (12 + 16) 2 =
      [0, 0] := by
    rw [← hzero]
    refine List.map_congr_left fun i hi => ?_
    have hlt := List.mem_range.mp hi
    rw [Memory.overwrite_of_mem (by omega) (by omega)]
    congr 1
    omega
  have hverifies := ipChecksum_verifies (by decide) (by omega)
    (show 12 + len ≤ 65535 by omega) hfield
  rw [copy_loadList hmin, pseudoHeader_loadList] at hverifies
  rwa [tcpChecksum, Nat.mod_eq_of_lt hlen]

theorem tcpSegment_unchecked (sport dport seq ack : Nat) (flags : UInt8) (data : Memory)
    (dlen : Nat) : (tcpSegment sport dport seq ack flags data dlen).loadList 16 2 = [0, 0] := rfl

end Dosfs
