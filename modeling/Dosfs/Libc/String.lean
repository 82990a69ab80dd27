import Mathlib.Data.List.GetD
import Mathlib.Data.List.TakeWhile
import Dosfs.Foundation.ByteMemory

/-!
# String routines of the kernel

The comparison routines of `libc/string.c` on byte strings. A C string is kept
without its terminating NUL, so the loops that stop at the terminator recurse
on the list of bytes.
-/

namespace Dosfs

/-- A NUL-terminated string, kept without the terminator. -/
@[ext] structure CString where
  bytes : List UInt8
  noNul : ∀ b ∈ bytes, b ≠ 0
  deriving DecidableEq

namespace CString

/-- The string that starts a buffer: its bytes before the first NUL. -/
def ofBuffer (buffer : List UInt8) : CString where
  bytes := buffer.takeWhile (· != 0)
  noNul b hb := by simpa using List.mem_takeWhile_imp hb

theorem ofBuffer_bytes (buffer : List UInt8) (h : ∀ b ∈ buffer, b ≠ 0) :
    (ofBuffer buffer).bytes = buffer :=
  List.takeWhile_eq_self_iff.mpr fun b hb => by simpa using h b hb

end CString

/-- The case fold that `strcasecmp` and the FAT name encoder apply to a byte. -/
def toUpper (c : UInt8) : UInt8 :=
  -- the letters `a` to `z`
  if 0x61 ≤ c ∧ c ≤ 0x7A then c - 32 else c

theorem toUpper_toUpper (c : UInt8) : toUpper (toUpper c) = toUpper c := by
  unfold toUpper
  grind

theorem toUpper_ne_zero {c : UInt8} (hc : c ≠ 0) : toUpper c ≠ 0 := by
  unfold toUpper
  grind

/-- The name with its ASCII letters folded to upper case. -/
def CString.upper (s : CString) : CString where
  bytes := s.bytes.map toUpper
  noNul b hb := by
    obtain ⟨c, hc, rfl⟩ := List.mem_map.mp hb
    exact toUpper_ne_zero (s.noNul c hc)

@[simp] theorem CString.upper_bytes (s : CString) : s.upper.bytes = s.bytes.map toUpper := rfl

/-- `memcmp`: the difference of the first bytes that differ. -/
def memcmp : List UInt8 → List UInt8 → Int
  | a :: as, b :: bs => if a ≠ b then a.toNat - b.toNat else memcmp as bs
  | _, _ => 0

theorem memcmp_eq_zero_iff {as bs : List UInt8} (hlength : as.length = bs.length) :
    memcmp as bs = 0 ↔ as = bs := by
  induction as generalizing bs with
  | nil =>
      cases bs with
      | nil => simp [memcmp]
      | cons b bs => simp at hlength
  | cons a as ih =>
      cases bs with
      | nil => simp at hlength
      | cons b bs =>
          by_cases heq : a = b
          · subst b
            simpa [memcmp] using ih (by simpa using hlength)
          · have hne : a.toNat ≠ b.toNat := fun h => heq (UInt8.toNat_inj.mp h)
            simp only [memcmp, if_pos heq, List.cons.injEq, heq, false_and, iff_false]
            omega

/-- The loop of `strcasecmp`, with an exhausted list for the NUL byte. -/
def strcasecmpLoop : List UInt8 → List UInt8 → Int
  | a :: as, b :: bs =>
      if toUpper a ≠ toUpper b then (toUpper a).toNat - (toUpper b).toNat
      else strcasecmpLoop as bs
  | as, bs => (as.headD 0).toNat - (bs.headD 0).toNat

def strcasecmp (a b : CString) : Int := strcasecmpLoop a.bytes b.bytes

private theorem strcasecmpLoop_eq_zero_iff {as bs : List UInt8}
    (has : ∀ a ∈ as, a ≠ 0) (hbs : ∀ b ∈ bs, b ≠ 0) :
    strcasecmpLoop as bs = 0 ↔ as.map toUpper = bs.map toUpper := by
  induction as generalizing bs with
  | nil =>
      cases bs with
      | nil => simp [strcasecmpLoop]
      | cons b bs =>
          have hb : b.toNat ≠ 0 := fun h => hbs b List.mem_cons_self (UInt8.toNat_inj.mp h)
          simp [strcasecmpLoop, hb]
  | cons a as ih =>
      cases bs with
      | nil =>
          have ha : a.toNat ≠ 0 := fun h => has a List.mem_cons_self (UInt8.toNat_inj.mp h)
          simp [strcasecmpLoop, ha]
      | cons b bs =>
          have htail := ih (fun x hx => has x (List.mem_cons_of_mem _ hx))
            (fun x hx => hbs x (List.mem_cons_of_mem _ hx))
          by_cases heq : toUpper a = toUpper b
          · simpa [strcasecmpLoop, heq] using htail
          · have hne : (toUpper a).toNat ≠ (toUpper b).toNat :=
              fun h => heq (UInt8.toNat_inj.mp h)
            simp only [strcasecmpLoop, ne_eq, heq, not_false_eq_true, if_true, List.map_cons,
              List.cons.injEq, false_and, iff_false]
            omega

/-- Two names compare equal exactly when their upper-cased forms agree. -/
theorem strcasecmp_eq_zero_iff {a b : CString} : strcasecmp a b = 0 ↔ a.upper = b.upper := by
  have hbytes := strcasecmpLoop_eq_zero_iff a.noNul b.noNul
  simpa [strcasecmp, CString.upper] using hbytes

/-- The loop of `strcmp`, with an exhausted list for the NUL byte. -/
def strcmpLoop : List UInt8 → List UInt8 → Int
  | a :: as, b :: bs => if a = b then strcmpLoop as bs else a.toNat - b.toNat
  | as, bs => (as.headD 0).toNat - (bs.headD 0).toNat

def strcmp (a b : CString) : Int := strcmpLoop a.bytes b.bytes

private theorem strcmpLoop_eq_zero_iff {as bs : List UInt8}
    (has : ∀ a ∈ as, a ≠ 0) (hbs : ∀ b ∈ bs, b ≠ 0) : strcmpLoop as bs = 0 ↔ as = bs := by
  induction as generalizing bs with
  | nil =>
      cases bs with
      | nil => simp [strcmpLoop]
      | cons b bs =>
          have hb : b.toNat ≠ 0 := fun h => hbs b List.mem_cons_self (UInt8.toNat_inj.mp h)
          simp [strcmpLoop, hb]
  | cons a as ih =>
      cases bs with
      | nil =>
          have ha : a.toNat ≠ 0 := fun h => has a List.mem_cons_self (UInt8.toNat_inj.mp h)
          simp [strcmpLoop, ha]
      | cons b bs =>
          have htail := ih (fun x hx => has x (List.mem_cons_of_mem _ hx))
            (fun x hx => hbs x (List.mem_cons_of_mem _ hx))
          by_cases heq : a = b
          · simpa [strcmpLoop, heq] using htail
          · have hne : a.toNat ≠ b.toNat := fun h => heq (UInt8.toNat_inj.mp h)
            simp only [strcmpLoop, heq, if_false, List.cons.injEq, false_and, iff_false]
            omega

/-- Two names compare equal exactly when they are. -/
theorem strcmp_eq_zero_iff {a b : CString} : strcmp a b = 0 ↔ a = b := by
  rw [strcmp, strcmpLoop_eq_zero_iff a.noNul b.noNul, CString.ext_iff]

def memset (mem : Foundation.Memory) (dest : Nat) (c : UInt8) (n : Nat) : Foundation.Memory :=
  mem.overwrite dest n fun _ => c

/-- Byte by byte, so a copy to an overlapping higher address repeats bytes. -/
def memcpy (mem : Foundation.Memory) (dest src : Nat) : Nat → Foundation.Memory
  | 0 => mem
  | n + 1 => memcpy (mem.storeByte dest (mem src)) (dest + 1) (src + 1) n

theorem memcpy_of_notMem {mem : Foundation.Memory} {dest src n x : Nat}
    (hx : x < dest ∨ dest + n ≤ x) : memcpy mem dest src n x = mem x := by
  induction n generalizing mem dest src with
  | zero => rfl
  | succ n ih =>
      rw [memcpy, ih (by omega), Foundation.Memory.storeByte_of_ne (by omega)]

/-- A copy between ranges that do not overlap. -/
theorem memcpy_of_mem {mem : Foundation.Memory} {dest src n : Nat}
    (hapart : src + n ≤ dest ∨ dest + n ≤ src) {i : Nat} (hi : i < n) :
    memcpy mem dest src n (dest + i) = mem (src + i) := by
  induction n generalizing mem dest src i with
  | zero => exact absurd hi (Nat.not_lt_zero i)
  | succ n ih =>
      rw [memcpy]
      cases i with
      | zero =>
          rw [memcpy_of_notMem (by omega)]
          exact Foundation.Memory.storeByte_same
      | succ i =>
          have hrest := @ih (mem.storeByte dest (mem src)) (dest + 1) (src + 1) (by omega) i
            (Nat.lt_of_succ_lt_succ hi)
          rw [Nat.add_right_comm, Nat.add_right_comm src] at hrest
          exact hrest.trans (Foundation.Memory.storeByte_of_ne (by omega))

/-- A source shorter than `n` is padded, with one NUL more than there is room
for: the loop that stops at the terminator has passed it already. -/
def strncpy (dest : Foundation.Memory) (src : CString) (n : Nat) : Foundation.Memory :=
  dest.storeList 0
    (if src.bytes.length < n then
      src.bytes ++ List.replicate (n - src.bytes.length + 1) 0
    else src.bytes.take n)

theorem strncpy_apply (dest : Foundation.Memory) (src : CString) {n x : Nat} (hx : x < n) :
    strncpy dest src n x = src.bytes.getD x 0 := by
  unfold strncpy
  split
  next hshort =>
    rw [Foundation.Memory.storeList, Foundation.Memory.overwrite_of_mem (Nat.zero_le x)
      (by simp; omega), Nat.sub_zero]
    by_cases hin : x < src.bytes.length
    · rw [List.getD_append _ _ _ _ hin]
    · rw [List.getD_append_right _ _ _ _ (by omega), List.getD_eq_default src.bytes 0 (by omega)]
      simp [List.getD]
  next hlong =>
    rw [Foundation.Memory.storeList, Foundation.Memory.overwrite_of_mem (Nat.zero_le x)
      (by simp; omega), Nat.sub_zero]
    simp [List.getD, hx]

/-- The name in a buffer that `strncpy` filled and whose last byte was then set
to NUL: the source, cut off in front of that byte. -/
theorem ofBuffer_strncpy (dest : Foundation.Memory) (src : CString) (n : Nat) :
    (CString.ofBuffer (((strncpy dest src n).storeByte n 0).loadList 0 (n + 1))).bytes =
      src.bytes.take n := by
  have hbyte (x : Nat) (hx : x < n + 1) :
      (strncpy dest src n).storeByte n 0 x = (src.bytes.take n).getD x 0 := by
    by_cases hlast : x = n
    · rw [hlast, Foundation.Memory.storeByte_same, List.getD_eq_default _ _ (by simp)]
    · rw [Foundation.Memory.storeByte_of_ne hlast, strncpy_apply dest src (by omega)]
      simp [List.getD, show x < n by omega]
  have hbuffer : ((strncpy dest src n).storeByte n 0).loadList 0 (n + 1) =
      src.bytes.take n ++ List.replicate (n + 1 - (src.bytes.take n).length) 0 := by
    apply List.ext_getElem
    · simp
    · intro x hx hx'
      have hlt : x < n + 1 := by simpa using hx
      simp only [Foundation.Memory.loadList, List.getElem_map, List.getElem_range, Nat.zero_add,
        hbyte x hlt]
      rw [List.getElem_append]
      split
      next hin => rw [List.getD_eq_getElem _ _ hin]
      next hout => rw [List.getD_eq_default _ _ (Nat.le_of_not_lt hout), List.getElem_replicate]
  have hnonzero : ∀ b ∈ src.bytes.take n, (b != 0) = true := by
    intro b hb
    simpa using src.noNul b (List.mem_of_mem_take hb)
  have hpad : n + 1 - (src.bytes.take n).length = n - (src.bytes.take n).length + 1 := by
    have hle : (src.bytes.take n).length ≤ n := by simp
    omega
  rw [hbuffer]
  change List.takeWhile _ _ = _
  rw [List.takeWhile_append_of_pos hnonzero, hpad, List.replicate_succ]
  simp

/-- The first loop of `strncpy`, writing from `d` on: the memory, the place after the
last byte written, and what is left of `n`. -/
def strncpyCopy (mem : Foundation.Memory) (d : Nat) :
    List UInt8 → Nat → Foundation.Memory × Nat × Nat
  | _, 0 => (mem, d, 0)
  -- the terminator is copied, and not counted
  | [], n + 1 => (mem.storeByte d 0, d + 1, n + 1)
  | c :: cs, n + 1 => strncpyCopy (mem.storeByte d c) (d + 1) cs n

/-- The second loop of `strncpy`. -/
def strncpyPad (mem : Foundation.Memory) (d : Nat) : Nat → Foundation.Memory
  | 0 => mem
  | n + 1 => strncpyPad (mem.storeByte d 0) (d + 1) n

/-- `strncpy`, as its two loops. -/
def strncpyLoops (dest : Foundation.Memory) (src : CString) (n : Nat) : Foundation.Memory :=
  let (mem, d, n) := strncpyCopy dest 0 src.bytes n
  strncpyPad mem d n

theorem strncpyPad_eq (mem : Foundation.Memory) (d n : Nat) :
    strncpyPad mem d n = mem.storeList d (List.replicate n 0) := by
  induction n generalizing mem d with
  | zero => exact (Foundation.Memory.storeList_nil).symm
  | succ n ih => rw [strncpyPad, ih, List.replicate_succ, Foundation.Memory.storeList_cons]

/-- The copy counts the terminator as written, and not as done. -/
theorem strncpyCopy_eq (mem : Foundation.Memory) (d : Nat) (bytes : List UInt8) (n : Nat) :
    strncpyCopy mem d bytes n =
      if bytes.length < n then
        (mem.storeList d (bytes ++ [0]), d + bytes.length + 1, n - bytes.length)
      else (mem.storeList d (bytes.take n), d + n, 0) := by
  induction bytes generalizing mem d n with
  | nil =>
      cases n with
      | zero => rw [strncpyCopy, List.take_nil, Foundation.Memory.storeList_nil]; rfl
      | succ n =>
          rw [strncpyCopy, List.length_nil, if_pos (Nat.zero_lt_succ n), List.nil_append,
            Foundation.Memory.storeByte_eq_storeList]
          rfl
  | cons c cs ih =>
      cases n with
      | zero => rw [strncpyCopy, List.take_zero, Foundation.Memory.storeList_nil]; rfl
      | succ n =>
          rw [strncpyCopy, ih, List.length_cons, List.cons_append, List.take_succ_cons,
            Foundation.Memory.storeList_cons, Foundation.Memory.storeList_cons,
            Nat.add_right_comm d 1, Nat.add_assoc d 1, Nat.add_comm 1 n]
          simp only [Nat.add_lt_add_iff_right, Nat.add_sub_add_right]
          rfl

theorem strncpyLoops_eq (dest : Foundation.Memory) (src : CString) (n : Nat) :
    strncpyLoops dest src n = strncpy dest src n := by
  rw [strncpyLoops, strncpyCopy_eq, strncpy]
  by_cases hshort : src.bytes.length < n
  · rw [if_pos hshort, if_pos hshort]
    dsimp only
    have hlen : 0 + src.bytes.length + 1 = 0 + (src.bytes ++ [0]).length := by
      rw [List.length_append, List.length_singleton, Nat.add_assoc]
    rw [strncpyPad_eq, hlen, ← Foundation.Memory.storeList_append, List.append_assoc,
      List.singleton_append, ← List.replicate_succ]
  · rw [if_neg hshort, if_neg hshort]
    rfl

/-- The documented effect of `strncpy` on `n` bytes and the ones behind them. -/
structure Pads (dest dest' : Foundation.Memory) (src : CString) (n : Nat) : Prop where
  copied : ∀ i (hi : i < src.bytes.length), i < n → dest' i = src.bytes[i]
  padded : ∀ i, src.bytes.length ≤ i → i < n → dest' i = 0
  outside : ∀ i, n ≤ i → dest' i = dest i

/-- `strncpy` writes one byte too many after a source that is shorter than `n`. -/
theorem strncpy_behind (dest : Foundation.Memory) (src : CString) {n i : Nat} (hi : n ≤ i) :
    strncpy dest src n i = if src.bytes.length < n ∧ i = n then 0 else dest i := by
  rw [strncpy]
  by_cases hshort : src.bytes.length < n
  · rw [if_pos hshort]
    have hlen : (src.bytes ++ List.replicate (n - src.bytes.length + 1) 0).length = n + 1 := by
      rw [List.length_append, List.length_replicate]
      omega
    by_cases hlast : i = n
    · rw [if_pos ⟨hshort, hlast⟩, Foundation.Memory.storeList,
        Foundation.Memory.overwrite_of_mem (Nat.zero_le i) (by omega), Nat.sub_zero,
        List.getD_append_right _ _ _ _ (by omega), List.getD_replicate 0 (by omega)]
    · rw [if_neg fun h => hlast h.2, Foundation.Memory.storeList,
        Foundation.Memory.overwrite_of_notMem (by omega)]
  · have hlen : (src.bytes.take n).length ≤ n := by
      rw [List.length_take]
      exact Nat.min_le_left _ _
    rw [if_neg hshort, if_neg fun h => hshort h.1, Foundation.Memory.storeList,
      Foundation.Memory.overwrite_of_notMem (by omega)]

/-- `strncpy` writes `n` bytes only, unless the source is shorter than that and the byte
behind is not NUL already. -/
theorem strncpyLoops_pads_iff (dest : Foundation.Memory) (src : CString) (n : Nat) :
    Pads dest (strncpyLoops dest src n) src n ↔ n ≤ src.bytes.length ∨ dest n = 0 := by
  rw [strncpyLoops_eq]
  constructor
  · intro h
    by_cases hlong : n ≤ src.bytes.length
    · exact Or.inl hlong
    · have hlast := strncpy_behind dest src (Nat.le_refl n)
      rw [if_pos ⟨Nat.lt_of_not_le hlong, rfl⟩, h.outside n (Nat.le_refl n)] at hlast
      exact Or.inr hlast
  · intro h
    refine ⟨fun i hi hlt => ?_, fun i hi hlt => ?_, fun i hi => ?_⟩
    · rw [strncpy_apply dest src hlt, List.getD_eq_getElem _ _ hi]
    · rw [strncpy_apply dest src hlt, List.getD_eq_default _ _ hi]
    · rw [strncpy_behind dest src hi]
      split
      next hlast =>
        rcases h with hlong | hzero
        · exact absurd hlast.1 (Nat.not_lt.mpr hlong)
        · rw [hlast.2, hzero]
      next => rfl

/-- One letter copied with `n = 4` overwrites the fifth byte. -/
theorem strncpyLoops_overrun :
    strncpyLoops (fun _ => 7) ⟨[0x61], by simp⟩ 4 4 = 0 ∧
      ¬ Pads (fun _ => 7) (strncpyLoops (fun _ => 7) ⟨[0x61], by simp⟩ 4) ⟨[0x61], by simp⟩ 4 := by
  have hlast : strncpyLoops (fun _ => 7) ⟨[0x61], by simp⟩ 4 4 = 0 := by decide
  exact ⟨hlast, fun h => absurd ((h.outside 4 (Nat.le_refl 4)).symm.trans hlast) (by decide)⟩

@[simp] theorem CString.upper_upper (s : CString) : s.upper.upper = s.upper := by
  simp [CString.upper, toUpper_toUpper]

end Dosfs
