import Mathlib.Data.Nat.Bitwise
import Mathlib.Data.Finset.Card
import Mathlib.Data.Finset.Range
import Dosfs.Foundation.ByteMemory

/-!
# Bitmaps in bytes

A byte memory read as a set of bit numbers, eight to a byte. Setting and
clearing a bit shift a one into place, as byte-wise code does; the lemmas say
that they insert and erase one element of the set.
-/

namespace Foundation.Memory

/-- The byte with only the bit `bit % 8` set. -/
def bitMask (bit : Nat) : UInt8 := 1 <<< UInt8.ofNat (bit % 8)

def setBit (map : Memory) (bit : Nat) : Memory :=
  map.storeByte (bit / 8) (map (bit / 8) ||| bitMask bit)

def clearBit (map : Memory) (bit : Nat) : Memory :=
  map.storeByte (bit / 8) (map (bit / 8) &&& ~~~ bitMask bit)

def testBit (map : Memory) (bit : Nat) : Bool := map (bit / 8) &&& bitMask bit != 0

variable {map : Memory} {bit bit' bound : Nat}

theorem bitMask_toNat (bit : Nat) : (bitMask bit).toNat = 2 ^ (bit % 8) := by
  have hlt : bit % 8 < 8 := Nat.mod_lt _ (by decide)
  have hpow : 2 ^ (bit % 8) < 2 ^ 8 := Nat.pow_lt_pow_right (by decide) hlt
  have hshift : (UInt8.ofNat (bit % 8)).toNat = bit % 8 := by
    rw [UInt8.toNat_ofNat']
    omega
  rw [bitMask, UInt8.toNat_shiftLeft, hshift, Nat.mod_eq_of_lt hlt, Nat.shiftLeft_eq]
  simp only [UInt8.reduceToNat, Nat.one_mul]
  exact Nat.mod_eq_of_lt hpow

theorem testBit_eq (map : Memory) (bit : Nat) :
    map.testBit bit = (map (bit / 8)).toNat.testBit (bit % 8) := by
  have hzero : (map (bit / 8) &&& bitMask bit = 0) ↔
      (map (bit / 8)).toNat.testBit (bit % 8) = false := by
    rw [← UInt8.toNat_inj, UInt8.toNat_and, bitMask_toNat, Nat.and_two_pow]
    cases (map (bit / 8)).toNat.testBit (bit % 8) <;> simp
  rw [testBit, Bool.eq_iff_iff, bne_iff_ne, Ne, hzero, Bool.not_eq_false]

private theorem bit_eq_iff (hdiv : bit' / 8 = bit / 8) : bit % 8 = bit' % 8 ↔ bit' = bit := by
  omega

theorem testBit_setBit :
    (map.setBit bit).testBit bit' = (decide (bit' = bit) || map.testBit bit') := by
  rw [testBit_eq, testBit_eq]
  by_cases hdiv : bit' / 8 = bit / 8
  · rw [setBit, hdiv, storeByte_same, UInt8.toNat_or, bitMask_toNat, Nat.testBit_or,
      Nat.testBit_two_pow, Bool.or_comm]
    simp only [bit_eq_iff hdiv]
  · have hne : bit' ≠ bit := by
      rintro rfl
      exact hdiv rfl
    rw [setBit, storeByte_of_ne hdiv]
    simp [hne]

theorem testBit_clearBit :
    (map.clearBit bit).testBit bit' = (!decide (bit' = bit) && map.testBit bit') := by
  rw [testBit_eq, testBit_eq]
  by_cases hdiv : bit' / 8 = bit / 8
  · have hlt : bit' % 8 < 8 := Nat.mod_lt _ (by decide)
    have hcomplement :
        UInt8.size - 1 - (bitMask bit).toNat = 2 ^ 8 - ((bitMask bit).toNat + 1) := by
      rw [Nat.sub_sub, Nat.add_comm 1]
      rfl
    rw [clearBit, hdiv, storeByte_same, UInt8.toNat_and, UInt8.toNat_not, Nat.testBit_and,
      hcomplement, Nat.testBit_two_pow_sub_succ (bitMask bit).toNat_lt, bitMask_toNat,
      Nat.testBit_two_pow, Bool.and_comm]
    simp only [hlt, decide_true, Bool.true_and, bit_eq_iff hdiv]
  · have hne : bit' ≠ bit := by
      rintro rfl
      exact hdiv rfl
    rw [clearBit, storeByte_of_ne hdiv]
    simp [hne]

/-- The bits below a bound that are set. -/
def bitsBelow (map : Memory) (bound : Nat) : Finset Nat :=
  (Finset.range bound).filter fun bit => map.testBit bit

theorem mem_bitsBelow : bit ∈ map.bitsBelow bound ↔ bit < bound ∧ map.testBit bit = true := by
  simp [bitsBelow]

theorem bitsBelow_card : (map.bitsBelow bound).card = (List.range bound).countP map.testBit := by
  rw [List.countP_eq_length_filter, ← List.toFinset_card_of_nodup (List.nodup_range.filter _)]
  congr 1
  ext bit
  simp [mem_bitsBelow]

theorem bitsBelow_setBit (hbit : bit < bound) :
    (map.setBit bit).bitsBelow bound = insert bit (map.bitsBelow bound) := by
  ext bit'
  simp only [mem_bitsBelow, testBit_setBit, Finset.mem_insert, Bool.or_eq_true, decide_eq_true_eq]
  constructor
  · rintro ⟨hlt, heq | htest⟩
    · exact Or.inl heq
    · exact Or.inr ⟨hlt, htest⟩
  · rintro (rfl | ⟨hlt, htest⟩)
    · exact ⟨hbit, Or.inl rfl⟩
    · exact ⟨hlt, Or.inr htest⟩

theorem bitsBelow_clearBit :
    (map.clearBit bit).bitsBelow bound = (map.bitsBelow bound).erase bit := by
  ext bit'
  simp only [mem_bitsBelow, testBit_clearBit, Finset.mem_erase, Bool.and_eq_true,
    Bool.not_eq_true', decide_eq_false_iff_not]
  tauto

end Foundation.Memory
