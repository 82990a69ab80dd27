import Mathlib.Algebra.BigOperators.Group.List.Basic
import Mathlib.Data.Nat.ModEq

/-!
# One's-complement sums

Sums of 16-bit words in which a carry out of the top is added back at the
bottom. A string of bytes verifies when the sum of its words, most significant
byte first, has all bits set. Such a sum knows its value modulo 65535 and
whether it is zero, so adding bytes the other way round swaps the bytes of the
sum, and putting the complement of the sum in a field that was zero makes the
string verify.
-/

namespace Foundation.OnesComplement

/-! ## Carries -/

/-- Add two words and the carry. -/
def addCarry (x y : Nat) : Nat := if x + y < 65536 then x + y else x + y - 65535

/-- The word left of a number when all its carries have been added back. -/
def endAround (n : Nat) : Nat := if n = 0 then 0 else (n - 1) % 65535 + 1

theorem endAround_le (n : Nat) : endAround n ≤ 65535 := by
  unfold endAround
  split <;> omega

theorem endAround_of_le {n : Nat} (h : n ≤ 65535) : endAround n = n := by
  unfold endAround
  split <;> omega

theorem endAround_eq_zero_iff {n : Nat} : endAround n = 0 ↔ n = 0 := by
  unfold endAround
  split <;> omega

theorem endAround_modEq (n : Nat) : endAround n ≡ n [MOD 65535] := by
  unfold Nat.ModEq endAround
  split <;> omega

/-- The residue and whether the number is zero determine the word. -/
theorem endAround_congr {m n : Nat} (h : m ≡ n [MOD 65535]) (hzero : m = 0 ↔ n = 0) :
    endAround m = endAround n := by
  unfold Nat.ModEq at h
  unfold endAround
  split <;> split <;> omega

theorem endAround_eq_max_iff {n : Nat} : endAround n = 65535 ↔ 0 < n ∧ n ≡ 0 [MOD 65535] := by
  unfold Nat.ModEq endAround
  split <;> omega

theorem addCarry_endAround {n w : Nat} (hw : w ≤ 65535) :
    addCarry (endAround n) w = endAround (n + w) := by
  unfold addCarry endAround
  split <;> split <;> split <;> omega

theorem foldl_addCarry {words : List Nat} (hwords : ∀ w ∈ words, w ≤ 65535) (n : Nat) :
    words.foldl addCarry (endAround n) = endAround (n + words.sum) := by
  induction words generalizing n with
  | nil => rfl
  | cons w words ih =>
      obtain ⟨hw, hrest⟩ := List.forall_mem_cons.mp hwords
      rw [List.foldl_cons, addCarry_endAround hw, ih hrest, List.sum_cons, Nat.add_assoc]

/-! ## Strings of bytes -/

/-- The words of a string, most significant byte first; a zero follows an odd
last byte. -/
def words : List UInt8 → List Nat
  | a :: b :: rest => (a.toNat * 256 + b.toNat) :: words rest
  | [a] => [a.toNat * 256]
  | [] => []

/-- The one's-complement sum of a string. -/
def sum (bytes : List UInt8) : Nat := (words bytes).foldl addCarry 0

/-- The sum has all bits set. -/
def Verifies (bytes : List UInt8) : Prop := sum bytes = 0xFFFF

instance (bytes : List UInt8) : Decidable (Verifies bytes) := inferInstanceAs (Decidable (_ = _))

theorem words_le (bytes : List UInt8) : ∀ w ∈ words bytes, w ≤ 65535 := by
  induction bytes using words.induct with
  | case1 a b rest ih =>
      have ha := a.toNat_lt
      have hb := b.toNat_lt
      exact List.forall_mem_cons.mpr ⟨by omega, ih⟩
  | case2 a =>
      have ha := a.toNat_lt
      exact List.forall_mem_cons.mpr ⟨by omega, nofun⟩
  | case3 => exact nofun

theorem sum_eq (bytes : List UInt8) : sum bytes = endAround (words bytes).sum := by
  have hfold := foldl_addCarry (words_le bytes) 0
  rwa [Nat.zero_add] at hfold

/-- The plain sum of the words with the bytes the other way round. -/
def sumLe : List UInt8 → Nat
  | a :: b :: rest => a.toNat + 256 * b.toNat + sumLe rest
  | [a] => a.toNat
  | [] => 0

theorem words_sum_modEq (bytes : List UInt8) :
    (words bytes).sum ≡ 256 * sumLe bytes [MOD 65535] := by
  unfold Nat.ModEq
  induction bytes using words.induct with
  | case1 a b rest ih =>
      rw [words, sumLe, List.sum_cons]
      omega
  | case2 a =>
      rw [words, sumLe, List.sum_singleton, Nat.mul_comm]
  | case3 => rfl

theorem words_sum_eq_zero_iff (bytes : List UInt8) : (words bytes).sum = 0 ↔ sumLe bytes = 0 := by
  induction bytes using words.induct with
  | case1 a b rest ih =>
      rw [words, sumLe, List.sum_cons]
      omega
  | case2 a =>
      rw [words, sumLe, List.sum_singleton]
      omega
  | case3 => exact iff_of_true rfl rfl

/-- Which byte comes first makes no difference to whether a string verifies. -/
theorem verifies_iff (bytes : List UInt8) :
    Verifies bytes ↔ 0 < sumLe bytes ∧ sumLe bytes ≡ 0 [MOD 65535] := by
  have hmod := words_sum_modEq bytes
  have hzero := words_sum_eq_zero_iff bytes
  unfold Verifies
  rw [sum_eq, endAround_eq_max_iff]
  unfold Nat.ModEq at *
  omega

theorem sumLe_le (bytes : List UInt8) : sumLe bytes ≤ 65535 * bytes.length := by
  induction bytes using sumLe.induct with
  | case1 a b rest ih =>
      have ha := a.toNat_lt
      have hb := b.toNat_lt
      rw [sumLe, List.length_cons, List.length_cons]
      omega
  | case2 a =>
      have ha := a.toNat_lt
      rw [sumLe, List.length_singleton]
      omega
  | case3 => exact Nat.le_refl 0

/-- Words do not straddle the end of a string of even length. -/
theorem sumLe_append {first second : List UInt8} (heven : first.length % 2 = 0) :
    sumLe (first ++ second) = sumLe first + sumLe second := by
  induction first using sumLe.induct with
  | case1 a b rest ih =>
      rw [List.length_cons, List.length_cons] at heven
      rw [List.cons_append, List.cons_append, sumLe, sumLe, ih (by omega)]
      omega
  | case2 a => cases heven
  | case3 => rw [List.nil_append, sumLe, Nat.zero_add]

/-- The complement of the sum makes a string verify in a field that was zero. -/
theorem verifies_of_complement {first second : List UInt8} (heven : first.length % 2 = 0) :
    let c := 65535 - endAround (sumLe (first ++ [0, 0] ++ second))
    Verifies (first ++ [UInt8.ofNat c, UInt8.ofNat (c / 256)] ++ second) := by
  intro c
  have hc : c ≤ 65535 := Nat.sub_le _ _
  have hfield : sumLe [UInt8.ofNat c, UInt8.ofNat (c / 256)] = c := by
    simp only [sumLe, UInt8.toNat_ofNat']
    omega
  have hsplit (field : List UInt8) (hlen : field.length = 2) :
      sumLe (first ++ field ++ second) = sumLe first + sumLe field + sumLe second := by
    rw [sumLe_append (by rw [List.length_append, hlen]; omega), sumLe_append heven]
  have hplain := hsplit [0, 0] rfl
  have hmod := endAround_modEq (sumLe (first ++ [0, 0] ++ second))
  have hzero := @endAround_eq_zero_iff (sumLe (first ++ [0, 0] ++ second))
  have hle := endAround_le (sumLe (first ++ [0, 0] ++ second))
  rw [verifies_iff, hsplit _ rfl, hfield]
  have hnone : sumLe [0, 0] = 0 := rfl
  rw [hnone, Nat.add_zero] at hplain
  unfold Nat.ModEq at *
  omega

end Foundation.OnesComplement
