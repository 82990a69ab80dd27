import Mathlib.Data.List.TakeWhile
import Dosfs.Libc.Numerals

/-!
# Reading numbers

A translation of `atoi` of `libc/string.c`. What it reads is compared with the
integer that stands at the start of the text, which may have any number of digits.
The numerals that `uitoa` and `itoa` write are the canonical ones, and `atoi` reads
them back.
-/

namespace Dosfs

/-- `c >= '0' && c <= '9'` -/
def isDigit (c : UInt8) : Bool := 0x30 ≤ c ∧ c ≤ 0x39

/-- The loop of `atoi` over the digits; the arithmetic of an `int` wraps. -/
def atoiLoop (res : Int32) : List UInt8 → Int32
  | [] => res
  | c :: s => if isDigit c then atoiLoop (res * 10 + Int32.ofNat (c.toNat - 0x30)) s else res

def atoi (s : List UInt8) : Int32 :=
  match s.dropWhile (· == 0x20) with
  | 0x2D :: s => atoiLoop 0 s * -1
  | 0x2B :: s => atoiLoop 0 s * 1
  | s => atoiLoop 0 s * 1

/-! ## The number at the start of a text -/

/-- The number that the digits at the start of a text write, in base ten. -/
def leadingNat (s : List UInt8) : Nat :=
  (s.takeWhile isDigit).foldl (fun n c => 10 * n + (c.toNat - 0x30)) 0

/-- The integer at the start of a text, after spaces and a sign. -/
def leadingInt (s : List UInt8) : Int :=
  match s.dropWhile (· == 0x20) with
  | 0x2D :: s => -leadingNat s
  | 0x2B :: s => leadingNat s
  | s => leadingNat s

theorem atoiLoop_eq (n : Nat) (s : List UInt8) :
    atoiLoop (Int32.ofNat n) s =
      Int32.ofNat ((s.takeWhile isDigit).foldl (fun n c => 10 * n + (c.toNat - 0x30)) n) := by
  induction s generalizing n with
  | nil => rfl
  | cons c s ih =>
      rw [atoiLoop, List.takeWhile_cons]
      split
      · have hnext : Int32.ofNat n * 10 + Int32.ofNat (c.toNat - 0x30) =
            Int32.ofNat (10 * n + (c.toNat - 0x30)) := by
          rw [Int32.ofNat_add, Int32.ofNat_mul, Int32.mul_comm]
          rfl
        rw [hnext, ih, List.foldl_cons]
      · rfl

/-- `atoi` reads the integer at the start of the text, modulo 2 ^ 32. -/
theorem atoi_eq (s : List UInt8) : atoi s = Int32.ofInt (leadingInt s) := by
  have hloop (s : List UInt8) : atoiLoop 0 s = Int32.ofInt (leadingNat s) := by
    rw [show (0 : Int32) = Int32.ofNat 0 from rfl, atoiLoop_eq]
    rfl
  unfold atoi leadingInt
  split
  · rw [hloop, Int32.mul_neg, Int32.mul_one, Int32.ofInt_neg]
  · rw [hloop, Int32.mul_one]
  · rw [hloop, Int32.mul_one]

/-! ## Reading a numeral back -/

theorem leadingNat_of_digits {s : List UInt8} (hs : ∀ c ∈ s, c ∈ digitAlphabet.take 10) :
    leadingNat s = s.foldl (fun n c => 10 * n + digitAlphabet.idxOf c) 0 := by
  have hdigit : ∀ c ∈ digitAlphabet.take 10,
      isDigit c ∧ c.toNat - 0x30 = digitAlphabet.idxOf c := by
    simp [digitAlphabet, isDigit]
  rw [leadingNat, List.takeWhile_eq_self_iff.mpr fun c hc => (hdigit c (hs c hc)).1]
  exact List.foldl_ext _ _ 0 fun n c hc => by rw [(hdigit c (hs c hc)).2]

theorem leadingNat_numeral (n : Nat) : leadingNat (numeral 10 n) = n := by
  have h := numeral_isNumeral (by decide) (by decide : 10 ≤ 16) n
  rw [leadingNat_of_digits h.digits, h.value_eq]

/-- A text that starts with a digit has no spaces and no sign. -/
theorem leadingInt_of_digits {s : List UInt8} (hs : ∀ c ∈ s, c ∈ digitAlphabet.take 10) :
    leadingInt s = leadingNat s := by
  cases s with
  | nil => rfl
  | cons c s =>
      have hdigit : ∀ c ∈ digitAlphabet.take 10, (c == 0x20) = false ∧ c ≠ 0x2D ∧ c ≠ 0x2B := by
        simp [digitAlphabet]
      obtain ⟨hspace, hminus, hplus⟩ := hdigit c (hs c List.mem_cons_self)
      rw [leadingInt, List.dropWhile_cons, hspace]
      split
      next heq => exact absurd (List.cons.inj heq).1 hminus
      next heq => exact absurd (List.cons.inj heq).1 hplus
      next => rfl

theorem leadingInt_minus (s : List UInt8) : leadingInt (0x2D :: s) = -leadingNat s := rfl

/-- `itoa` in base ten writes the numeral of the absolute value, behind a minus if there
is one. -/
theorem itoa_ten_natAbs (v : Int32) :
    itoa v 10 = if v < 0 then 0x2D :: numeral 10 v.toInt.natAbs else numeral 10 v.toInt.natAbs := by
  have hv : v.toInt = if 2 * v.toUInt32.toNat < 2 ^ 32 then (v.toUInt32.toNat : Int)
      else v.toUInt32.toNat - 2 ^ 32 := BitVec.toInt_eq_toNat_cond v.toBitVec
  have hlt := v.toUInt32.toNat_lt
  have hneg : v < 0 ↔ v.toInt < 0 := Int32.lt_iff_toInt_lt
  have hsize : UInt32.size = 2 ^ 32 := rfl
  rw [itoa_ten, UInt32.toNat_neg, hsize]
  by_cases hnegative : v < 0
  · rw [if_pos hnegative, if_pos hnegative]
    have hminus := hneg.mp hnegative
    congr 2
    split at hv <;> omega
  · rw [if_neg hnegative, if_neg hnegative]
    have hplus := mt hneg.mpr hnegative
    congr 1
    split at hv <;> omega

theorem leadingInt_itoa (v : Int32) : leadingInt (itoa v 10) = v.toInt := by
  have hdigits (n : Nat) := (numeral_isNumeral (by decide) (by decide : 10 ≤ 16) n).digits
  rw [itoa_ten_natAbs]
  split
  next hneg =>
    have := Int32.lt_iff_toInt_lt.mp hneg
    rw [leadingInt_minus, leadingNat_numeral]
    simp at this
    omega
  next hpos =>
    have := mt Int32.lt_iff_toInt_lt.mpr hpos
    rw [leadingInt_of_digits (hdigits _), leadingNat_numeral]
    simp at this
    omega

/-- `uitoa` writes the canonical numeral, `itoa` puts a minus in front of the numeral of
the absolute value, and `atoi` reads back what `itoa` wrote. -/
theorem uitoa_itoa_atoi (value base : UInt32) (hlow : 2 ≤ base) (hhigh : base ≤ 16) (v : Int32) :
    (∀ text, text = uitoa value base ↔ IsNumeral base.toNat value.toNat text) ∧
      (∃ text, IsNumeral 10 v.toInt.natAbs text ∧
        itoa v 10 = if v < 0 then 0x2D :: text else text) ∧
      atoi (itoa v 10) = v := by
  have hlow' : 2 ≤ base.toNat := UInt32.le_iff_toNat_le.mp hlow
  have hhigh' : base.toNat ≤ 16 := UInt32.le_iff_toNat_le.mp hhigh
  refine ⟨fun text => ⟨?_, fun h => ?_⟩, ⟨_, numeral_isNumeral (by decide) (by decide) _,
    itoa_ten_natAbs v⟩, ?_⟩
  · rintro rfl
    rw [uitoa_eq hlow']
    exact numeral_isNumeral hlow' hhigh' _
  · rw [uitoa_eq hlow', h.eq_numeral hlow' hhigh']
  · rw [atoi_eq, leadingInt_itoa, Int32.ofInt_toInt]

/-- Small letters in base sixteen, and the least number, whose absolute value is not an
`int`. -/
theorem uitoa_itoa_atoi_extremes :
    IsNumeral 16 0xBEEF (uitoa 0xBEEF 16) ∧ atoi (itoa (-2147483648) 10) = -2147483648 :=
  have h := uitoa_itoa_atoi 0xBEEF 16 (by decide) (by decide) (-2147483648)
  ⟨(h.1 _).mp rfl, h.2.2⟩

end Dosfs
