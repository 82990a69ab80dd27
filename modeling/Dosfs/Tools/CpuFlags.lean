import Dosfs.Tools.CpuSim

/-!
# Flags of the simulated processor

The flags that x86 defines for addition, subtraction and the logical operations, and when
the simulator sets them. Its helper sees the result alone. The borrow is added where there
is one, but no instruction adds a carry or an overflow.
-/

namespace Dosfs

/-! ## What the flags mean -/

def flag (eflags : UInt32) (i : Nat) : Bool := eflags.toBitVec.getLsbD i

/-- The instructions that set the flags from two operands. -/
def flagMnemonics : List Mnemonic := [.add, .sub, .cmp, .and, .or, .xor, .test]

def resultOf (m : Mnemonic) (a b : UInt32) : UInt32 :=
  match m with
  | .add => a + b
  | .sub | .cmp => a - b
  | .or => a ||| b
  | .xor => a ^^^ b
  | _ => a &&& b

/-- The unsigned result does not fit: a carry, or a borrow. -/
def Carries (m : Mnemonic) (a b : UInt32) : Prop :=
  match m with
  | .add => 2 ^ 32 ≤ a.toNat + b.toNat
  | .sub | .cmp => a.toNat < b.toNat
  | _ => False

/-- The signed result does not fit. -/
def OverflowsSigned (m : Mnemonic) (a b : UInt32) : Prop :=
  match m with
  | .add => ¬(-2 ^ 31 ≤ a.toInt32.toInt + b.toInt32.toInt ∧
      a.toInt32.toInt + b.toInt32.toInt < 2 ^ 31)
  | .sub | .cmp => ¬(-2 ^ 31 ≤ a.toInt32.toInt - b.toInt32.toInt ∧
      a.toInt32.toInt - b.toInt32.toInt < 2 ^ 31)
  | _ => False

instance (m : Mnemonic) (a b : UInt32) : Decidable (Carries m a b) := by
  cases m <;> unfold Carries <;> infer_instance

instance (m : Mnemonic) (a b : UInt32) : Decidable (OverflowsSigned m a b) := by
  cases m <;> unfold OverflowsSigned <;> infer_instance

/-- The flags that x86 defines for an instruction and its operands. The processor leaves
the auxiliary carry, bit 4, undefined after some of them. -/
structure FlagsFollow (m : Mnemonic) (a b before after : UInt32) : Prop where
  zero : flag after 6 = true ↔ resultOf m a b = 0
  sign : flag after 7 = true ↔ (resultOf m a b).toInt32.toInt < 0
  parity : flag after 2 = true ↔ (List.range 8).countP (flag (resultOf m a b)) % 2 = 0
  carry : flag after 0 = true ↔ Carries m a b
  overflow : flag after 11 = true ↔ OverflowsSigned m a b
  others : ∀ i < 32, i ∉ [0, 2, 4, 6, 7, 11] → flag after i = flag before i

/-! ## What the simulator sets -/

section Bits

theorem flag_or (x y : UInt32) (i : Nat) : flag (x ||| y) i = (flag x i || flag y i) := by
  simp [flag]

theorem flag_and (x y : UInt32) (i : Nat) : flag (x &&& y) i = (flag x i && flag y i) := by
  simp [flag]

theorem flag_bit {i : Nat} (hi : i < 32) :
    flag 0x40 i = decide (i = 6) ∧ flag 0x80 i = decide (i = 7) ∧ flag 0x04 i = decide (i = 2) ∧
      flag 1 i = decide (i = 0) ∧ flag (~~~0x8D5) i = decide (i ∉ [0, 2, 4, 6, 7, 11]) := by
  revert i
  decide

/-- The lowest bit of the folded byte is the parity of its eight bits. -/
theorem foldParity_even (result : UInt32) :
    foldParity result.toUInt8 &&& 1 = 0 ↔ (List.range 8).countP (flag result) % 2 = 0 := by
  have hbyte : ∀ n < 256, foldParity (UInt8.ofNat n) &&& 1 = 0 ↔
      (List.range 8).countP (fun i => (UInt8.ofNat n).toBitVec.getLsbD i) % 2 = 0 := by
    decide +kernel
  have hlow : (List.range 8).countP (flag result) =
      (List.range 8).countP fun i => result.toUInt8.toBitVec.getLsbD i := by
    refine List.countP_congr fun i hi => ?_
    have hlt := List.mem_range.mp hi
    simp [flag, hlt]
  have hresult := hbyte _ result.toUInt8.toNat_lt
  rw [UInt8.ofNat_toNat] at hresult
  rw [hlow]
  exact hresult

theorem sign_bit (result : UInt32) :
    result &&& 0x80000000 ≠ 0 ↔ result.toInt32.toInt < 0 := by
  have hmask : result &&& 0x80000000 = if flag result 31 then 0x80000000 else 0 := by
    refine UInt32.eq_of_toBitVec_eq ?_
    rw [apply_ite UInt32.toBitVec]
    exact BitVec.and_twoPow result.toBitVec 31
  have hmsb : flag result 31 = result.toBitVec.msb := (BitVec.msb_eq_getLsbD_last _).symm
  change _ ↔ result.toBitVec.toInt < 0
  rw [hmask, hmsb, BitVec.msb_eq_toInt]
  split
  next h => exact iff_of_true (by decide) (by simpa using h)
  next h => exact iff_of_false (not_not_intro rfl) (by simpa using h)

theorem updateFlags_flag (result : UInt32) (cpu : CpuSim) {i : Nat} (hi : i < 32) :
    flag (updateFlags result cpu).eflags i =
      ((flag cpu.eflags i && decide (i ∉ [0, 2, 4, 6, 7, 11])) ||
        (decide (result = 0) && decide (i = 6)) ||
        (decide (result.toInt32.toInt < 0) && decide (i = 7)) ||
        (decide ((List.range 8).countP (flag result) % 2 = 0) && decide (i = 2))) := by
  obtain ⟨hzero, hsign, hparity, -, hkept⟩ := flag_bit hi
  have hif (c : Prop) [Decidable c] (e f : UInt32) :
      (if c then e ||| f else e) = e ||| if c then f else 0 := by
    split
    · rfl
    · exact (UInt32.or_zero).symm
  have hflag (c : Prop) [Decidable c] (f : UInt32) :
      flag (if c then f else 0) i = (decide c && flag f i) := by
    split <;> simp_all [flag]
  unfold updateFlags
  simp only [hif, flag_or, flag_and, hflag, hzero, hsign, hparity, hkept, sign_bit, foldParity_even]

theorem setOperand_eflags (s : List UInt8) (val : UInt32) (cpu : CpuSim) :
    (setOperand s val cpu).eflags = cpu.eflags := by
  unfold setOperand
  split
  · rfl
  · split <;> rfl

end Bits

/-- The instruction sets the flags from its result, and a borrow besides. -/
theorem performMnemonic_flag {m : Mnemonic} (hm : m ∈ flagMnemonics) (operand1 : List UInt8)
    (a b : UInt32) (cpu : CpuSim) {i : Nat} (hi : i < 32) :
    flag (performMnemonic operand1 a b cpu m).2.eflags i =
      (flag (updateFlags (resultOf m a b) cpu).eflags i ||
        (decide ((m = .sub ∨ m = .cmp) ∧ a < b) && decide (i = 0))) := by
  have hborrow (e : UInt32) : flag (if a < b then e ||| 1 else e) i =
      (flag e i || (decide (a < b) && decide (i = 0))) := by
    split
    next h => rw [flag_or, (flag_bit hi).2.2.2.1, decide_eq_true h, Bool.true_and]
    next h => rw [decide_eq_false h, Bool.false_and, Bool.or_false]
  cases m <;> first
    | exact absurd hm (by decide)
    | simp [performMnemonic, resultOf, setOperand_eflags, apply_ite CpuSim.eflags, hborrow]

/-- Nothing but a carry of the addition and an overflow is missed. -/
theorem performMnemonic_follows_iff {m : Mnemonic} (hm : m ∈ flagMnemonics) (operand1 : List UInt8)
    (a b : UInt32) (cpu : CpuSim) :
    FlagsFollow m a b cpu.eflags (performMnemonic operand1 a b cpu m).2.eflags ↔
      ¬ OverflowsSigned m a b ∧ (m = .add → ¬ Carries m a b) := by
  have hflag (i : Nat) (hi : i < 32) := performMnemonic_flag hm operand1 a b cpu hi
  have hcarry : flag (performMnemonic operand1 a b cpu m).2.eflags 0 = true ↔
      (m = .sub ∨ m = .cmp) ∧ a < b := by
    rw [hflag 0 (by decide), updateFlags_flag _ _ (by decide)]
    simp
  have hoverflow : flag (performMnemonic operand1 a b cpu m).2.eflags 11 = false := by
    rw [hflag 11 (by decide), updateFlags_flag _ _ (by decide)]
    simp
  have hborrow : ((m = .sub ∨ m = .cmp) ∧ a < b ↔ Carries m a b) ↔
      (m = .add → ¬ Carries m a b) := by
    cases m <;> first
      | exact absurd hm (by decide)
      | simp [Carries, UInt32.lt_iff_toNat_lt]
  constructor
  · intro h
    refine ⟨fun hover => ?_, hborrow.mp (hcarry.symm.trans h.carry)⟩
    exact absurd (h.overflow.mpr hover) (by rw [hoverflow]; exact Bool.false_ne_true)
  · rintro ⟨hover, hadd⟩
    refine ⟨?_, ?_, ?_, hcarry.trans (hborrow.mpr hadd), ?_, fun i hi hother => ?_⟩
    · rw [hflag 6 (by decide), updateFlags_flag _ _ (by decide)]
      simp
    · rw [hflag 7 (by decide), updateFlags_flag _ _ (by decide)]
      simp
    · rw [hflag 2 (by decide), updateFlags_flag _ _ (by decide)]
      simp
    · exact iff_of_false (by rw [hoverflow]; exact Bool.false_ne_true) hover
    · rw [hflag i hi, updateFlags_flag _ _ hi]
      simp only [List.mem_cons, List.not_mem_nil, or_false, not_or] at hother
      simp [hother]

/-- The flags follow x86 unless the signed result overflows or an addition carries. -/
theorem flags_follow_iff (instruction : List UInt8) (cpu : CpuSim) {m : Mnemonic}
    (hop : findMnemonic (tokens instruction).op = some m) (hm : m ∈ flagMnemonics) :
    let a := (parseOperand (tokens instruction).operand1 cpu).2
    let b := (parseOperand (tokens instruction).operand2 cpu).2
    FlagsFollow m a b cpu.eflags (cpuSimExecute instruction cpu).2.eflags ↔
      ¬ OverflowsSigned m a b ∧ (m = .add → ¬ Carries m a b) := by
  intro a b
  let next := cpu.setReg .eip (cpu.reg .eip + 1)
  have hexecute : (cpuSimExecute instruction cpu).2 =
      (performMnemonic (tokens instruction).operand1 a b next m).2 := by
    rw [cpuSimExecute, hop]
  rw [hexecute]
  exact performMnemonic_follows_iff hm _ a b next

/-- `cmp eax, 1` right after a reset: a borrow and no overflow. -/
theorem flags_follow_cmp :
    FlagsFollow .cmp 0 1 2 (cpuSimExecute
      (ascii ['c', 'm', 'p', ' ', 'e', 'a', 'x', ',', ' ', '1']) cpuSimReset).2.eflags :=
  (flags_follow_iff (ascii ['c', 'm', 'p', ' ', 'e', 'a', 'x', ',', ' ', '1']) cpuSimReset
    (by decide) (by decide)).mpr ⟨by decide, by decide⟩

/-- `add eax, -1` with 1 in the register: the result is zero, and the carry is lost. -/
theorem add_loses_carry :
    let cpu := cpuSimReset.setReg .eax 1
    ¬ FlagsFollow .add 1 0xFFFFFFFF cpu.eflags (cpuSimExecute
      (ascii ['a', 'd', 'd', ' ', 'e', 'a', 'x', ',', ' ', '-', '1']) cpu).2.eflags := by
  intro cpu h
  exact absurd (h.carry.mpr (by decide)) (by decide)

end Dosfs
