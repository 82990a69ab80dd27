import Dosfs.Tools.CpuFlags
import Dosfs.Tools.CpuStack
import Dosfs.Tools.CpuText

/-!
# The simulated processor as a machine of numbers

What the instructions are for, in the arithmetic of natural numbers: registers below 2 ^ 32,
flags that are booleans, and a memory of 256 bytes that only `push` writes. Programs that are
written down run on the simulator as they do on this machine.
-/

namespace Dosfs

/-- A processor whose registers and bytes are numbers. -/
structure Processor where
  reg : CpuReg → Nat
  flag : Nat → Bool
  memory : Nat → Nat

namespace Processor

def setReg (r : CpuReg) (val : Nat) (s : Processor) : Processor :=
  { s with reg := fun r' => if r' = r then val else s.reg r' }

/-- The flags of a result: zero, sign, the parity of the low byte, and a borrow. The other
two arithmetic flags are always cleared. -/
def setFlags (result : Nat) (borrow : Bool) (s : Processor) : Processor :=
  { s with flag := fun i =>
      if i = 6 then decide (result = 0)
      else if i = 7 then decide (2 ^ 31 ≤ result)
      else if i = 2 then decide ((List.range 8).countP result.testBit % 2 = 0)
      else if i = 0 then borrow
      else if i = 4 ∨ i = 11 then false
      else s.flag i }

/-- A word is kept byte by byte, the lowest first. -/
def storeWord (addr val : Nat) (s : Processor) : Processor :=
  { s with memory := fun a =>
      let i := (a + 256 - addr % 256) % 256
      if i < 4 then val / 256 ^ i % 256 else s.memory a }

def loadWord (addr : Nat) (s : Processor) : Nat :=
  s.memory (addr % 256) + 2 ^ 8 * s.memory ((addr + 1) % 256) +
    2 ^ 16 * s.memory ((addr + 2) % 256) + 2 ^ 24 * s.memory ((addr + 3) % 256)

/-- The value of an operand that may be missing. -/
def value (s : Processor) : Option Operand → Nat
  | none => 0
  | some (.register r) => s.reg r
  | some (.negative n) => (2 ^ 32 - n % 2 ^ 32) % 2 ^ 32
  | some (.decimal n) | some (.hexadecimal n) | some (.address n) | some (.hexAddress n) =>
      n % 2 ^ 32

def put (val : Nat) (s : Processor) : Option Operand → Processor
  | some (.register r) => s.setReg r val
  | _ => s

/-- An instruction on the values of its operands; `false` when there is no quotient. -/
def perform (dst : Option Operand) (a b : Nat) (s : Processor) : Mnemonic → Bool × Processor
  | .mov => (true, s.put b dst)
  | .add =>
      let result := (a + b) % 2 ^ 32
      (true, (s.setFlags result false).put result dst)
  | .sub =>
      let result := (a + 2 ^ 32 - b) % 2 ^ 32
      (true, (s.setFlags result (a < b)).put result dst)
  | .mul => (true, (s.setReg .eax (a * b % 2 ^ 32)).setReg .edx (a * b / 2 ^ 32))
  | .div =>
      if b = 0 then (false, s) else (true, (s.setReg .eax (a / b)).setReg .edx (a % b))
  | .and => (true, (s.setFlags (a &&& b) false).put (a &&& b) dst)
  | .or => (true, (s.setFlags (a ||| b) false).put (a ||| b) dst)
  | .xor => (true, (s.setFlags (a ^^^ b) false).put (a ^^^ b) dst)
  | .not => (true, s.put (2 ^ 32 - 1 - a) dst)
  | .shl =>
      let result := a * 2 ^ (b % 32) % 2 ^ 32
      (true, (s.setFlags result false).put result dst)
  | .shr =>
      let result := a / 2 ^ (b % 32)
      (true, (s.setFlags result false).put result dst)
  | .inc =>
      let result := (a + 1) % 2 ^ 32
      (true, (s.setFlags result false).put result dst)
  | .dec =>
      let result := (a + 2 ^ 32 - 1) % 2 ^ 32
      (true, (s.setFlags result false).put result dst)
  | .cmp => (true, s.setFlags ((a + 2 ^ 32 - b) % 2 ^ 32) (a < b))
  | .test => (true, s.setFlags (a &&& b) false)
  | .push =>
      let esp := (s.reg .esp + 2 ^ 32 - 4) % 2 ^ 32
      (true, (s.setReg .esp esp).storeWord esp a)
  | .pop =>
      let esp := s.reg .esp
      (true, (s.setReg .esp ((esp + 4) % 2 ^ 32)).put (s.loadWord esp) dst)
  | .nop => (true, s)

/-- One instruction. Its operands are read before the counter moves on. -/
def step (i : Instr) (s : Processor) : Bool × Processor :=
  (s.setReg .eip ((s.reg .eip + 1) % 2 ^ 32)).perform i.dst (s.value i.dst) (s.value i.src)
    i.mnemonic

/-- A program, with the answers of its instructions. -/
def run : List Instr → Processor → List Bool × Processor
  | [], s => ([], s)
  | i :: program, s =>
      let (done, s) := s.step i
      let (dones, s) := run program s
      (done :: dones, s)

end Processor

/-- The simulator and the machine show the same numbers. -/
structure Denotes (cpu : CpuSim) (s : Processor) : Prop where
  reg : ∀ r, (cpu.reg r).toNat = s.reg r
  flag : ∀ i < 32, flag cpu.eflags i = s.flag i
  memory : ∀ a < 256, (cpu.memory (UInt8.ofNat a)).toNat = s.memory a

/-- The machine that the simulator shows. -/
def CpuSim.processor (cpu : CpuSim) : Processor where
  reg r := (cpu.reg r).toNat
  flag := Dosfs.flag cpu.eflags
  memory a := (cpu.memory (UInt8.ofNat a)).toNat

theorem CpuSim.denotes_processor (cpu : CpuSim) : Denotes cpu cpu.processor :=
  ⟨fun _ => rfl, fun _ _ => rfl, fun _ _ => rfl⟩

namespace Denotes

variable {cpu : CpuSim} {s : Processor}

theorem setReg (h : Denotes cpu s) (r : CpuReg) {val : UInt32} {n : Nat} (hn : val.toNat = n) :
    Denotes (cpu.setReg r val) (s.setReg r n) := by
  refine ⟨fun r' => ?_, h.flag, h.memory⟩
  rw [CpuSim.setReg, Processor.setReg]
  dsimp only
  split
  · exact hn
  · exact h.reg r'

theorem put (h : Denotes cpu s) (dst : Option Operand) {val : UInt32} {n : Nat}
    (hn : val.toNat = n) : Denotes (operandPut dst val cpu) (s.put n dst) := by
  rcases dst with _ | (r | n | n | n | n | n)
  · exact h
  · exact h.setReg r hn
  all_goals exact h

theorem value (h : Denotes cpu s) (o : Option Operand) :
    (operandValue cpu.reg o).toNat = s.value o := by
  rcases o with _ | (r | n | n | n | n | n)
  · rfl
  · exact h.reg r
  · exact UInt32.toNat_ofNat'
  · change (-UInt32.ofNat n).toNat = _
    rw [UInt32.toNat_neg, UInt32.toNat_ofNat']
    rfl
  all_goals exact UInt32.toNat_ofNat'

theorem updateFlags (h : Denotes cpu s) {result : UInt32} {n : Nat} (hn : result.toNat = n) :
    Denotes (updateFlags result cpu) (s.setFlags n false) := by
  refine ⟨h.reg, fun i hi => ?_, h.memory⟩
  have hzero : result = 0 ↔ n = 0 := by rw [← UInt32.toNat_inj, hn, UInt32.toNat_zero]
  have hsign : result.toInt32.toInt < 0 ↔ 2 ^ 31 ≤ n := by
    rw [← hn]
    change result.toBitVec.toInt < 0 ↔ 2 ^ 31 ≤ result.toBitVec.toNat
    rw [BitVec.toInt_eq_toNat_cond]
    have hlt := result.toBitVec.isLt
    split <;> omega
  have hbits : Dosfs.flag result = n.testBit := by
    funext j
    rw [← hn]
    rfl
  rw [updateFlags_flag _ _ hi, h.flag i hi, Processor.setFlags]
  simp only [hzero, hsign, hbits, List.mem_cons, List.not_mem_nil, or_false, not_or]
  by_cases h6 : i = 6
  · simp [h6]
  by_cases h7 : i = 7
  · simp [h7]
  by_cases h2 : i = 2
  · simp [h2]
  by_cases h0 : i = 0
  · simp [h0]
  by_cases hcleared : i = 4 ∨ i = 11
  · rcases hcleared with rfl | rfl <;> simp
  · rw [not_or] at hcleared
    simp [h6, h7, h2, h0, hcleared]

theorem borrow (h : Denotes cpu s) {result : UInt32} {n : Nat} (hn : result.toNat = n)
    {a b : UInt32} {a' b' : Nat} (ha : a.toNat = a') (hb : b.toNat = b') :
    Denotes (if a < b then
        { Dosfs.updateFlags result cpu with eflags := (Dosfs.updateFlags result cpu).eflags ||| 1 }
      else Dosfs.updateFlags result cpu) (s.setFlags n (a' < b')) := by
  have hupdate := h.updateFlags hn
  have hlt : a < b ↔ a' < b' := by rw [UInt32.lt_iff_toNat_lt, ha, hb]
  split
  next hborrow =>
    refine ⟨hupdate.reg, fun i hi => ?_, hupdate.memory⟩
    dsimp only
    rw [flag_or, hupdate.flag i hi, (flag_bit hi).2.2.2.1, decide_eq_true (hlt.mp hborrow)]
    unfold Processor.setFlags
    dsimp only
    by_cases h0 : i = 0
    · subst h0
      rfl
    · rw [decide_eq_false h0, Bool.or_false, if_neg h0, if_neg h0]
  next hno =>
    rw [decide_eq_false (mt hlt.mpr hno)]
    exact hupdate

end Denotes

/-! ## Words -/

section Words

variable (cpu : CpuSim) (addr : UInt32)

/-- Every place of the memory, counted from an address. -/
theorem memory_eq_load {a : Nat} (ha : a < 256) :
    cpu.memory (UInt8.ofNat a) =
      cpu.load (addr + UInt32.ofNat ((a + 256 - addr.toNat % 256) % 256)) := by
  unfold CpuSim.load
  rw [cpuIndex_add]
  refine congrArg cpu.memory (UInt8.toNat.inj ?_)
  rw [UInt8.toNat_add, UInt8.toNat_ofNat', UInt8.toNat_ofNat', UInt32.toNat_toUInt8]
  omega

theorem load_add {i : Nat} :
    cpu.load (addr + UInt32.ofNat i) = cpu.memory (UInt8.ofNat ((addr.toNat + i) % 256)) := by
  unfold CpuSim.load
  rw [cpuIndex_add]
  refine congrArg cpu.memory (UInt8.toNat.inj ?_)
  rw [UInt8.toNat_add, UInt8.toNat_ofNat', UInt8.toNat_ofNat', UInt32.toNat_toUInt8]
  omega

theorem toUInt8_shiftRight (val : UInt32) {i : Nat} (hi : i < 4) :
    (val >>> UInt32.ofNat (8 * i)).toUInt8.toNat = val.toNat / 256 ^ i % 256 := by
  rw [UInt32.toNat_toUInt8, UInt32.toNat_shiftRight, UInt32.toNat_ofNat',
    Nat.mod_eq_of_lt (by omega : 8 * i < 2 ^ 32), Nat.mod_eq_of_lt (by omega : 8 * i < 32),
    Nat.shiftRight_eq_div_pow, Nat.pow_mul]

/-- Four bytes next to each other are a number. -/
theorem word_toNat (b₀ b₁ b₂ b₃ : UInt8) :
    (b₀.toUInt32 ||| b₁.toUInt32 <<< 8 ||| b₂.toUInt32 <<< 16 ||| b₃.toUInt32 <<< 24).toNat =
      b₀.toNat + 2 ^ 8 * b₁.toNat + 2 ^ 16 * b₂.toNat + 2 ^ 24 * b₃.toNat := by
  have h₀ := b₀.toNat_lt
  have h₁ := b₁.toNat_lt
  have h₂ := b₂.toNat_lt
  have h₃ := b₃.toNat_lt
  generalize hn : b₀.toNat + 2 ^ 8 * b₁.toNat + 2 ^ 16 * b₂.toNat + 2 ^ 24 * b₃.toNat = n
  have hval : (UInt32.ofNat n).toNat = n := by
    rw [UInt32.toNat_ofNat', Nat.mod_eq_of_lt (by omega)]
  have hbyte (i : Nat) (hi : i < 4) {b : UInt8} (hb : n / 256 ^ i % 256 = b.toNat) :
      (UInt32.ofNat n >>> UInt32.ofNat (8 * i)).toUInt8 = b := by
    refine UInt8.toNat.inj ?_
    rw [toUInt8_shiftRight _ hi, hval, hb]
  have hword := word_of_bytes (UInt32.ofNat n)
  have hfirst : (UInt32.ofNat n).toUInt8 = b₀ := by
    rw [← hbyte 0 (by decide) (by omega : n / 256 ^ 0 % 256 = b₀.toNat)]
    exact congrArg UInt32.toUInt8 UInt32.shiftRight_zero.symm
  rw [hfirst, show (UInt32.ofNat n >>> 8).toUInt8 = b₁ from hbyte 1 (by decide) (by omega),
    show (UInt32.ofNat n >>> 16).toUInt8 = b₂ from hbyte 2 (by decide) (by omega),
    show (UInt32.ofNat n >>> 24).toUInt8 = b₃ from hbyte 3 (by decide) (by omega)] at hword
  rw [hword, hval]

end Words

namespace Denotes

variable {cpu : CpuSim} {s : Processor}

theorem storeWord (h : Denotes cpu s) {addr val : UInt32} {a n : Nat} (ha : addr.toNat = a)
    (hn : val.toNat = n) : Denotes (cpu.storeWord addr val) (s.storeWord a n) := by
  refine ⟨h.reg, h.flag, fun c hc => ?_⟩
  rw [memory_eq_load _ addr hc, load_storeWord (by omega), ha, Processor.storeWord]
  dsimp only
  split
  next hnear => rw [toUInt8_shiftRight _ hnear, hn]
  next => rw [← ha, ← memory_eq_load cpu addr hc, h.memory c hc]

theorem loadWord (h : Denotes cpu s) {addr : UInt32} {a : Nat} (ha : addr.toNat = a) :
    (cpu.loadWord addr).toNat = s.loadWord a := by
  have hbyte (i : Nat) : (cpu.load (addr + UInt32.ofNat i)).toNat = s.memory ((a + i) % 256) := by
    rw [load_add, ha]
    exact h.memory _ (Nat.mod_lt _ (by decide))
  rw [loadWord_eq, word_toNat, hbyte, hbyte, hbyte, hbyte]
  rfl

/-- Every instruction does on the simulator what it does on the machine. -/
theorem perform (h : Denotes cpu s) (dst : Option Operand) {a b : UInt32} {a' b' : Nat}
    (ha : a.toNat = a') (hb : b.toNat = b') (m : Mnemonic) :
    (performMnemonic (operandText dst) a b cpu m).1 =
        (if (s.perform dst a' b' m).1 then .done else .divisionByZero) ∧
      Denotes (performMnemonic (operandText dst) a b cpu m).2 (s.perform dst a' b' m).2 := by
  have hsize : UInt32.size = 2 ^ 32 := rfl
  have ha' := a.toNat_lt
  have hb' := b.toNat_lt
  have hsub (a b : UInt32) : (a - b).toNat = (a.toNat + 2 ^ 32 - b.toNat) % 2 ^ 32 := by
    have hb := b.toNat_lt
    rw [UInt32.toNat_sub, Nat.add_comm, ← Nat.add_sub_assoc hb.le]
  cases m with
  | mov => exact ⟨rfl, by rw [performMnemonic, setOperand_operandText]; exact h.put dst hb⟩
  | add =>
      have hresult : (a + b).toNat = (a' + b') % 2 ^ 32 := by rw [UInt32.toNat_add, ha, hb]
      refine ⟨rfl, ?_⟩
      rw [performMnemonic, setOperand_operandText]
      exact (h.updateFlags hresult).put dst hresult
  | sub =>
      have hresult : (a - b).toNat = (a' + 2 ^ 32 - b') % 2 ^ 32 := by rw [hsub, ha, hb]
      refine ⟨rfl, ?_⟩
      rw [performMnemonic, setOperand_operandText]
      exact (h.borrow hresult ha hb).put dst hresult
  | mul =>
      have hproduct : (a.toUInt64 * b.toUInt64).toNat = a' * b' := by
        rw [UInt64.toNat_mul, UInt32.toNat_toUInt64, UInt32.toNat_toUInt64, ha, hb]
        refine Nat.mod_eq_of_lt ?_
        rw [← ha, ← hb]
        exact (Nat.mul_lt_mul'' ha' hb').trans_eq (by decide)
      refine ⟨rfl, (h.setReg .eax ?_).setReg .edx ?_⟩
      · rw [UInt64.toNat_toUInt32, hproduct]
      · rw [UInt64.toNat_toUInt32, UInt64.toNat_shiftRight, hproduct, Nat.shiftRight_eq_div_pow]
        refine Nat.mod_eq_of_lt (Nat.div_lt_of_lt_mul ?_)
        rw [← ha, ← hb]
        exact Nat.mul_lt_mul'' ha' hb'
  | div =>
      have hzero : b = 0 ↔ b' = 0 := by rw [← UInt32.toNat_inj, hb, UInt32.toNat_zero]
      rw [performMnemonic, Processor.perform]
      by_cases hb0 : b' = 0
      · rw [if_pos hb0, if_pos (hzero.mpr hb0)]
        exact ⟨rfl, h⟩
      · rw [if_neg hb0, if_neg (mt hzero.mp hb0)]
        refine ⟨rfl, (h.setReg .eax ?_).setReg .edx ?_⟩
        · rw [UInt32.toNat_div, ha, hb]
        · rw [UInt32.toNat_mod, ha, hb]
  | and =>
      have hresult : (a &&& b).toNat = a' &&& b' := by rw [UInt32.toNat_and, ha, hb]
      refine ⟨rfl, ?_⟩
      rw [performMnemonic, setOperand_operandText]
      exact (h.updateFlags hresult).put dst hresult
  | or =>
      have hresult : (a ||| b).toNat = a' ||| b' := by rw [UInt32.toNat_or, ha, hb]
      refine ⟨rfl, ?_⟩
      rw [performMnemonic, setOperand_operandText]
      exact (h.updateFlags hresult).put dst hresult
  | xor =>
      have hresult : (a ^^^ b).toNat = a' ^^^ b' := by rw [UInt32.toNat_xor, ha, hb]
      refine ⟨rfl, ?_⟩
      rw [performMnemonic, setOperand_operandText]
      exact (h.updateFlags hresult).put dst hresult
  | not =>
      refine ⟨rfl, ?_⟩
      rw [performMnemonic, setOperand_operandText]
      exact h.put dst (by rw [UInt32.toNat_not, ha, hsize])
  | shl =>
      have hresult : (a <<< b).toNat = a' * 2 ^ (b' % 32) % 2 ^ 32 := by
        rw [UInt32.toNat_shiftLeft, Nat.shiftLeft_eq, ha, hb]
      refine ⟨rfl, ?_⟩
      rw [performMnemonic, setOperand_operandText]
      exact (h.updateFlags hresult).put dst hresult
  | shr =>
      have hresult : (a >>> b).toNat = a' / 2 ^ (b' % 32) := by
        rw [UInt32.toNat_shiftRight, Nat.shiftRight_eq_div_pow, ha, hb]
      refine ⟨rfl, ?_⟩
      rw [performMnemonic, setOperand_operandText]
      exact (h.updateFlags hresult).put dst hresult
  | inc =>
      have hresult : (a + 1).toNat = (a' + 1) % 2 ^ 32 := by rw [UInt32.toNat_add, ha]; rfl
      refine ⟨rfl, ?_⟩
      rw [performMnemonic, setOperand_operandText]
      exact (h.updateFlags hresult).put dst hresult
  | dec =>
      have hresult : (a - 1).toNat = (a' + 2 ^ 32 - 1) % 2 ^ 32 := by rw [hsub, ha]; rfl
      refine ⟨rfl, ?_⟩
      rw [performMnemonic, setOperand_operandText]
      exact (h.updateFlags hresult).put dst hresult
  | cmp =>
      have hresult : (a - b).toNat = (a' + 2 ^ 32 - b') % 2 ^ 32 := by rw [hsub, ha, hb]
      exact ⟨rfl, h.borrow hresult ha hb⟩
  | test =>
      have hresult : (a &&& b).toNat = a' &&& b' := by rw [UInt32.toNat_and, ha, hb]
      exact ⟨rfl, h.updateFlags hresult⟩
  | push =>
      have hesp : (cpu.reg .esp - 4).toNat = (s.reg .esp + 2 ^ 32 - 4) % 2 ^ 32 := by
        rw [hsub, h.reg]
        rfl
      exact ⟨rfl, (h.setReg .esp hesp).storeWord hesp ha⟩
  | pop =>
      have hesp : (cpu.reg .esp + 4).toNat = (s.reg .esp + 4) % 2 ^ 32 := by
        rw [UInt32.toNat_add, h.reg]
        rfl
      refine ⟨rfl, ?_⟩
      rw [performMnemonic, setOperand_operandText]
      exact (h.setReg .esp hesp).put dst (h.loadWord (h.reg .esp))
  | nop => exact ⟨rfl, h⟩

/-- One instruction, however it is written. -/
theorem execute (h : Denotes cpu s) {text : List UInt8} {i : Instr} (hwrites : Writes text i) :
    (cpuSimExecute text cpu).1 = (if (s.step i).1 then .done else .divisionByZero) ∧
      Denotes (cpuSimExecute text cpu).2 (s.step i).2 := by
  have heip : (cpu.reg .eip + 1).toNat = (s.reg .eip + 1) % 2 ^ 32 := by
    rw [UInt32.toNat_add, h.reg]
    rfl
  rw [cpuSimExecute_of_writes hwrites]
  exact (h.setReg .eip heip).perform i.dst (h.value i.dst) (h.value i.src) i.mnemonic

end Denotes

/-- The answers of the instructions, and the processor after them. -/
def cpuSimAnswers : List (List UInt8) → CpuSim → List Int × CpuSim
  | [], cpu => ([], cpu)
  | text :: texts, cpu =>
      let (result, cpu) := cpuSimExecute text cpu
      let (answers, cpu) := cpuSimAnswers texts cpu
      (result.status :: answers, cpu)

/-- A program that is written down, in whatever layout, does on the simulator what it does on
the machine of numbers, and -1 is the answer exactly where there is no quotient. -/
theorem programs_denote {texts : List (List UInt8)} {program : List Instr}
    (hwrites : List.Forall₂ Writes texts program) (cpu : CpuSim) :
    Denotes (cpuSimAnswers texts cpu).2 (cpu.processor.run program).2 ∧
      (cpuSimAnswers texts cpu).1 =
        (cpu.processor.run program).1.map fun done => if done then 0 else -1 := by
  have hcpu := cpu.denotes_processor
  generalize cpu.processor = s at hcpu ⊢
  induction hwrites generalizing cpu s with
  | nil => exact ⟨hcpu, rfl⟩
  | @cons text i texts program htext _ ih =>
      obtain ⟨hanswer, hnext⟩ := hcpu.execute htext
      obtain ⟨hdenotes, hanswers⟩ := ih _ _ hnext
      refine ⟨hdenotes, ?_⟩
      rw [cpuSimAnswers, Processor.run]
      dsimp only
      rw [List.map_cons, hanswers, hanswer]
      cases (s.step i).1 <;> rfl

/-- A program of two lines; the second one divides by zero. -/
theorem programs_denote_division :
    let texts := [ascii ['m', 'o', 'v', ' ', ' ', 'e', 'a', 'x', ',', ' ', 'e', 's', 'p'],
      ascii ['d', 'i', 'v', ' ', 'e', 'a', 'x', ',', 'e', 'b', 'x']]
    let program : List Instr := [⟨.mov, some (.register .eax), some (.register .esp)⟩,
      ⟨.div, some (.register .eax), some (.register .ebx)⟩]
    Denotes (cpuSimAnswers texts cpuSimReset).2 (cpuSimReset.processor.run program).2 ∧
      (cpuSimAnswers texts cpuSimReset).1 =
        (cpuSimReset.processor.run program).1.map fun done => if done then 0 else -1 :=
  programs_denote (.cons
      (.two .mov 1 (.register .eax) [0x2C, 0x20] (.register .esp) (by decide +kernel)
        (by decide +kernel) (by decide +kernel) (by decide +kernel))
      (.cons (.two .div 0 (.register .eax) [0x2C] (.register .ebx) (by decide +kernel)
        (by decide +kernel) (by decide +kernel) (by decide +kernel)) .nil))
    cpuSimReset

end Dosfs
