import Dosfs.Tools.CpuSim

/-!
# The stack of the simulated processor

`push` and `pop` keep words of four bytes in a memory of 256 bytes, below a pointer that
counts modulo 2 ^ 32. Up to 64 words lie side by side there, and the two instructions are
those of a list.
-/

namespace Dosfs

/-! ## Words in the memory -/

section Words

variable {cpu : CpuSim} {addr val : UInt32}

theorem cpuIndex_eq (addr : UInt32) : (addr &&& 0xFF).toUInt8 = addr.toUInt8 :=
  (UInt32.toUInt8_and addr 0xFF).trans UInt8.and_neg_one

theorem cpuIndex_add (addr : UInt32) (n : Nat) :
    ((addr + UInt32.ofNat n) &&& 0xFF).toUInt8 = addr.toUInt8 + UInt8.ofNat n := by
  rw [cpuIndex_eq, UInt32.toUInt8_add, UInt32.toUInt8_ofNat']

theorem addr_add_zero (addr : UInt32) : addr + UInt32.ofNat 0 = addr := UInt32.add_zero addr

/-- Bytes at different places modulo 256 do not meet. -/
theorem load_store {n j : Nat} (hn : n < 256) (hj : j < 256) :
    (cpu.store (addr + UInt32.ofNat j) val).load (addr + UInt32.ofNat n) =
      if n = j then val.toUInt8 else cpu.load (addr + UInt32.ofNat n) := by
  have hindex : addr.toUInt8 + UInt8.ofNat n = addr.toUInt8 + UInt8.ofNat j ↔ n = j := by
    rw [UInt8.add_right_inj, ← UInt8.toNat_inj, UInt8.toNat_ofNat', UInt8.toNat_ofNat',
      Nat.mod_eq_of_lt hn, Nat.mod_eq_of_lt hj]
  unfold CpuSim.load CpuSim.store
  dsimp only
  rw [cpuIndex_add, cpuIndex_add, cpuIndex_eq]
  simp only [hindex]

theorem storeWord_eq : cpu.storeWord addr val =
    (((cpu.store (addr + UInt32.ofNat 0) val).store (addr + UInt32.ofNat 1) (val >>> 8)).store
      (addr + UInt32.ofNat 2) (val >>> 16)).store (addr + UInt32.ofNat 3) (val >>> 24) := by
  rw [addr_add_zero]
  rfl

theorem loadWord_eq : cpu.loadWord addr =
    ((cpu.load (addr + UInt32.ofNat 0)).toUInt32 |||
      ((cpu.load (addr + UInt32.ofNat 1)).toUInt32 <<< 8) |||
      ((cpu.load (addr + UInt32.ofNat 2)).toUInt32 <<< 16) |||
      ((cpu.load (addr + UInt32.ofNat 3)).toUInt32 <<< 24)) := by
  rw [addr_add_zero]
  rfl

theorem load_storeWord {n : Nat} (hn : n < 256) :
    (cpu.storeWord addr val).load (addr + UInt32.ofNat n) =
      if n < 4 then (val >>> UInt32.ofNat (8 * n)).toUInt8
      else cpu.load (addr + UInt32.ofNat n) := by
  rw [storeWord_eq, load_store hn (by decide), load_store hn (by decide),
    load_store hn (by decide), load_store hn (by decide)]
  rcases (by omega : n = 0 ∨ n = 1 ∨ n = 2 ∨ n = 3 ∨ 4 ≤ n) with rfl | rfl | rfl | rfl | h
  · exact congrArg UInt32.toUInt8 UInt32.shiftRight_zero.symm
  · rfl
  · rfl
  · rfl
  · rw [if_neg (by omega), if_neg (by omega), if_neg (by omega), if_neg (by omega),
      if_neg (by omega)]

theorem word_of_bytes (val : UInt32) :
    val.toUInt8.toUInt32 ||| (val >>> 8).toUInt8.toUInt32 <<< 8 |||
      (val >>> 16).toUInt8.toUInt32 <<< 16 ||| (val >>> 24).toUInt8.toUInt32 <<< 24 = val := by
  refine UInt32.eq_of_toBitVec_eq (BitVec.eq_of_getLsbD_eq fun i hi => ?_)
  simp only [UInt32.toBitVec_or, UInt32.toBitVec_shiftLeft, UInt8.toBitVec_toUInt32,
    UInt32.toBitVec_toUInt8, UInt32.toBitVec_shiftRight, BitVec.getLsbD_or]
  simp [BitVec.getLsbD_shiftLeft, BitVec.getLsbD_ushiftRight, -BitVec.toNat_umod]
  -- the byte that the bit lies in
  rcases (by omega : i < 8 ∨ 8 ≤ i ∧ i < 16 ∨ 16 ≤ i ∧ i < 24 ∨ 24 ≤ i) with h | h | h | h <;>
    grind

theorem loadWord_storeWord : (cpu.storeWord addr val).loadWord addr = val := by
  rw [loadWord_eq, load_storeWord (by decide), load_storeWord (by decide),
    load_storeWord (by decide), load_storeWord (by decide)]
  have hzero : val >>> UInt32.ofNat (8 * 0) = val := UInt32.shiftRight_zero
  rw [if_pos (by decide), if_pos (by decide), if_pos (by decide), if_pos (by decide), hzero]
  exact word_of_bytes val

/-- The word at another multiple of four is not touched, however the addresses wrap. -/
theorem loadWord_storeWord_of_ne {k : Nat} (hpos : 1 ≤ k) (hk : k < 64) :
    (cpu.storeWord addr val).loadWord (addr + UInt32.ofNat (4 * k)) =
      cpu.loadWord (addr + UInt32.ofNat (4 * k)) := by
  have hbyte (i : Nat) (hi : i < 4) :
      (cpu.storeWord addr val).load (addr + UInt32.ofNat (4 * k) + UInt32.ofNat i) =
        cpu.load (addr + UInt32.ofNat (4 * k) + UInt32.ofNat i) := by
    rw [UInt32.add_assoc, ← UInt32.ofNat_add, load_storeWord (by omega), if_neg (by omega)]
  rw [loadWord_eq, loadWord_eq, hbyte 0 (by decide), hbyte 1 (by decide), hbyte 2 (by decide),
    hbyte 3 (by decide)]

/-- The next word of the stack. -/
theorem nextWord_eq (addr : UInt32) (k : Nat) :
    addr + 4 + UInt32.ofNat (4 * k) = addr + UInt32.ofNat (4 * (k + 1)) := by
  rw [Nat.mul_add, UInt32.ofNat_add, UInt32.add_comm (UInt32.ofNat (4 * k)), ← UInt32.add_assoc]
  rfl

/-- The pointer above one word more. -/
theorem pushedPointer_eq (esp₀ : UInt32) (n : Nat) :
    esp₀ - UInt32.ofNat (4 * n) - 4 = esp₀ - UInt32.ofNat (4 * (n + 1)) := by
  rw [Nat.mul_add, UInt32.ofNat_add]
  grind

end Words

/-! ## A stack of words -/

/-- The operands that the instructions of the stack may have here. -/
inductive StackOperand
  | immediate (val : UInt32)
  | register (r : CpuReg)
  deriving DecidableEq

/-- The operand that a text stands for: an immediate value, or a register other than the
two that the instructions move themselves. -/
def stackOperand (s : List UInt8) : Option StackOperand :=
  match s.dropWhile (· == 0x20) with
  | 0x5B :: _ => none
  | s =>
      match findReg s with
      | some .esp | some .eip => none
      | some r => some (.register r)
      | none => some (.immediate (immediateValue s))

inductive StackInstr
  | push (operand : StackOperand)
  | pop (operand : StackOperand)
  deriving DecidableEq

def stackInstr (instruction : List UInt8) : Option StackInstr :=
  match findMnemonic (tokens instruction).op with
  | some .push => (stackOperand (tokens instruction).operand1).map .push
  | some .pop => (stackOperand (tokens instruction).operand1).map .pop
  | _ => none

/-- Registers and a list of words, which has no addresses. -/
structure StackMachine where
  regs : CpuReg → UInt32
  stack : List UInt32

def StackOperand.value (regs : CpuReg → UInt32) : StackOperand → UInt32
  | .immediate val => val
  | .register r => regs r

def StackMachine.step (s : StackMachine) : StackInstr → StackMachine
  | .push operand => { s with stack := operand.value s.regs :: s.stack }
  | .pop operand =>
      match s.stack, operand with
      | [], _ => s
      | _ :: stack, .immediate _ => { s with stack }
      | val :: stack, .register r =>
          { regs := fun r' => if r' = r then val else s.regs r', stack }

/-- The number of pushes without a pop, as long as it stays between 0 and 64. -/
def outstanding (depth : Nat) : List StackInstr → Option Nat
  | [] => some depth
  | .push _ :: instrs => if depth < 64 then outstanding (depth + 1) instrs else none
  | .pop _ :: instrs =>
      match depth with
      | 0 => none
      | depth + 1 => outstanding depth instrs

/-- What an operand receives; an immediate value receives nothing. -/
def StackOperand.set (val : UInt32) (cpu : CpuSim) : StackOperand → CpuSim
  | .immediate _ => cpu
  | .register r => cpu.setReg r val

/-! ## The instructions -/

section Instructions

variable {s instruction : List UInt8} {operand : StackOperand} {cpu : CpuSim}

/-- An operand of the stack is an immediate value, or a register that is neither of the two. -/
theorem stackOperand_cases (h : stackOperand s = some operand) :
    let s := s.dropWhile (· == 0x20)
    (∀ rest, s ≠ 0x5B :: rest) ∧
      ((∃ r, findReg s = some r ∧ r ≠ .esp ∧ r ≠ .eip ∧ operand = .register r) ∨
        findReg s = none ∧ operand = .immediate (immediateValue s)) := by
  intro s'
  unfold stackOperand at h
  split at h
  next => exact absurd h nofun
  next hmemory =>
    refine ⟨hmemory, ?_⟩
    split at h
    next => exact absurd h nofun
    next => exact absurd h nofun
    next r hesp heip hfind =>
      exact Or.inl ⟨r, hfind, hesp, heip, (Option.some.inj h).symm⟩
    next hfind => exact Or.inr ⟨hfind, (Option.some.inj h).symm⟩

theorem parseOperand_value (h : stackOperand s = some operand) :
    (parseOperand s cpu).2 = operand.value cpu.reg := by
  obtain ⟨hmemory, hoperand⟩ := stackOperand_cases h
  unfold parseOperand
  split
  next heq => exact absurd heq (hmemory _)
  next heq => exact absurd heq (hmemory _)
  next =>
    rcases hoperand with ⟨r, hfind, -, -, rfl⟩ | ⟨hfind, rfl⟩ <;> rw [hfind] <;> rfl

theorem setOperand_eq (h : stackOperand s = some operand) (val : UInt32) :
    setOperand s val cpu = operand.set val cpu := by
  obtain ⟨hmemory, hoperand⟩ := stackOperand_cases h
  unfold setOperand
  split
  next heq => exact absurd heq (hmemory _)
  next => rcases hoperand with ⟨r, hfind, -, -, rfl⟩ | ⟨hfind, rfl⟩ <;> rw [hfind] <;> rfl

theorem stackInstr_cases {instr : StackInstr} (h : stackInstr instruction = some instr) :
    ∃ operand, stackOperand (tokens instruction).operand1 = some operand ∧
      (findMnemonic (tokens instruction).op = some .push ∧ instr = .push operand ∨
        findMnemonic (tokens instruction).op = some .pop ∧ instr = .pop operand) := by
  unfold stackInstr at h
  split at h
  next hop =>
    obtain ⟨operand, hoperand, rfl⟩ := Option.map_eq_some_iff.mp h
    exact ⟨operand, hoperand, Or.inl ⟨hop, rfl⟩⟩
  next hop =>
    obtain ⟨operand, hoperand, rfl⟩ := Option.map_eq_some_iff.mp h
    exact ⟨operand, hoperand, Or.inr ⟨hop, rfl⟩⟩
  next => exact absurd h nofun

theorem execute_push (h : stackInstr instruction = some (.push operand)) :
    (cpuSimExecute instruction cpu).2 =
      ((cpu.setReg .eip (cpu.reg .eip + 1)).setReg .esp (cpu.reg .esp - 4)).storeWord
        (cpu.reg .esp - 4) (operand.value cpu.reg) := by
  obtain ⟨_, hoperand, ⟨hop, heq⟩ | ⟨-, heq⟩⟩ := stackInstr_cases h
  · obtain rfl := StackInstr.push.inj heq
    rw [cpuSimExecute, hop]
    dsimp only [performMnemonic]
    rw [parseOperand_value hoperand]
    rfl
  · exact absurd heq nofun

theorem execute_pop (h : stackInstr instruction = some (.pop operand)) :
    (cpuSimExecute instruction cpu).2 = operand.set (cpu.loadWord (cpu.reg .esp))
      ((cpu.setReg .eip (cpu.reg .eip + 1)).setReg .esp (cpu.reg .esp + 4)) := by
  obtain ⟨_, hoperand, ⟨-, heq⟩ | ⟨hop, heq⟩⟩ := stackInstr_cases h
  · exact absurd heq nofun
  · obtain rfl := StackInstr.pop.inj heq
    rw [cpuSimExecute, hop]
    exact setOperand_eq hoperand _

/-- The instructions name no register that they move. -/
theorem stackInstr_register {instr : StackInstr} {r : CpuReg}
    (h : stackInstr instruction = some instr)
    (hinstr : instr = .push (.register r) ∨ instr = .pop (.register r)) : r ≠ .esp ∧ r ≠ .eip := by
  obtain ⟨operand, hoperand, hcases⟩ := stackInstr_cases h
  obtain rfl : operand = .register r := by
    rcases hcases with ⟨-, rfl⟩ | ⟨-, rfl⟩ <;> rcases hinstr with heq | heq <;> cases heq <;> rfl
  rcases (stackOperand_cases hoperand).2 with ⟨r', -, hesp, heip, heq⟩ | ⟨-, heq⟩
  · obtain rfl := StackOperand.register.inj heq
    exact ⟨hesp, heip⟩
  · exact absurd heq nofun

end Instructions

/-! ## The simulation -/

/-- The processor and the list of words agree; `esp₀` is the pointer of the empty stack. -/
structure Simulates (esp₀ : UInt32) (s : StackMachine) (cpu : CpuSim) : Prop where
  regs : ∀ r, r ≠ .esp → r ≠ .eip → cpu.reg r = s.regs r
  esp : cpu.reg .esp = esp₀ - UInt32.ofNat (4 * s.stack.length)
  words : ∀ k (hk : k < s.stack.length),
    cpu.loadWord (cpu.reg .esp + UInt32.ofNat (4 * k)) = s.stack[k]

section Simulation

variable {esp₀ : UInt32} {s : StackMachine} {cpu : CpuSim} {instruction : List UInt8}
  {operand : StackOperand}

theorem Simulates.value_eq (hsim : Simulates esp₀ s cpu)
    (hoperand : ∀ r, operand = .register r → r ≠ .esp ∧ r ≠ .eip) :
    operand.value cpu.reg = operand.value s.regs := by
  cases operand with
  | immediate val => rfl
  | register r => exact hsim.regs r (hoperand r rfl).1 (hoperand r rfl).2

theorem Simulates.push (hsim : Simulates esp₀ s cpu)
    (h : stackInstr instruction = some (.push operand)) (hroom : s.stack.length < 64) :
    Simulates esp₀ (s.step (.push operand)) (cpuSimExecute instruction cpu).2 := by
  have hvalue : operand.value cpu.reg = operand.value s.regs :=
    hsim.value_eq fun r hr => stackInstr_register h (Or.inl (by rw [hr]))
  have hesp : cpu.reg .esp - 4 = esp₀ - UInt32.ofNat (4 * (s.stack.length + 1)) := by
    rw [hsim.esp, pushedPointer_eq]
  rw [execute_push h, hvalue]
  refine ⟨fun r hr hr' => ?_, hesp, fun k hk => ?_⟩
  · refine Eq.trans ?_ (hsim.regs r hr hr')
    exact (if_neg hr).trans (if_neg hr')
  · change CpuSim.loadWord (cpu.reg .esp - 4 + UInt32.ofNat (4 * k)) _ = _
    cases k with
    | zero =>
        rw [Nat.mul_zero, addr_add_zero, loadWord_storeWord]
        rfl
    | succ k =>
        have hlt : k < s.stack.length := Nat.lt_of_succ_lt_succ hk
        have haddr : cpu.reg .esp - 4 + UInt32.ofNat (4 * (k + 1)) =
            cpu.reg .esp + UInt32.ofNat (4 * k) := by
          rw [← nextWord_eq, UInt32.sub_add_cancel]
        rw [loadWord_storeWord_of_ne (by omega) (by omega), haddr]
        exact hsim.words k hlt

theorem Simulates.pop (hsim : Simulates esp₀ s cpu)
    (h : stackInstr instruction = some (.pop operand)) (hne : s.stack ≠ []) :
    Simulates esp₀ (s.step (.pop operand)) (cpuSimExecute instruction cpu).2 := by
  obtain ⟨regs, stack⟩ := s
  obtain ⟨val, stack, rfl⟩ := List.exists_cons_of_ne_nil hne
  have htop : cpu.loadWord (cpu.reg .esp) = val := by
    have hword := hsim.words 0 (Nat.zero_lt_succ _)
    rw [Nat.mul_zero, addr_add_zero] at hword
    exact hword
  have hesp : cpu.reg .esp + 4 = esp₀ - UInt32.ofNat (4 * stack.length) := by
    rw [hsim.esp, List.length_cons, ← pushedPointer_eq, UInt32.sub_add_cancel]
  have hpopped : Simulates esp₀ ⟨regs, stack⟩
      ((cpu.setReg .eip (cpu.reg .eip + 1)).setReg .esp (cpu.reg .esp + 4)) := by
    refine ⟨fun r hr hr' => ?_, hesp, fun k hk => ?_⟩
    · refine Eq.trans ?_ (hsim.regs r hr hr')
      exact (if_neg hr).trans (if_neg hr')
    · have hword := hsim.words (k + 1) (Nat.succ_lt_succ hk)
      change cpu.loadWord (cpu.reg .esp + 4 + UInt32.ofNat (4 * k)) = _
      rw [nextWord_eq]
      exact hword
  rw [execute_pop h, htop]
  cases operand with
  | immediate _ => exact hpopped
  | register r =>
      obtain ⟨hr, hr'⟩ := stackInstr_register h (Or.inr rfl)
      have hsame : (((cpu.setReg .eip (cpu.reg .eip + 1)).setReg .esp (cpu.reg .esp + 4)).setReg
          r val).reg .esp = cpu.reg .esp + 4 := if_neg hr.symm
      refine ⟨fun r' hesp' heip' => ?_, hsame.trans hesp, fun k hk => ?_⟩
      · by_cases heq : r' = r
        · exact (if_pos heq).trans (if_pos heq).symm
        · exact (if_neg heq).trans ((hpopped.regs r' hesp' heip').trans (if_neg heq).symm)
      · change CpuSim.loadWord (CpuSim.reg (CpuSim.setReg r val _) .esp + _) _ = _
        rw [hsame]
        exact hpopped.words k hk

/-- The instructions one after the other. -/
def cpuSimRun (instructions : List (List UInt8)) (cpu : CpuSim) : CpuSim :=
  instructions.foldl (fun cpu instruction => (cpuSimExecute instruction cpu).2) cpu

theorem Simulates.run {instructions : List (List UInt8)} {instrs : List StackInstr} {depth : Nat}
    (hinstrs : instructions.map stackInstr = instrs.map some) (hsim : Simulates esp₀ s cpu)
    (hdepth : outstanding s.stack.length instrs = some depth) :
    Simulates esp₀ (instrs.foldl StackMachine.step s) (cpuSimRun instructions cpu) ∧
      (instrs.foldl StackMachine.step s).stack.length = depth := by
  induction instrs generalizing instructions s cpu with
  | nil =>
      obtain rfl := List.map_eq_nil_iff.mp hinstrs
      exact ⟨hsim, Option.some.inj hdepth⟩
  | cons instr instrs ih =>
      obtain ⟨instruction, instructions, rfl, hinstr, hrest⟩ := List.map_eq_cons_iff.mp hinstrs
      cases instr with
      | push operand =>
          rw [outstanding] at hdepth
          split at hdepth
          next hroom =>
            have hnext := ih hrest (hsim.push hinstr hroom) hdepth
            exact hnext
          next => exact absurd hdepth nofun
      | pop operand =>
          obtain ⟨regs, stack⟩ := s
          cases stack with
          | nil => exact absurd hdepth nofun
          | cons val stack =>
              have hpop := hsim.pop hinstr (List.cons_ne_nil _ _)
              have hstack : (StackMachine.step ⟨regs, val :: stack⟩ (.pop operand)).stack =
                  stack := by
                cases operand <;> rfl
              have hnext := ih hrest hpop (by rw [hstack]; exact hdepth)
              exact hnext

/-- Words below those that were pushed are not looked at. -/
theorem stack_above {instrs : List StackInstr} {top base : List UInt32} {depth : Nat}
    (hstack : s.stack = top ++ base) (hdepth : outstanding top.length instrs = some depth) :
    ∃ top', (instrs.foldl StackMachine.step s).stack = top' ++ base ∧ top'.length = depth := by
  induction instrs generalizing s top with
  | nil => exact ⟨top, hstack, Option.some.inj hdepth⟩
  | cons instr instrs ih =>
      cases instr with
      | push operand =>
          rw [outstanding] at hdepth
          split at hdepth
          next =>
            refine @ih _ (operand.value s.regs :: top) ?_ hdepth
            rw [StackMachine.step, hstack, List.cons_append]
          next => exact absurd hdepth nofun
      | pop operand =>
          cases top with
          | nil => exact absurd hdepth nofun
          | cons val top =>
              refine @ih _ top ?_ hdepth
              obtain ⟨regs, stack⟩ := s
              obtain rfl : stack = val :: (top ++ base) := hstack
              cases operand <;> rfl

end Simulation

theorem outstanding_append (depth : Nat) (instrs instrs' : List StackInstr) :
    outstanding depth (instrs ++ instrs') =
      (outstanding depth instrs).bind (outstanding · instrs') := by
  induction instrs generalizing depth with
  | nil => rfl
  | cons instr instrs ih =>
      cases instr with
      | push operand =>
          rw [List.cons_append, outstanding, outstanding]
          split
          · exact ih _
          · rfl
      | pop operand =>
          cases depth with
          | zero => rfl
          | succ depth => exact ih depth

theorem simulates_start (cpu : CpuSim) : Simulates (cpu.reg .esp) ⟨cpu.reg, []⟩ cpu :=
  ⟨fun _ _ _ => rfl, (UInt32.sub_zero _).symm, fun _ hk => absurd hk (Nat.not_lt_zero _)⟩

/-- The register of a `pop` that ends a run receives what the matching `push` was given. -/
theorem pop_delivers {instructions : List (List UInt8)} {instrs before middle : List StackInstr}
    {operand : StackOperand} {r : CpuReg} {depth : Nat} (cpu : CpuSim)
    (hinstrs : instructions.map stackInstr = instrs.map some)
    (hdepth : outstanding 0 instrs = some depth) (hmiddle : outstanding 0 middle = some 0)
    (hsplit : instrs = before ++ .push operand :: (middle ++ [.pop (.register r)])) :
    (cpuSimRun instructions cpu).reg r =
      operand.value (cpuSimRun (instructions.take before.length) cpu).reg := by
  have hregister {r' : CpuReg} {instr : StackInstr} (hmem : instr ∈ instrs)
      (hr : instr = .push (.register r') ∨ instr = .pop (.register r')) :
      r' ≠ .esp ∧ r' ≠ .eip := by
    have hmem' : some instr ∈ instructions.map stackInstr := by
      rw [hinstrs]
      exact List.mem_map_of_mem hmem
    obtain ⟨instruction, -, hinstr⟩ := List.mem_map.mp hmem'
    exact stackInstr_register hinstr hr
  have hpush : StackInstr.push operand ∈ instrs := by rw [hsplit]; simp
  have hpop : StackInstr.pop (.register r) ∈ instrs := by rw [hsplit]; simp
  have hbefore : (instructions.take before.length).map stackInstr = before.map some := by
    rw [List.map_take, hinstrs, hsplit, List.map_append, List.take_left' (by simp)]
  obtain ⟨hsim, -⟩ := (simulates_start cpu).run hinstrs hdepth
  rw [hsplit, outstanding_append] at hdepth
  obtain ⟨depth₀, hdepth₀, -⟩ := Option.bind_eq_some_iff.mp hdepth
  obtain ⟨hsim₀, -⟩ := (simulates_start cpu).run hbefore hdepth₀
  rw [hsim.regs r (hregister hpop (Or.inr rfl)).1 (hregister hpop (Or.inr rfl)).2,
    hsim₀.value_eq fun r' hr' => hregister hpush (Or.inl (by rw [hr'])), hsplit,
    List.foldl_append, List.foldl_cons, List.foldl_append]
  -- the word that was pushed is on top again when the middle is done
  obtain ⟨top, htop, hnil⟩ := @stack_above (StackMachine.step
    (before.foldl StackMachine.step ⟨cpu.reg, []⟩) (.push operand)) middle [] _ 0 rfl hmiddle
  rw [List.length_eq_zero_iff.mp hnil, List.nil_append] at htop
  generalize middle.foldl StackMachine.step _ = s at htop
  obtain ⟨regs, stack⟩ := s
  obtain rfl : stack = _ := htop
  exact if_pos rfl

/-- Within 64 words, the registers are those of the machine with a list, every `pop` delivers
what the matching `push` put there, and the pointer comes back. -/
theorem stack_lifo (cpu : CpuSim) {instructions : List (List UInt8)} {instrs : List StackInstr}
    (hinstrs : instructions.map stackInstr = instrs.map some) {depth : Nat}
    (hdepth : outstanding 0 instrs = some depth) :
    (∀ r, r ≠ .esp → r ≠ .eip → (cpuSimRun instructions cpu).reg r =
        (instrs.foldl StackMachine.step ⟨cpu.reg, []⟩).regs r) ∧
      (∀ before operand middle r after, outstanding 0 middle = some 0 →
        instrs = before ++ .push operand :: (middle ++ .pop (.register r) :: after) →
        (cpuSimRun (instructions.take (before.length + middle.length + 2)) cpu).reg r =
          operand.value (cpuSimRun (instructions.take before.length) cpu).reg) ∧
      (depth = 0 → (cpuSimRun instructions cpu).reg .esp = cpu.reg .esp) := by
  obtain ⟨hsim, hlen⟩ := (simulates_start cpu).run hinstrs hdepth
  refine ⟨hsim.regs, fun before operand middle r after hmiddle hsplit => ?_, fun hzero => ?_⟩
  · let part : List StackInstr := before ++ .push operand :: (middle ++ [.pop (.register r)])
    have hpart : instrs = part ++ after := by simp [hsplit, part]
    have hlength : before.length + middle.length + 2 = part.length := by
      simp [part]
      omega
    have hinstrs' : (instructions.take part.length).map stackInstr = part.map some := by
      rw [List.map_take, hinstrs, hpart, List.map_append, List.take_left' (by simp)]
    rw [hpart, outstanding_append] at hdepth
    obtain ⟨depth₀, hdepth₀, -⟩ := Option.bind_eq_some_iff.mp hdepth
    have hdelivered := pop_delivers cpu hinstrs' hdepth₀ hmiddle rfl
    rw [List.take_take, min_eq_left (by omega)] at hdelivered
    rw [hlength]
    exact hdelivered
  · rw [hsim.esp, hlen, hzero]
    exact UInt32.sub_zero _

/-- A word pushed across the end of the address space, and popped to another register. -/
theorem stack_lifo_wraps :
    (cpuSimRun [ascii ['p', 'u', 's', 'h', ' ', '0', 'x', 'b', 'e', 'e', 'f'],
      ascii ['p', 'o', 'p', ' ', 'e', 'c', 'x']] (cpuSimReset.setReg .esp 2)).reg .ecx = 0xBEEF :=
  (@stack_lifo (cpuSimReset.setReg .esp 2)
    [ascii ['p', 'u', 's', 'h', ' ', '0', 'x', 'b', 'e', 'e', 'f'],
      ascii ['p', 'o', 'p', ' ', 'e', 'c', 'x']]
    [.push (.immediate 0xBEEF), .pop (.register .ecx)] (by decide) 0 rfl).2.1
    [] (.immediate 0xBEEF) [] .ecx [] rfl rfl

end Dosfs
