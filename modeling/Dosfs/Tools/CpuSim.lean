import Dosfs.Libc.Atoi

/-!
# The processor simulator

A translation of `tools/cpu_sim.c`. An instruction is a text: the name up to the first
space, and two operands, each of which is copied to a buffer of its own and then read.
-/

namespace Dosfs

/-- The bytes of a text, for the names that the source compares with. -/
def ascii (text : List Char) : List UInt8 := text.map fun c => UInt8.ofNat c.toNat

/-! ## The state -/

/-- The registers that `find_reg` knows. -/
inductive CpuReg
  | eax
  | ebx
  | ecx
  | edx
  | esi
  | edi
  | ebp
  | esp
  | eip
  deriving DecidableEq

namespace CpuReg

def name : CpuReg → List UInt8
  | .eax => ascii ['e', 'a', 'x']
  | .ebx => ascii ['e', 'b', 'x']
  | .ecx => ascii ['e', 'c', 'x']
  | .edx => ascii ['e', 'd', 'x']
  | .esi => ascii ['e', 's', 'i']
  | .edi => ascii ['e', 'd', 'i']
  | .ebp => ascii ['e', 'b', 'p']
  | .esp => ascii ['e', 's', 'p']
  | .eip => ascii ['e', 'i', 'p']

/-- The registers in the order of the comparisons. -/
def all : List CpuReg := [.eax, .ebx, .ecx, .edx, .esi, .edi, .ebp, .esp, .eip]

end CpuReg

def findReg (name : List UInt8) : Option CpuReg := CpuReg.all.find? fun r => r.name == name

/-- `cpu_sim_state_t`; the memory is addressed modulo 256. -/
structure CpuSim where
  reg : CpuReg → UInt32
  eflags : UInt32
  memory : UInt8 → UInt8

namespace CpuSim

def setReg (r : CpuReg) (val : UInt32) (cpu : CpuSim) : CpuSim :=
  { cpu with reg := fun r' => if r' = r then val else cpu.reg r' }

/-- `cpu.memory[addr & 0xFF]` -/
def load (addr : UInt32) (cpu : CpuSim) : UInt8 := cpu.memory (addr &&& 0xFF).toUInt8

/-- `cpu.memory[addr & 0xFF] = val & 0xFF` -/
def store (addr val : UInt32) (cpu : CpuSim) : CpuSim :=
  { cpu with memory := fun a =>
      if a = (addr &&& 0xFF).toUInt8 then (val &&& 0xFF).toUInt8 else cpu.memory a }

/-- The four assignments of `push`. -/
def storeWord (addr val : UInt32) (cpu : CpuSim) : CpuSim :=
  (((cpu.store addr val).store (addr + 1) (val >>> 8)).store (addr + 2) (val >>> 16)).store
    (addr + 3) (val >>> 24)

/-- The value that `pop` puts together. -/
def loadWord (addr : UInt32) (cpu : CpuSim) : UInt32 :=
  (cpu.load addr).toUInt32 ||| ((cpu.load (addr + 1)).toUInt32 <<< 8) |||
    ((cpu.load (addr + 2)).toUInt32 <<< 16) ||| ((cpu.load (addr + 3)).toUInt32 <<< 24)

end CpuSim

def cpuSimReset : CpuSim where
  reg r := if r = .esp then 0xFF else 0
  eflags := 0x00000002
  memory _ := 0

/-- `cpu_sim_set_reg`, which knows the flags besides. -/
def cpuSimSetReg (name : List UInt8) (value : UInt32) (cpu : CpuSim) : CpuSim :=
  match findReg name with
  | some r => cpu.setReg r value
  | none =>
      if name = ascii ['e', 'f', 'l', 'a', 'g', 's'] ∨ name = ascii ['f', 'l', 'a', 'g', 's'] then
        { cpu with eflags := value }
      else cpu

/-- The shifts and exclusive ors that leave the parity of a byte in its lowest bit. -/
def foldParity (p : UInt8) : UInt8 :=
  let p := p ^^^ (p >>> 4)
  let p := p ^^^ (p >>> 2)
  p ^^^ (p >>> 1)

def updateFlags (result : UInt32) (cpu : CpuSim) : CpuSim :=
  let eflags := cpu.eflags &&& ~~~0x8D5
  let eflags := if result = 0 then eflags ||| 0x40 else eflags
  let eflags := if result &&& 0x80000000 ≠ 0 then eflags ||| 0x80 else eflags
  let eflags := if foldParity result.toUInt8 &&& 1 = 0 then eflags ||| 0x04 else eflags
  { cpu with eflags }

/-! ## Operands -/

/-- What a character adds to a number in base sixteen. -/
def hexDigit (c : UInt8) : UInt32 :=
  if 0x30 ≤ c ∧ c ≤ 0x39 then (c - 0x30).toUInt32
  else if 0x61 ≤ c ∧ c ≤ 0x66 then (c - 0x61 + 10).toUInt32
  else if 0x41 ≤ c ∧ c ≤ 0x46 then (c - 0x41 + 10).toUInt32
  else 0

/-- Every character shifts the number, also one that is no digit. -/
def hexLoop (text : List UInt8) : UInt32 :=
  text.foldl (fun out c => (out <<< 4) + hexDigit c) 0

/-- The digits of a memory address in base ten; other characters are skipped. -/
def addressLoop (text : List UInt8) : UInt32 :=
  text.foldl (fun addr c => if isDigit c then addr * 10 + (c - 0x30).toUInt32 else addr) 0

/-- The digits of an immediate value, up to the first other character. -/
def immediateLoop (out : UInt32) : List UInt8 → UInt32
  | [] => out
  | c :: s => if isDigit c then immediateLoop (out * 10 + (c - 0x30).toUInt32) s else out

def immediateValue : List UInt8 → UInt32
  | 0x30 :: 0x78 :: s => hexLoop s
  | 0x2D :: s => -immediateLoop 0 s
  | s => immediateLoop 0 s

inductive OperandType
  | immediate
  | register
  | memory
  deriving DecidableEq

/-- The type of an operand and its value; the value of a memory operand is the address. -/
def parseOperand (s : List UInt8) (cpu : CpuSim) : OperandType × UInt32 :=
  match s.dropWhile (· == 0x20) with
  | 0x5B :: 0x30 :: 0x78 :: s => (.memory, hexLoop (s.takeWhile (· != 0x5D)))
  | 0x5B :: s => (.memory, addressLoop (s.takeWhile (· != 0x5D)))
  | s =>
      match findReg s with
      | some r => (.register, cpu.reg r)
      | none => (.immediate, immediateValue s)

/-- `set_operand`: only a register can be set. -/
def setOperand (s : List UInt8) (val : UInt32) (cpu : CpuSim) : CpuSim :=
  match s.dropWhile (· == 0x20) with
  | 0x5B :: _ => cpu
  | s =>
      match findReg s with
      | some r => cpu.setReg r val
      | none => cpu

/-! ## Instructions -/

/-- The loop that copies a part of the text to a buffer with room for so many bytes; the
copy, and what is left of the text. -/
def copyToken (stop : UInt8 → Bool) : Nat → List UInt8 → List UInt8 × List UInt8
  | room + 1, c :: text =>
      if stop c then ([], c :: text)
      else
        let (token, rest) := copyToken stop room text
        (c :: token, rest)
  | _, text => ([], text)

/-- The three parts of an instruction. -/
structure Tokens where
  op : List UInt8
  operand1 : List UInt8
  operand2 : List UInt8
  deriving DecidableEq

def tokens (instruction : List UInt8) : Tokens :=
  let (op, rest) := copyToken (· == 0x20) 15 instruction
  let rest := rest.dropWhile (· == 0x20)
  let (operand1, rest) := copyToken (fun c => c == 0x2C || c == 0x20) 31 rest
  let rest := rest.dropWhile fun c => c == 0x20 || c == 0x2C
  let (operand2, _) := copyToken (fun _ => false) 31 rest
  { op, operand1, operand2 }

inductive Mnemonic
  | mov
  | add
  | sub
  | mul
  | div
  | and
  | or
  | xor
  | not
  | shl
  | shr
  | inc
  | dec
  | cmp
  | test
  | push
  | pop
  | nop
  deriving DecidableEq

namespace Mnemonic

def name : Mnemonic → List UInt8
  | .mov => ascii ['m', 'o', 'v']
  | .add => ascii ['a', 'd', 'd']
  | .sub => ascii ['s', 'u', 'b']
  | .mul => ascii ['m', 'u', 'l']
  | .div => ascii ['d', 'i', 'v']
  | .and => ascii ['a', 'n', 'd']
  | .or => ascii ['o', 'r']
  | .xor => ascii ['x', 'o', 'r']
  | .not => ascii ['n', 'o', 't']
  | .shl => ascii ['s', 'h', 'l']
  | .shr => ascii ['s', 'h', 'r']
  | .inc => ascii ['i', 'n', 'c']
  | .dec => ascii ['d', 'e', 'c']
  | .cmp => ascii ['c', 'm', 'p']
  | .test => ascii ['t', 'e', 's', 't']
  | .push => ascii ['p', 'u', 's', 'h']
  | .pop => ascii ['p', 'o', 'p']
  | .nop => ascii ['n', 'o', 'p']

/-- The instructions in the order of the comparisons. -/
def all : List Mnemonic :=
  [.mov, .add, .sub, .mul, .div, .and, .or, .xor, .not, .shl, .shr, .inc, .dec, .cmp, .test,
    .push, .pop, .nop]

end Mnemonic

def findMnemonic (op : List UInt8) : Option Mnemonic := Mnemonic.all.find? fun m => m.name == op

/-- What an instruction comes to; the answer is 0 or -1. -/
inductive CpuResult
  | done
  | divisionByZero
  | unknownInstruction (op : List UInt8)
  deriving DecidableEq

def CpuResult.status : CpuResult → Int
  | .done => 0
  | .divisionByZero | .unknownInstruction _ => -1

/-- The branches of `cpu_sim_execute`, with the operands and their values. A result of 64
bits goes to two registers; the processor takes a shift modulo 32. -/
def performMnemonic (operand1 : List UInt8) (op1 op2 : UInt32) (cpu : CpuSim) :
    Mnemonic → CpuResult × CpuSim
  | .mov => (.done, setOperand operand1 op2 cpu)
  | .add => (.done, setOperand operand1 (op1 + op2) (updateFlags (op1 + op2) cpu))
  | .sub =>
      let cpu := updateFlags (op1 - op2) cpu
      let cpu := if op1 < op2 then { cpu with eflags := cpu.eflags ||| 1 } else cpu
      (.done, setOperand operand1 (op1 - op2) cpu)
  | .mul =>
      let result := op1.toUInt64 * op2.toUInt64
      (.done, (cpu.setReg .eax result.toUInt32).setReg .edx (result >>> 32).toUInt32)
  | .div =>
      if op2 = 0 then (.divisionByZero, cpu)
      else (.done, (cpu.setReg .eax (op1 / op2)).setReg .edx (op1 % op2))
  | .and => (.done, setOperand operand1 (op1 &&& op2) (updateFlags (op1 &&& op2) cpu))
  | .or => (.done, setOperand operand1 (op1 ||| op2) (updateFlags (op1 ||| op2) cpu))
  | .xor => (.done, setOperand operand1 (op1 ^^^ op2) (updateFlags (op1 ^^^ op2) cpu))
  | .not => (.done, setOperand operand1 (~~~op1) cpu)
  | .shl => (.done, setOperand operand1 (op1 <<< op2) (updateFlags (op1 <<< op2) cpu))
  | .shr => (.done, setOperand operand1 (op1 >>> op2) (updateFlags (op1 >>> op2) cpu))
  | .inc => (.done, setOperand operand1 (op1 + 1) (updateFlags (op1 + 1) cpu))
  | .dec => (.done, setOperand operand1 (op1 - 1) (updateFlags (op1 - 1) cpu))
  | .cmp =>
      let cpu := updateFlags (op1 - op2) cpu
      (.done, if op1 < op2 then { cpu with eflags := cpu.eflags ||| 1 } else cpu)
  | .test => (.done, updateFlags (op1 &&& op2) cpu)
  | .push =>
      let esp := cpu.reg .esp - 4
      (.done, (cpu.setReg .esp esp).storeWord esp op1)
  | .pop =>
      let esp := cpu.reg .esp
      (.done, setOperand operand1 (cpu.loadWord esp) (cpu.setReg .esp (esp + 4)))
  | .nop => (.done, cpu)

/-- `cpu_sim_execute`. The operands are read before the instruction counter moves on. -/
def cpuSimExecute (instruction : List UInt8) (cpu : CpuSim) : CpuResult × CpuSim :=
  let t := tokens instruction
  let op1 := (parseOperand t.operand1 cpu).2
  let op2 := (parseOperand t.operand2 cpu).2
  let cpu := cpu.setReg .eip (cpu.reg .eip + 1)
  match findMnemonic t.op with
  | some m => performMnemonic t.operand1 op1 op2 cpu m
  | none => (.unknownInstruction t.op, cpu)

end Dosfs
