import Mathlib.Data.Int.ModEq
import Dosfs.Kernel.Idt
import Dosfs.Libc.Atoi
import Dosfs.Shell.Files

/-!
# The calculator of the shell

A translation of `cmd_calc` of `shell/shell.c`. The command looks at the divisor before
it divides. The quotient of the least number by -1 is the one it overlooks; `atoi` wraps,
so many texts stand for these two numbers.
-/

namespace Dosfs

/-! ## The command -/

/-- Division of 32-bit signed numbers has a result. -/
def DivisionDefined (a b : Int32) : Prop := b ≠ 0 ∧ ¬(a = Int32.minValue ∧ b = -1)

instance (a b : Int32) : Decidable (DivisionDefined a b) :=
  inferInstanceAs (Decidable (_ ∧ _))

/-- The instruction behind `/` and `%`: quotient and remainder, or exception 0. -/
def idiv (a b : Int32) : Option (Int32 × Int32) :=
  if DivisionDefined a b then some (a / b, a % b) else none

/-- What `cmd_calc` comes to. -/
inductive CalcOutcome
  | usage
  | divisionByZero
  | unknownOperator
  | result (a : Int32) (op : UInt8) (b res : Int32)
  | exception (served : Served)
  deriving DecidableEq

/-- The text of the first number, the operator, and the text of the second number. Behind
an expression that ends at the operator the command goes on with the memory behind it. -/
def calcTexts (expr : CString) (behind : List UInt8) : List UInt8 × UInt8 × List UInt8 :=
  let first := skipSpaces expr.bytes
  match skipSpaces (first.dropWhile (· != 0x20)) with
  | op :: rest => (first, op, skipSpaces rest)
  | [] => (first, 0, skipSpaces behind)

/-- The cases of `/` and `%`, which look at the divisor first. -/
def calcDivide (k : Interrupts) (a : Int32) (op : UInt8) (b : Int32)
    (pick : Int32 × Int32 → Int32) : CalcOutcome :=
  if b = 0 then .divisionByZero
  else
    match idiv a b with
    | some results => .result a op b (pick results)
    | none => .exception (isrHandler 0 k)

def cmdCalc (k : Interrupts) (expr : CString) (behind : List UInt8) : CalcOutcome :=
  let (first, op, second) := calcTexts expr behind
  if first = [] then .usage
  else
    let a := atoi first
    let b := atoi second
    match op with
    | 0x2B => .result a op b (a + b)
    | 0x2D => .result a op b (a - b)
    | 0x2A => .result a op b (a * b)
    | 0x2F => calcDivide k a op b Prod.fst
    | 0x25 => calcDivide k a op b Prod.snd
    | _ => .unknownOperator

/-! ## The texts that overflow -/

theorem int32_ofInt_eq_iff (m n : Int) :
    Int32.ofInt m = Int32.ofInt n ↔ m ≡ n [ZMOD 2 ^ 32] := by
  have hsize : (Int32.size : Int) = 2 ^ 32 := rfl
  rw [← Int32.toInt_inj, Int32.toInt_ofInt, Int32.toInt_ofInt, Int.ModEq]
  constructor
  · intro h
    rw [← hsize, ← Int.bmod_emod (x := m), h, Int.bmod_emod]
  · intro h
    rw [← Int.emod_bmod, hsize, h, ← hsize, Int.emod_bmod]

/-- The texts of a quotient that 32 bits cannot hold: the numbers they write are the least
one and -1, up to multiples of 2 ^ 32. -/
def Overflows (expr : CString) (behind : List UInt8) : Prop :=
  let (first, op, second) := calcTexts expr behind
  (op = 0x2F ∨ op = 0x25) ∧ leadingInt first ≡ 2 ^ 31 [ZMOD 2 ^ 32] ∧
    leadingInt second ≡ -1 [ZMOD 2 ^ 32]

theorem atoi_eq_minValue_iff (s : List UInt8) :
    atoi s = Int32.minValue ↔ leadingInt s ≡ 2 ^ 31 [ZMOD 2 ^ 32] := by
  rw [atoi_eq, ← int32_ofInt_eq_iff]
  rfl

theorem atoi_eq_neg_one_iff (s : List UInt8) :
    atoi s = -1 ↔ leadingInt s ≡ -1 [ZMOD 2 ^ 32] := by
  rw [atoi_eq, ← int32_ofInt_eq_iff]
  rfl

theorem calcDivide_defined_iff (k : Interrupts) (a : Int32) (op : UInt8) (b : Int32)
    (pick : Int32 × Int32 → Int32) :
    (∀ served, calcDivide k a op b pick ≠ .exception served) ↔
      ¬(a = Int32.minValue ∧ b = -1) := by
  unfold calcDivide idiv
  by_cases hzero : b = 0
  · rw [if_pos hzero]
    exact iff_of_true (fun _ => nofun) fun h => absurd (hzero.symm.trans h.2) (by decide)
  · rw [if_neg hzero]
    by_cases hoverflow : a = Int32.minValue ∧ b = -1
    · rw [if_neg fun h => h.2 hoverflow]
      exact iff_of_false (fun h => h _ rfl) (not_not_intro hoverflow)
    · rw [if_pos ⟨hzero, hoverflow⟩]
      exact iff_of_true (fun _ => nofun) hoverflow

/-- The command raises no exception exactly on the other texts. -/
theorem calc_defined_iff (k : Interrupts) (expr : CString) (behind : List UInt8) :
    (∀ served, cmdCalc k expr behind ≠ .exception served) ↔ ¬ Overflows expr behind := by
  unfold cmdCalc Overflows
  obtain ⟨first, op, second⟩ := calcTexts expr behind
  dsimp only
  rw [← atoi_eq_minValue_iff, ← atoi_eq_neg_one_iff]
  by_cases hfirst : first = []
  · rw [if_pos hfirst, hfirst]
    exact iff_of_true (fun _ => nofun) fun h => absurd h.2.1 (by decide)
  · rw [if_neg hfirst]
    split
    case h_4 => exact (calcDivide_defined_iff k _ _ _ _).trans (by simp)
    case h_5 => exact (calcDivide_defined_iff k _ _ _ _).trans (by simp)
    case h_6 hslash hpercent =>
      exact iff_of_true (fun _ => nofun) fun h => h.1.elim hslash hpercent
    all_goals exact iff_of_true (fun _ => nofun) fun h => absurd h.1 (by decide)

/-- The line ` -2147483648 / -1` passes the guard, and stops a kernel that has set up its
drivers. -/
theorem calc_min_by_neg_one :
    let expr : CString := ⟨[0x20, 0x2D, 0x32, 0x31, 0x34, 0x37, 0x34, 0x38, 0x33, 0x36, 0x34, 0x38,
      0x20, 0x2F, 0x20, 0x2D, 0x31], by simp⟩
    let k := [.timerInit 100, .keyboardInit, .syscallInit].foldl initDriver
      (idtInit (fun _ => 0) resetInterrupts)
    cmdCalc k expr [] = .exception .halted := by
  intro expr k
  have hcalc : cmdCalc k expr [] = .exception (isrHandler 0 k) := rfl
  rw [hcalc, ((idtInit_inv _ _).initDrivers _).exception_halts (by decide)]

end Dosfs
