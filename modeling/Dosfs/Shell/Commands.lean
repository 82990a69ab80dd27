import Dosfs.Tools.CpuSim
import Dosfs.Shell.Files

/-!
# Command lines

A translation of `process_command` of `shell/shell.c`: which function a line calls and
with which arguments, and what becomes of the simulated processor. A command that takes
arguments is handed the rest of the line together with the space in front of it.
-/

namespace Dosfs

/-! ## The commands -/

/-- The functions that a command line can call. -/
inductive ShellFn
  | help | clear | echo | uname | mem | uptime | ps | touch | writeFile | cat | rm | cp | mv
  | hexdump | tmpfsList | reboot | shutdown | color | createProcess | ipcTest | date | whoami
  | pwd | calc | history | reset | beep | about | tuiTest | cpuinfo | ver | sysinfo | pci
  | colors | random | disk | fatls | fatread | fatwrite | ping | curl | acpiSimExecuteCommand
  | cpuSimDump | cpuSimExecute | reg | dano | unknown
  deriving DecidableEq

/-- A comparison of the line with the name of a command. -/
structure CommandRow where
  name : List UInt8
  takesArgs : Bool
  fn : ShellFn

/-- `strcmp(cmd, name) == 0` -/
def exactRow (name : List UInt8) (fn : ShellFn) : CommandRow := ⟨name, false, fn⟩

/-- `strncmp(cmd, name, n) == 0 && (cmd[n] == ' ' || cmd[n] == '\0')` -/
def wordRow (name : List UInt8) (fn : ShellFn) : CommandRow := ⟨name, true, fn⟩

def CommandRow.selects (cmd : List UInt8) (row : CommandRow) : Bool :=
  if row.takesArgs then
    row.name.isPrefixOf cmd && (cmd.drop row.name.length).headD 0x20 == 0x20
  else cmd == row.name

/-- The comparisons of `process_command`, in their order. -/
def commandTable : List CommandRow := [
  exactRow (ascii ['h', 'e', 'l', 'p']) .help,
  exactRow (ascii ['?']) .help,
  exactRow (ascii ['c', 'l', 'e', 'a', 'r']) .clear,
  exactRow (ascii ['c', 'l', 's']) .clear,
  wordRow (ascii ['e', 'c', 'h', 'o']) .echo,
  exactRow (ascii ['u', 'n', 'a', 'm', 'e']) .uname,
  exactRow (ascii ['m', 'e', 'm']) .mem,
  exactRow (ascii ['f', 'r', 'e', 'e']) .mem,
  exactRow (ascii ['u', 'p', 't', 'i', 'm', 'e']) .uptime,
  exactRow (ascii ['p', 's']) .ps,
  wordRow (ascii ['t', 'o', 'u', 'c', 'h']) .touch,
  wordRow (ascii ['w', 'r', 'i', 't', 'e']) .writeFile,
  wordRow (ascii ['c', 'a', 't']) .cat,
  wordRow (ascii ['r', 'm']) .rm,
  wordRow (ascii ['c', 'p']) .cp,
  wordRow (ascii ['m', 'v']) .mv,
  wordRow (ascii ['h', 'e', 'x', 'd', 'u', 'm', 'p']) .hexdump,
  exactRow (ascii ['l', 's']) .tmpfsList,
  exactRow (ascii ['r', 'e', 'b', 'o', 'o', 't']) .reboot,
  exactRow (ascii ['s', 'h', 'u', 't', 'd', 'o', 'w', 'n']) .shutdown,
  wordRow (ascii ['c', 'o', 'l', 'o', 'r']) .color,
  wordRow (ascii ['c', 'r', 'e', 'a', 't', 'e']) .createProcess,
  exactRow (ascii ['i', 'p', 'c']) .ipcTest,
  exactRow (ascii ['d', 'a', 't', 'e']) .date,
  exactRow (ascii ['w', 'h', 'o', 'a', 'm', 'i']) .whoami,
  exactRow (ascii ['p', 'w', 'd']) .pwd,
  wordRow (ascii ['c', 'a', 'l', 'c']) .calc,
  exactRow (ascii ['h', 'i', 's', 't', 'o', 'r', 'y']) .history,
  exactRow (ascii ['r', 'e', 's', 'e', 't']) .reset,
  exactRow (ascii ['b', 'e', 'e', 'p']) .beep,
  exactRow (ascii ['a', 'b', 'o', 'u', 't']) .about,
  exactRow (ascii ['t', 'u', 'i', 't', 'e', 's', 't']) .tuiTest,
  exactRow (ascii ['c', 'p', 'u', 'i', 'n', 'f', 'o']) .cpuinfo,
  exactRow (ascii ['v', 'e', 'r']) .ver,
  exactRow (ascii ['s', 'y', 's', 'i', 'n', 'f', 'o']) .sysinfo,
  exactRow (ascii ['p', 'c', 'i']) .pci,
  exactRow (ascii ['c', 'o', 'l', 'o', 'r', 's']) .colors,
  wordRow (ascii ['r', 'a', 'n', 'd', 'o', 'm']) .random,
  exactRow (ascii ['d', 'i', 's', 'k']) .disk,
  exactRow (ascii ['f', 'a', 't', 'l', 's']) .fatls,
  wordRow (ascii ['f', 'a', 't', 'r', 'e', 'a', 'd']) .fatread,
  wordRow (ascii ['f', 'a', 't', 'w', 'r', 'i', 't', 'e']) .fatwrite,
  wordRow (ascii ['p', 'i', 'n', 'g']) .ping,
  wordRow (ascii ['c', 'u', 'r', 'l']) .curl,
  wordRow (ascii ['s', 'a', 'c', 'p', 'i']) .acpiSimExecuteCommand,
  exactRow (ascii ['d', 'u', 'm', 'p']) .cpuSimDump,
  wordRow (ascii ['a', 's', 'm']) .cpuSimExecute,
  wordRow (ascii ['r', 'e', 'g']) .reg,
  wordRow (ascii ['d', 'a', 'n', 'o']) .dano]

/-- The function that a line calls, and its argument. -/
def findCommand (cmd : List UInt8) : ShellFn × List UInt8 :=
  match commandTable.find? (·.selects cmd) with
  | some row => (row.fn, cmd.drop row.name.length)
  | none => (.unknown, cmd)

/-- What the shell keeps of the lines, and the simulated processor. -/
structure ShellState where
  history : List (List UInt8)
  cpu : CpuSim

/-- `add_to_history`: 20 lines of 255 characters, the oldest of which goes first. -/
def addToHistory (cmd : List UInt8) (history : List (List UInt8)) : List (List UInt8) :=
  (if history.length < 20 then history else history.drop 1) ++ [cmd.take 255]

/-- The number of the command `reg`. -/
def regValue : List UInt8 → UInt32
  | 0x30 :: 0x78 :: args => hexLoop args
  | args => immediateLoop 0 args

/-- The command `reg`: with a name and a number it sets a register. -/
def regCommand (args : List UInt8) (cpu : CpuSim) : CpuSim :=
  let (name, rest) := copyToken (· == 0x20) 15 (skipSpaces args)
  let rest := skipSpaces rest
  if rest = [] then cpu else cpuSimSetReg name (regValue rest) cpu

/-- What a line comes to. -/
inductive CommandResult
  | empty
  | executed (result : CpuResult)
  | called (fn : ShellFn) (args : List UInt8)
  deriving DecidableEq

def processCommand (cmd : List UInt8) (s : ShellState) : CommandResult × ShellState :=
  let cmd := skipSpaces cmd
  if cmd = [] then (.empty, s)
  else
    let s := { s with history := addToHistory cmd s.history }
    match findCommand cmd with
    | (.cpuSimExecute, args) =>
        let (result, cpu) := cpuSimExecute args s.cpu
        (.executed result, { s with cpu })
    | (.reg, args) => (.called .reg args, { s with cpu := regCommand args s.cpu })
    | (fn, args) => (.called fn args, s)

/-! ## The command that executes an instruction -/

/-- A row that selects a line has a name that the line starts with. -/
theorem CommandRow.name_of_selects {cmd : List UInt8} {row : CommandRow}
    (h : row.selects cmd = true) : row.name <+: cmd := by
  unfold selects at h
  split at h
  · exact List.isPrefixOf_iff_prefix.mp (Bool.and_eq_true_iff.mp h).1
  · rw [beq_iff_eq.mp h]

theorem findCommand_asm (rest : List UInt8) :
    findCommand (ascii ['a', 's', 'm'] ++ 0x20 :: rest) = (.cpuSimExecute, 0x20 :: rest) := by
  have htable : commandTable = commandTable.take 46 ++
      wordRow (ascii ['a', 's', 'm']) .cpuSimExecute :: commandTable.drop 47 := rfl
  have hbefore : ∀ row ∈ commandTable.take 46, ¬ row.name.take 3 <+: ascii ['a', 's', 'm'] := by
    decide
  have hnone : (commandTable.take 46).find?
      (·.selects (ascii ['a', 's', 'm'] ++ 0x20 :: rest)) = none := by
    refine List.find?_eq_none.mpr fun row hrow hselects => hbefore row hrow ?_
    exact (CommandRow.name_of_selects hselects).take 3
  rw [findCommand, htable, List.find?_append, hnone]
  rfl

/-- The simulator refuses a text: no such instruction, or a division by zero. -/
def Refused (instruction : List UInt8) (cpu : CpuSim) : Prop :=
  findMnemonic (tokens instruction).op = none ∨
    findMnemonic (tokens instruction).op = some .div ∧
      (parseOperand (tokens instruction).operand2 cpu).2 = 0

section Execute

variable {instruction : List UInt8} {cpu : CpuSim}

/-- A text that is refused moves the instruction counter and does nothing else. -/
theorem Refused.execute (h : Refused instruction cpu) :
    (cpuSimExecute instruction cpu).1.status = -1 ∧
      (cpuSimExecute instruction cpu).2 = cpu.setReg .eip (cpu.reg .eip + 1) := by
  rcases h with hop | ⟨hop, hzero⟩
  · rw [cpuSimExecute, hop]
    exact ⟨rfl, rfl⟩
  · rw [cpuSimExecute, hop, hzero]
    exact ⟨rfl, rfl⟩

theorem status_of_not_refused (h : ¬ Refused instruction cpu) :
    (cpuSimExecute instruction cpu).1.status = 0 := by
  obtain ⟨hsome, hdivisor⟩ := not_or.mp h
  obtain ⟨m, hop⟩ := Option.ne_none_iff_exists'.mp hsome
  rw [cpuSimExecute, hop]
  cases m with
  | div =>
      have hne : (parseOperand (tokens instruction).operand2 cpu).2 ≠ 0 :=
        fun hzero => hdivisor ⟨hop, hzero⟩
      change CpuResult.status (if _ then _ else _ : CpuResult × CpuSim).1 = 0
      rw [if_neg hne]
      rfl
  | _ => rfl

/-- The part of the text before its first space is empty. -/
theorem refused_of_space (rest : List UInt8) : Refused (0x20 :: rest) cpu := by
  have hop : (tokens (0x20 :: rest)).op = [] := by
    simp [tokens, copyToken]
  exact Or.inl (by rw [hop]; decide)

end Execute

/-- The command does what the simulator does with the instruction, whatever spaces are put
in front of it, exactly when the simulator refuses the instruction. -/
theorem asm_executes_iff (instruction : List UInt8) (spaces : Nat) (shell : ShellState) :
    let line := ascii ['a', 's', 'm', ' '] ++ (List.replicate spaces 0x20 ++ instruction)
    (∃ result, (processCommand line shell).1 = .executed result ∧
        result.status = (cpuSimExecute instruction shell.cpu).1.status ∧
        (processCommand line shell).2.cpu = (cpuSimExecute instruction shell.cpu).2) ↔
      Refused instruction shell.cpu := by
  intro line
  let args := 0x20 :: (List.replicate spaces 0x20 ++ instruction)
  have hline : line = ascii ['a', 's', 'm'] ++ args := rfl
  have hprocess : processCommand line shell =
      (.executed (cpuSimExecute args shell.cpu).1,
        ⟨addToHistory line shell.history, (cpuSimExecute args shell.cpu).2⟩) := by
    have hskip : skipSpaces line = line := rfl
    have hne : line ≠ [] := List.cons_ne_nil _ _
    rw [processCommand, hskip, if_neg hne, hline, findCommand_asm]
  obtain ⟨hstatus, hcpu⟩ :=
    (refused_of_space (List.replicate spaces 0x20 ++ instruction) : Refused _ shell.cpu).execute
  rw [hprocess]
  constructor
  · rintro ⟨result, hresult, hsame, -⟩
    obtain rfl := CommandResult.executed.inj hresult
    by_contra hdone
    rw [hstatus, status_of_not_refused hdone] at hsame
    exact absurd hsame (by decide)
  · intro h
    exact ⟨_, rfl, hstatus.trans h.execute.1.symm, hcpu.trans h.execute.2.symm⟩

/-- `asm nop` fails where the simulator carries out `nop`. -/
theorem asm_nop_fails :
    (processCommand (ascii ['a', 's', 'm', ' ', 'n', 'o', 'p']) ⟨[], cpuSimReset⟩).1 =
        .executed (.unknownInstruction []) ∧
      (cpuSimExecute (ascii ['n', 'o', 'p']) cpuSimReset).1 = .done := by
  decide

end Dosfs
