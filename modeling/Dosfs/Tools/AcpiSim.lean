import Mathlib.Data.List.DropRight
import Dosfs.Shell.Files
import Dosfs.Drivers.Acpi
import Dosfs.Drivers.VgaText
import Dosfs.Tools.CpuText

/-!
# The ACPI simulator

A translation of `tools/acpi_sim.c`: the simulated registers, and the commands of `sacpi`
with what they print about them.
-/

namespace Dosfs

open Foundation

/-! ## The state -/

/-- The registers that `write` and `read` know. -/
inductive SimReg
  | pm1aCnt
  | pm1bCnt
  | smiCmd
  | gpe0En
  | gpe0Sts
  deriving DecidableEq

namespace SimReg

def name : SimReg → List UInt8
  | .pm1aCnt => ascii ['p', 'm', '1', 'a', '_', 'c', 'n', 't']
  | .pm1bCnt => ascii ['p', 'm', '1', 'b', '_', 'c', 'n', 't']
  | .smiCmd => ascii ['s', 'm', 'i', '_', 'c', 'm', 'd']
  | .gpe0En => ascii ['g', 'p', 'e', '0', '_', 'e', 'n']
  | .gpe0Sts => ascii ['g', 'p', 'e', '0', '_', 's', 't', 's']

/-- The name that `read` prints. -/
def title : SimReg → List UInt8
  | .pm1aCnt => ascii ['P', 'M', '1', 'a', '_', 'C', 'N', 'T']
  | .pm1bCnt => ascii ['P', 'M', '1', 'b', '_', 'C', 'N', 'T']
  | .smiCmd => ascii ['S', 'M', 'I', '_', 'C', 'M', 'D']
  | .gpe0En => ascii ['G', 'P', 'E', '0', '_', 'E', 'N']
  | .gpe0Sts => ascii ['G', 'P', 'E', '0', '_', 'S', 'T', 'S']

/-- The registers in the order of the comparisons. -/
def all : List SimReg := [.pm1aCnt, .pm1bCnt, .smiCmd, .gpe0En, .gpe0Sts]

end SimReg

def findSimReg (name : List UInt8) : Option SimReg := SimReg.all.find? fun r => r.name == name

/-- The statics of `acpi_sim.c`; the state is the text in `sim_state`. -/
structure AcpiSim where
  pm1aEvt : UInt16
  pm1aCnt : UInt16
  pm1bCnt : UInt16
  smiCmd : UInt8
  gpe0Sts : UInt32
  gpe0En : UInt32
  state : List UInt8
  deriving DecidableEq

/-- `acpi_sim_init` -/
def acpiSimInit : AcpiSim where
  pm1aEvt := 0
  pm1aCnt := 0
  pm1bCnt := 0
  smiCmd := 0
  gpe0Sts := 0
  gpe0En := 0xFFFFFFFF
  state := ascii ['S', '0']

/-- The value that `read` prints. -/
def AcpiSim.value (sim : AcpiSim) : SimReg → UInt32
  | .pm1aCnt => sim.pm1aCnt.toUInt32
  | .pm1bCnt => sim.pm1bCnt.toUInt32
  | .smiCmd => sim.smiCmd.toUInt32
  | .gpe0En => sim.gpe0En
  | .gpe0Sts => sim.gpe0Sts

/-! ## What is printed -/

/-- The fields of the FADT that are shown. -/
structure FadtFields where
  addr : Nat
  smiCmd : Nat
  acpiEnable : UInt8
  acpiDisable : UInt8
  pm1aCntBlk : Nat
  pm1bCntBlk : Nat
  pmTmrBlk : Nat
  deriving DecidableEq

/-- The FADT that `acpi_get_fadt` answers with. -/
def fadtFields (mem : Memory) (acpi : Acpi) : Option FadtFields :=
  if acpi.fadt = 0 then none
  else some {
    addr := acpi.fadt
    smiCmd := mem.loadLe (acpi.fadt + 46) 4
    acpiEnable := mem (acpi.fadt + 50)
    acpiDisable := mem (acpi.fadt + 51)
    pm1aCntBlk := mem.loadLe (acpi.fadt + 62) 4
    pm1bCntBlk := mem.loadLe (acpi.fadt + 66) 4
    pmTmrBlk := mem.loadLe (acpi.fadt + 74) 4 }

/-- The addresses of the RSDP that `acpi_get_rsdp` answers with, and of the RSDT. -/
def rsdpFields (mem : Memory) (acpi : Acpi) : Option (Nat × Nat) :=
  if acpi.rsdp = 0 then none else some (acpi.rsdp, mem.loadLe (acpi.rsdp + 16) 4)

inductive SacpiFn
  | help
  | info
  | state
  | reset
  | event
  | write
  | read
  | aml
  | shutdown
  | reboot
  deriving DecidableEq

namespace SacpiFn

def name : SacpiFn → List UInt8
  | .help => ascii ['h', 'e', 'l', 'p']
  | .info => ascii ['i', 'n', 'f', 'o']
  | .state => ascii ['s', 't', 'a', 't', 'e']
  | .reset => ascii ['r', 'e', 's', 'e', 't']
  | .event => ascii ['e', 'v', 'e', 'n', 't']
  | .write => ascii ['w', 'r', 'i', 't', 'e']
  | .read => ascii ['r', 'e', 'a', 'd']
  | .aml => ascii ['a', 'm', 'l']
  | .shutdown => ascii ['s', 'h', 'u', 't', 'd', 'o', 'w', 'n']
  | .reboot => ascii ['r', 'e', 'b', 'o', 'o', 't']

/-- The subcommands in the order of the comparisons. -/
def all : List SacpiFn :=
  [.help, .info, .state, .reset, .event, .write, .read, .aml, .shutdown, .reboot]

end SacpiFn

def findSacpiFn (cmd : List UInt8) : Option SacpiFn := SacpiFn.all.find? fun fn => fn.name == cmd

inductive AmlMethod
  | ini
  | pts (slp : Int32)
  | s5
  | wak
  deriving DecidableEq

/-- What the simulator prints, a constructor for each text. -/
inductive SacpiMessage
  | help
  | usage (fn : SacpiFn)
  | unknownSubcommand (cmd : List UInt8)
  | unknownRegister (reg : List UInt8)
  | unknownMethod (method : List UInt8)
  | info (rsdp : Option (Nat × Nat)) (fadt : Option FadtFields) (sim : AcpiSim) (enabled : Bool)
  | powerState (state : List UInt8)
  | wasReset
  | gpeOutOfRange
  | triggered (gpe : Int32)
  | gpeEnabled (gpe : Int32)
  | delivered (gpe : Int32)
  | queued
  | ignored (gpe : Int32)
  | pm1aCntWritten (val : UInt16) (sciEn slpTypx slpEn : UInt16)
  | leaving (state : List UInt8) (slpTypx : UInt16)
  | poweredOff
  | suspendedToRam
  | suspendedToDisk
  | asleep (slpTypx : UInt16)
  | written (reg : SimReg) (val : UInt32)
  | acpiEnabled
  | acpiDisabled
  | register (reg : SimReg) (val : UInt32)
  | executed (method : AmlMethod)
  | shutdown (pm1aCntBlk : Nat) (pm1bCntBlk : Option Nat)
  | reboot (resetReg : Option UInt32)
  deriving DecidableEq

/-- The format that `read` prints a register with. -/
def readFormat (r : SimReg) : List UInt8 :=
  r.title ++ ascii [' ', '=', ' ', '0', 'x', '%', 'x', '\n']

theorem readFormat_noNul (r : SimReg) : ∀ b ∈ readFormat r, b ≠ 0 := by
  cases r <;> simp [readFormat, SimReg.title, ascii]

/-- The call of `vga_printf` that prints a register. -/
def printRegister (r : SimReg) (val : UInt32) (vga : Vga) : Option Vga :=
  vgaPrintf vga ⟨readFormat r, readFormat_noNul r⟩ fun _ => ⟨val, none⟩

/-! ## The commands -/

def parseNum : List UInt8 → UInt32
  | 0x30 :: 0x78 :: s => hexLoop s
  | s => (atoi s).toUInt32

/-- The text that a transition leaves in `sim_state`. -/
def sleepText (slpTypx : UInt16) : List UInt8 :=
  if slpTypx = 5 ∨ slpTypx = 7 then ascii ['S', '5']
  else if slpTypx = 3 then ascii ['S', '3']
  else if slpTypx = 4 then ascii ['S', '4']
  else 0x53 :: (itoa (Int32.ofNat slpTypx.toNat) 10).take 1

/-- What a transition prints at its end. -/
def sleepMessage (slpTypx : UInt16) : SacpiMessage :=
  if slpTypx = 5 ∨ slpTypx = 7 then .poweredOff
  else if slpTypx = 3 then .suspendedToRam
  else if slpTypx = 4 then .suspendedToDisk
  else .asleep slpTypx

def handlePm1aCntWrite (val : UInt16) (sim : AcpiSim) : List SacpiMessage × AcpiSim :=
  let sim := { sim with pm1aCnt := val }
  let slpEn := (val >>> 13) &&& 1
  let slpTypx := (val >>> 10) &&& 7
  let sciEn := val &&& 1
  let told := SacpiMessage.pm1aCntWritten val sciEn slpTypx slpEn
  if slpEn ≠ 0 then
    ([told, .leaving sim.state slpTypx, sleepMessage slpTypx],
      { sim with state := sleepText slpTypx })
  else ([told], sim)

/-- The branches of `write`, behind the reading of the value. -/
def writeSimReg (r : SimReg) (val : UInt32) (sim : AcpiSim) : List SacpiMessage × AcpiSim :=
  match r with
  | .pm1aCnt => handlePm1aCntWrite val.toUInt16 sim
  | .pm1bCnt => ([.written r val], { sim with pm1bCnt := val.toUInt16 })
  | .smiCmd =>
      let sim := { sim with smiCmd := val.toUInt8 }
      -- the comparisons are made with the value, not with what the register has kept of it
      if val = 0xF0 then ([.written r val, .acpiEnabled], { sim with pm1aCnt := sim.pm1aCnt ||| 1 })
      else if val = 0xF1 then
        ([.written r val, .acpiDisabled], { sim with pm1aCnt := sim.pm1aCnt &&& ~~~1 })
      else ([.written r val], sim)
  | .gpe0En => ([.written r val], { sim with gpe0En := val })
  | .gpe0Sts => ([.written r val], { sim with gpe0Sts := val })

/-- The end of `event`, for a number below 32. -/
def triggerGpe (gpe : Int32) (sim : AcpiSim) : List SacpiMessage × AcpiSim :=
  let bit : UInt32 := 1 <<< gpe.toUInt32
  let sim := { sim with gpe0Sts := sim.gpe0Sts ||| bit }
  if sim.gpe0En &&& bit ≠ 0 then
    if sim.pm1aCnt &&& 1 ≠ 0 then
      ([.triggered gpe, .gpeEnabled gpe, .delivered gpe],
        { sim with gpe0Sts := sim.gpe0Sts &&& ~~~bit })
    else ([.triggered gpe, .gpeEnabled gpe, .queued], sim)
  else ([.triggered gpe, .ignored gpe], sim)

def sacpiEvent (args : List UInt8) (sim : AcpiSim) : List SacpiMessage × AcpiSim :=
  if args = [] then ([.usage .event], sim)
  else
    let gpe := atoi args
    if gpe < 0 ∨ gpe ≥ 32 then ([.gpeOutOfRange], sim) else triggerGpe gpe sim

def sacpiWrite (args : List UInt8) (sim : AcpiSim) : List SacpiMessage × AcpiSim :=
  let (reg, args) := copyToken (· == 0x20) 31 args
  let args := skipSpaces args
  if args = [] then ([.usage .write], sim)
  else
    match findSimReg reg with
    | some r => writeSimReg r (parseNum args) sim
    | none => ([.unknownRegister reg], sim)

def sacpiRead (args : List UInt8) (sim : AcpiSim) : List SacpiMessage :=
  if args = [] then [.usage .read]
  else
    let reg := (args.take 31).rdropWhile (· == 0x20)
    match findSimReg reg with
    | some r => [.register r (sim.value r)]
    | none => [.unknownRegister reg]

def sacpiAml (args : List UInt8) : List SacpiMessage :=
  if args = [] then [.usage .aml]
  else
    let (method, args) := copyToken (· == 0x20) 31 args
    let args := skipSpaces args
    if method = ascii ['_', 'I', 'N', 'I'] then [.executed .ini]
    else if method = ascii ['_', 'P', 'T', 'S'] then
      [.executed (.pts (if args = [] then 5 else atoi args))]
    else if method = ascii ['_', 'S', '5'] then [.executed .s5]
    else if method = ascii ['_', 'W', 'A', 'K'] then [.executed .wak]
    else [.unknownMethod method]

/-- The two sequences that are only told, with the ports of the machine. -/
def sacpiShutdown (fadt : Option FadtFields) : SacpiMessage :=
  match fadt with
  | some fadt =>
      .shutdown fadt.pm1aCntBlk (if fadt.pm1bCntBlk ≠ 0 then some fadt.pm1bCntBlk else none)
  | none => .shutdown 0x4004 none

def sacpiReboot (fadt : Option FadtFields) : SacpiMessage :=
  .reboot (fadt.map fun fadt => UInt32.ofNat fadt.pmTmrBlk - 0x10)

/-- The branches of `acpi_sim_execute_command`. -/
def performSacpi (mem : Memory) (acpi : Acpi) (args : List UInt8) (sim : AcpiSim) :
    SacpiFn → List SacpiMessage × AcpiSim
  | .help => ([.help], sim)
  | .info => ([.info (rsdpFields mem acpi) (fadtFields mem acpi) sim (sim.pm1aCnt &&& 1 != 0)], sim)
  | .state => ([.powerState sim.state], sim)
  | .reset => ([.wasReset], acpiSimInit)
  | .event => sacpiEvent args sim
  | .write => sacpiWrite args sim
  | .read => (sacpiRead args sim, sim)
  | .aml => (sacpiAml args, sim)
  | .shutdown => ([sacpiShutdown (fadtFields mem acpi)], sim)
  | .reboot => ([sacpiReboot (fadtFields mem acpi)], sim)

def acpiSimExecuteCommand (mem : Memory) (acpi : Acpi) (args : List UInt8) (sim : AcpiSim) :
    List SacpiMessage × AcpiSim :=
  let args := skipSpaces args
  if args = [] then ([.help], sim)
  else
    let (cmd, args) := copyToken (· == 0x20) 31 args
    let args := skipSpaces args
    match findSacpiFn cmd with
    | some fn => performSacpi mem acpi args sim fn
    | none => ([.unknownSubcommand cmd], sim)

end Dosfs
