import Mathlib.Logic.Function.Basic
import Mathlib.Data.Nat.Bitwise
import Mathlib.Tactic.Common

/-!
# The ATA driver

A translation of `drivers/ata.c` over the I/O ports: what a read of a port answers
is given by the disks, and the controllers keep the registers that are written, so
that a command byte starts a command with the registers as they are.
-/

namespace Dosfs

/-- A command to read or write one sector: the controller, the drive, and the
number of the sector. -/
structure SectorCommand where
  ioBase : UInt16
  drive : UInt8
  sector : Nat
deriving DecidableEq

/-- The ports: what the reads to come answer, how many there were, the last byte
written to each port, the words written, and the sector commands. -/
structure Ports where
  answers : Nat → UInt16
  reads : Nat
  regs : UInt16 → UInt8
  sent : List UInt16
  issued : List SectorCommand

def ataPrimaryIo : UInt16 := 0x1F0
def ataPrimaryCtrl : UInt16 := 0x3F6
def ataSecondaryIo : UInt16 := 0x170
def ataSecondaryCtrl : UInt16 := 0x376

def ataRegData : UInt16 := 0
def ataRegFeatures : UInt16 := 1
def ataRegSeccount : UInt16 := 2
def ataRegLbaLo : UInt16 := 3
def ataRegLbaMid : UInt16 := 4
def ataRegLbaHi : UInt16 := 5
def ataRegDrive : UInt16 := 6
def ataRegStatus : UInt16 := 7
def ataRegCommand : UInt16 := 7

def ataSrBsy : UInt8 := 0x80
def ataSrDrdy : UInt8 := 0x40
def ataSrDrq : UInt8 := 0x08
def ataSrErr : UInt8 := 0x01

def ataCmdReadPio : UInt8 := 0x20
def ataCmdWritePio : UInt8 := 0x30
def ataCmdIdentify : UInt8 := 0xEC

/-! ## The ports -/

def Ports.inw (ports : Ports) (_port : UInt16) : UInt16 × Ports :=
  (ports.answers ports.reads, { ports with reads := ports.reads + 1 })

def Ports.inb (ports : Ports) (port : UInt16) : UInt8 × Ports :=
  ((ports.inw port).1.toUInt8, (ports.inw port).2)

def Ports.outw (ports : Ports) (_port value : UInt16) : Ports :=
  { ports with sent := ports.sent ++ [value] }

/-- The command that the registers of a controller stand for. -/
def sectorCommand (regs : UInt16 → UInt8) (ioBase : UInt16) : SectorCommand where
  ioBase := ioBase
  drive := (regs (ioBase + ataRegDrive) >>> 4) &&& 1
  sector := (regs (ioBase + ataRegLbaLo)).toNat + 2 ^ 8 * (regs (ioBase + ataRegLbaMid)).toNat +
    2 ^ 16 * (regs (ioBase + ataRegLbaHi)).toNat +
      2 ^ 24 * (regs (ioBase + ataRegDrive) &&& 0x0F).toNat

/-- A command byte on one of the two command ports. -/
def IsSectorCommand (port : UInt16) (value : UInt8) : Prop :=
  (port = ataPrimaryIo + ataRegCommand ∨ port = ataSecondaryIo + ataRegCommand) ∧
    (value = ataCmdReadPio ∨ value = ataCmdWritePio)

instance (port : UInt16) (value : UInt8) : Decidable (IsSectorCommand port value) :=
  inferInstanceAs (Decidable (_ ∧ _))

def Ports.outb (ports : Ports) (port : UInt16) (value : UInt8) : Ports :=
  let regs := Function.update ports.regs port value
  let issued :=
    if IsSectorCommand port value then [sectorCommand regs (port - ataRegCommand)] else []
  { ports with regs := regs, issued := ports.issued ++ issued }

/-! ## Detecting the disks -/

/-- `ata_device_t` without the model text. -/
structure AtaDevice where
  ioBase : UInt16
  ctrlBase : UInt16
  slave : UInt8
  present : UInt8
  maxLba : UInt32
deriving DecidableEq

def ataDelay (ioBase : UInt16) (ports : Ports) : Ports :=
  let ports := (ports.inb (ioBase + 7)).2
  let ports := (ports.inb (ioBase + 7)).2
  let ports := (ports.inb (ioBase + 7)).2
  (ports.inb (ioBase + 7)).2

/-- The loop of `ata_wait_ready`; it succeeds when the disk is ready. -/
def ataWaitReadyLoop (ioBase : UInt16) : Nat → Ports → Bool × Ports
  | 0, ports => (false, ports)
  | todo + 1, ports =>
      let status := ports.inb (ioBase + ataRegStatus)
      if status.1 &&& ataSrBsy = 0 ∧ status.1 &&& ataSrDrdy ≠ 0 then (true, status.2)
      else ataWaitReadyLoop ioBase todo status.2

def ataWaitReady (ioBase : UInt16) (ports : Ports) : Bool × Ports :=
  ataWaitReadyLoop ioBase 200000 ports

/-- The loop of `ata_wait_drq`; it succeeds when the disk has or wants data. -/
def ataWaitDrqLoop (ioBase : UInt16) : Nat → Ports → Bool × Ports
  | 0, ports => (false, ports)
  | todo + 1, ports =>
      let status := ports.inb (ioBase + ataRegStatus)
      if status.1 &&& ataSrErr ≠ 0 then (false, status.2)
      else if status.1 &&& ataSrDrq ≠ 0 then (true, status.2)
      else ataWaitDrqLoop ioBase todo status.2

def ataWaitDrq (ioBase : UInt16) (ports : Ports) : Bool × Ports :=
  ataWaitDrqLoop ioBase 100000 ports

-- the number of rounds is not to be unfolded
attribute [irreducible] ataWaitReady ataWaitDrq

/-- The loops that read words from the data port. -/
def ataReadWords (ioBase : UInt16) : Nat → Ports → List UInt16 × Ports
  | 0, ports => ([], ports)
  | todo + 1, ports =>
      let word := ports.inw (ioBase + ataRegData)
      let words := ataReadWords ioBase todo word.2
      (word.1 :: words.1, words.2)

/-- The loop that writes words to the data port. -/
def ataWriteWords (ioBase : UInt16) (words : List UInt16) (ports : Ports) : Ports :=
  words.foldl (fun ports word => ports.outw (ioBase + ataRegData) word) ports

def ataSelectDrive (ioBase : UInt16) (slave : UInt8) (ports : Ports) : Ports :=
  ataDelay ioBase (ports.outb (ioBase + ataRegDrive) ((0xA0 : UInt8) ||| (slave <<< 4)))

/-- `ata_identify`; `none` is the answer -1. -/
def ataIdentify (ioBase ctrlBase : UInt16) (slave : UInt8) (ports : Ports) :
    Option AtaDevice × Ports :=
  let ports := ataSelectDrive ioBase slave ports
  let ports := ports.outb (ioBase + ataRegSeccount) 0
  let ports := ports.outb (ioBase + ataRegLbaLo) 0
  let ports := ports.outb (ioBase + ataRegLbaMid) 0
  let ports := ports.outb (ioBase + ataRegLbaHi) 0
  let ports := ports.outb (ioBase + ataRegCommand) ataCmdIdentify
  let ports := ataDelay ioBase ports
  let status := ports.inb (ioBase + ataRegStatus)
  if status.1 = 0 then (none, status.2)
  else
    let ready := ataWaitReady ioBase status.2
    if !ready.1 then (none, ready.2)
    else
      let ident := ataReadWords ioBase 256 ready.2
      (some
        { ioBase := ioBase
          ctrlBase := ctrlBase
          slave := slave
          present := 1
          maxLba := (ident.1.getD 60 0).toUInt32 ||| ((ident.1.getD 61 0).toUInt32 <<< 16) },
        ident.2)

/-- Where `ata_init` looks for disks. -/
def ataSlots : List (UInt16 × UInt16 × UInt8) :=
  [(ataPrimaryIo, ataPrimaryCtrl, 0), (ataPrimaryIo, ataPrimaryCtrl, 1),
    (ataSecondaryIo, ataSecondaryCtrl, 0), (ataSecondaryIo, ataSecondaryCtrl, 1)]

/-- The entries of `devices` after `ata_init`. -/
def ataInitSlots : List (UInt16 × UInt16 × UInt8) → Ports → List AtaDevice × Ports
  | [], ports => ([], ports)
  | (ioBase, ctrlBase, slave) :: slots, ports =>
      let found := ataIdentify ioBase ctrlBase slave ports
      let others := ataInitSlots slots found.2
      (found.1.getD ⟨0, 0, 0, 0, 0⟩ :: others.1, others.2)

def ataInit (ports : Ports) : List AtaDevice × Ports := ataInitSlots ataSlots ports

def ataGetDevice (devices : List AtaDevice) : Option AtaDevice :=
  devices.find? fun dev => dev.present != 0

/-! ## Transfers -/

/-- The registers that the two transfers set, and their command. -/
def ataCommand (command : UInt8) (ioBase : UInt16) (lba : UInt32) (ports : Ports) : Ports :=
  let ports := ports.outb (ioBase + ataRegFeatures) 0
  let ports := ports.outb (ioBase + ataRegSeccount) 1
  let ports := ports.outb (ioBase + ataRegLbaLo) (lba &&& 0xFF).toUInt8
  let ports := ports.outb (ioBase + ataRegLbaMid) ((lba >>> 8) &&& 0xFF).toUInt8
  let ports := ports.outb (ioBase + ataRegLbaHi) ((lba >>> 16) &&& 0xFF).toUInt8
  let top := ((lba >>> 24) &&& 0x0F).toUInt8
  let ports := ports.outb (ioBase + ataRegDrive) (0xE0 ||| top)
  ports.outb (ioBase + ataRegCommand) command

/-- `ata_read_sector`; the words of the sector, or `none` for the answer -1. -/
def ataReadSector (ioBase : UInt16) (lba : UInt32) (ports : Ports) :
    Option (List UInt16) × Ports :=
  let ready := ataWaitReady ioBase ports
  if !ready.1 then (none, ready.2)
  else
    let drq := ataWaitDrq ioBase (ataCommand ataCmdReadPio ioBase lba ready.2)
    if !drq.1 then (none, drq.2)
    else
      let words := ataReadWords ioBase 256 drq.2
      (some words.1, words.2)

/-- `ata_write_sector`; `none` for the answer -1. -/
def ataWriteSector (ioBase : UInt16) (lba : UInt32) (words : List UInt16) (ports : Ports) :
    Option Unit × Ports :=
  let ready := ataWaitReady ioBase ports
  if !ready.1 then (none, ready.2)
  else
    let drq := ataWaitDrq ioBase (ataCommand ataCmdWritePio ioBase lba ready.2)
    if !drq.1 then (none, drq.2)
    else
      let ports := ataWriteWords ioBase words drq.2
      let ports := ports.outb (ioBase + ataRegCommand) 0x00
      (some (), ataDelay ioBase ports)

/-- The loops over the sectors; whether they come to the end, and what the sectors
gave. -/
def ataSectors {β : Type} (transfer : UInt32 → Ports → Option β × Ports) :
    Nat → UInt32 → Ports → (Bool × List β) × Ports
  | 0, _, ports => ((true, []), ports)
  | todo + 1, i, ports =>
      let moved := transfer i ports
      match moved.1 with
      | none => ((false, []), moved.2)
      | some b =>
          let rest := ataSectors transfer todo (i + 1) moved.2
          ((rest.1.1, b :: rest.1.2), rest.2)

/-- `ata_read_sectors`: whether the answer is 0, and the sectors that reached the
buffer. -/
def ataReadSectors (devices : List AtaDevice) (lba count : UInt32) (ports : Ports) :
    (Bool × List (List UInt16)) × Ports :=
  match ataGetDevice devices with
  | none => ((false, []), ports)
  | some dev =>
      ataSectors (fun i => ataReadSector dev.ioBase (lba + i)) count.toNat 0 ports

/-- `ata_write_sectors`: whether the answer is 0. -/
def ataWriteSectors (devices : List AtaDevice) (lba count : UInt32) (buf : Nat → UInt16)
    (ports : Ports) : Bool × Ports :=
  match ataGetDevice devices with
  | none => (false, ports)
  | some dev =>
      let sector (i : UInt32) := (List.range 256).map fun k => buf (i.toNat * 256 + k)
      let written :=
        ataSectors (fun i => ataWriteSector dev.ioBase (lba + i) (sector i)) count.toNat 0 ports
      (written.1.1, written.2)

/-! ## The detected devices -/

/-- The entry of a slot, by the size of the disk that was found there. -/
def slotDevice (slot : UInt16 × UInt16 × UInt8) : Option UInt32 → AtaDevice
  | none => ⟨0, 0, 0, 0, 0⟩
  | some size => ⟨slot.1, slot.2.1, slot.2.2, 1, size⟩

/-- The entries of `devices`, by the sizes of the disks in the four slots. -/
def detectedDevices (sizes : List (Option UInt32)) : List AtaDevice :=
  (ataSlots.zip sizes).map fun entry => slotDevice entry.1 entry.2

variable {ports : Ports} {ioBase ctrlBase : UInt16} {slave : UInt8}

theorem ataIdentify_eq (ioBase ctrlBase : UInt16) (slave : UInt8) (ports : Ports) :
    ∃ size, (ataIdentify ioBase ctrlBase slave ports).1.getD ⟨0, 0, 0, 0, 0⟩ =
      slotDevice (ioBase, ctrlBase, slave) size := by
  unfold ataIdentify
  dsimp only
  split
  · exact ⟨none, rfl⟩
  · split
    · exact ⟨none, rfl⟩
    · exact ⟨some _, rfl⟩

/-- Whatever the ports answer, `ata_init` detects disks in the four slots. -/
theorem ataInit_detected (ports : Ports) :
    ∃ sizes, sizes.length = 4 ∧ (ataInit ports).1 = detectedDevices sizes := by
  have hslots (slots : List (UInt16 × UInt16 × UInt8)) (ports : Ports) :
      ∃ sizes, sizes.length = slots.length ∧
        (ataInitSlots slots ports).1 =
          (slots.zip sizes).map fun entry => slotDevice entry.1 entry.2 := by
    induction slots generalizing ports with
    | nil => exact ⟨[], rfl, rfl⟩
    | cons slot slots ih =>
        obtain ⟨ioBase, ctrlBase, slave⟩ := slot
        obtain ⟨size, hsize⟩ := ataIdentify_eq ioBase ctrlBase slave ports
        obtain ⟨sizes, hlen, hrest⟩ := ih (ataIdentify ioBase ctrlBase slave ports).2
        refine ⟨size :: sizes, by rw [List.length_cons, hlen, List.length_cons], ?_⟩
        rw [List.zip_cons_cons, List.map_cons, ← hsize, ← hrest, ataInitSlots]
  exact hslots ataSlots ports

/-- The device in use is one of those on the two controllers. -/
theorem ataGetDevice_detected {sizes : List (Option UInt32)} {dev : AtaDevice}
    (h : ataGetDevice (detectedDevices sizes) = some dev) :
    (dev.ioBase = ataPrimaryIo ∨ dev.ioBase = ataSecondaryIo) ∧
      (dev.slave = 0 ∨ dev.slave = 1) := by
  have hslots : ∀ slot ∈ ataSlots, (slot.1 = ataPrimaryIo ∨ slot.1 = ataSecondaryIo) ∧
      (slot.2.2 = 0 ∨ slot.2.2 = 1) := by
    intro slot hslot
    simp only [ataSlots, List.mem_cons, List.not_mem_nil, or_false] at hslot
    rcases hslot with rfl | rfl | rfl | rfl
    · exact ⟨Or.inl rfl, Or.inl rfl⟩
    · exact ⟨Or.inl rfl, Or.inr rfl⟩
    · exact ⟨Or.inr rfl, Or.inl rfl⟩
    · exact ⟨Or.inr rfl, Or.inr rfl⟩
  have hpresent := List.find?_some h
  have hmem := List.mem_of_find?_eq_some h
  rw [detectedDevices, List.mem_map] at hmem
  obtain ⟨⟨slot, size⟩, hzip, rfl⟩ := hmem
  obtain ⟨hbase, hslave⟩ := hslots slot (List.of_mem_zip hzip).1
  cases size with
  | none => exact absurd hpresent (by simp [slotDevice])
  | some size => exact ⟨hbase, hslave⟩

/-! ## What a transfer issues -/

/-- The command that a transfer of a sector issues: the bit of the drive is always 0. -/
def issuedCommand (ioBase : UInt16) (lba : UInt32) : SectorCommand :=
  ⟨ioBase, 0, lba.toNat % 2 ^ 28⟩

/-- Bytes for other ports than the two command ports start nothing. -/
theorem outb_answers (ports : Ports) (port : UInt16) (value : UInt8) :
    (ports.outb port value).answers = ports.answers := rfl

theorem outb_issued {port : UInt16} {value : UInt8} (h : ¬ IsSectorCommand port value) :
    (ports.outb port value).issued = ports.issued := by
  rw [Ports.outb, if_neg h, List.append_nil]

/-- The drive register holds the highest four bits of the sector number below the
fixed bits. -/
theorem driveRegister (n : Nat) : 0xE0 ||| n &&& 0x0F = 2 ^ 4 * 14 + n % 2 ^ 4 := by
  rw [Nat.two_pow_add_eq_or_of_lt (Nat.mod_lt _ (by decide)), ← Nat.and_two_pow_sub_one_eq_mod]

theorem driveBit (x : UInt8) : (0xE0 ||| x &&& 0x0F) >>> 4 &&& 1 = 0 := by
  refine UInt8.toNat.inj ?_
  rw [UInt8.toNat_and, UInt8.toNat_shiftRight, UInt8.toNat_or, UInt8.toNat_and]
  change (0xE0 ||| x.toNat &&& 0x0F) >>> 4 &&& 1 = 0
  rw [driveRegister, Nat.and_one_is_mod, Nat.shiftRight_eq_div_pow]
  omega

theorem sectorOfRegisters (n : Nat) :
    (n % 256 &&& 255) + 256 * (n >>> 8 % 256 &&& 255) + 65536 * (n >>> 16 % 256 &&& 255) +
      16777216 * ((224 ||| n >>> 24 % 256 &&& 15) &&& 15) = n % 268435456 := by
  have hbyte (k : Nat) : k &&& 255 = k % 256 := Nat.and_two_pow_sub_one_eq_mod k 8
  have hnibble (k : Nat) : k &&& 15 = k % 16 := Nat.and_two_pow_sub_one_eq_mod k 4
  rw [driveRegister, hbyte, hbyte, hbyte, hnibble, Nat.shiftRight_eq_div_pow,
    Nat.shiftRight_eq_div_pow, Nat.shiftRight_eq_div_pow]
  omega

theorem ataCommand_issued {command : UInt8}
    (hcommand : command = ataCmdReadPio ∨ command = ataCmdWritePio)
    (hbase : ioBase = ataPrimaryIo ∨ ioBase = ataSecondaryIo) (lba : UInt32) :
    (ataCommand command ioBase lba ports).issued = ports.issued ++ [issuedCommand ioBase lba] := by
  rcases hbase with rfl | rfl <;>
  · simp [ataCommand, Ports.outb, IsSectorCommand, hcommand, ataPrimaryIo, ataSecondaryIo,
      ataRegFeatures, ataRegCommand, ataRegSeccount, ataRegLbaLo, ataRegLbaMid, ataRegLbaHi,
      ataRegDrive, sectorCommand, issuedCommand]
    exact ⟨driveBit _, sectorOfRegisters _⟩

/-- From one state of the ports to the other these commands are issued, and the
answers stay the same. -/
structure Issues (ports ports' : Ports) (commands : List SectorCommand) : Prop where
  answers : ports'.answers = ports.answers
  issued : ports'.issued = ports.issued ++ commands

theorem Issues.refl (ports : Ports) : Issues ports ports [] := ⟨rfl, (List.append_nil _).symm⟩

theorem Issues.trans {ports ports' ports'' : Ports} {commands commands' : List SectorCommand}
    (h : Issues ports ports' commands) (h' : Issues ports' ports'' commands') :
    Issues ports ports'' (commands ++ commands') :=
  ⟨h'.answers.trans h.answers, by rw [h'.issued, h.issued, List.append_assoc]⟩

theorem inb_issues (port : UInt16) : Issues ports (ports.inb port).2 [] :=
  ⟨rfl, (List.append_nil _).symm⟩

theorem ataDelay_issues : Issues ports (ataDelay ioBase ports) [] :=
  ⟨rfl, (List.append_nil _).symm⟩

theorem ataCommand_issues {command : UInt8}
    (hcommand : command = ataCmdReadPio ∨ command = ataCmdWritePio)
    (hbase : ioBase = ataPrimaryIo ∨ ioBase = ataSecondaryIo) (lba : UInt32) :
    Issues ports (ataCommand command ioBase lba ports) [issuedCommand ioBase lba] :=
  ⟨by simp only [ataCommand, outb_answers], ataCommand_issued hcommand hbase lba⟩

theorem ataWaitReadyLoop_issues (todo : Nat) (ports : Ports) :
    Issues ports (ataWaitReadyLoop ioBase todo ports).2 [] := by
  induction todo generalizing ports with
  | zero => exact .refl ports
  | succ todo ih =>
      rw [ataWaitReadyLoop]
      split
      · exact inb_issues (ioBase + ataRegStatus)
      · exact (inb_issues (ioBase + ataRegStatus)).trans (ih _)

theorem ataWaitReady_issues (ports : Ports) : Issues ports (ataWaitReady ioBase ports).2 [] := by
  rw [ataWaitReady]
  exact ataWaitReadyLoop_issues _ _

theorem ataWaitDrqLoop_issues (todo : Nat) (ports : Ports) :
    Issues ports (ataWaitDrqLoop ioBase todo ports).2 [] := by
  induction todo generalizing ports with
  | zero => exact .refl ports
  | succ todo ih =>
      rw [ataWaitDrqLoop]
      split
      · exact inb_issues (ioBase + ataRegStatus)
      · split
        · exact inb_issues (ioBase + ataRegStatus)
        · exact (inb_issues (ioBase + ataRegStatus)).trans (ih _)

theorem ataWaitDrq_issues (ports : Ports) : Issues ports (ataWaitDrq ioBase ports).2 [] := by
  rw [ataWaitDrq]
  exact ataWaitDrqLoop_issues _ _

theorem ataReadWords_issues (todo : Nat) (ports : Ports) :
    Issues ports (ataReadWords ioBase todo ports).2 [] := by
  induction todo generalizing ports with
  | zero => exact .refl ports
  | succ todo ih => exact (inb_issues (ioBase + ataRegData)).trans (ih _)

theorem ataWriteWords_issues (words : List UInt16) (ports : Ports) :
    Issues ports (ataWriteWords ioBase words ports) [] := by
  induction words generalizing ports with
  | nil => exact .refl ports
  | cons word words ih =>
      have hword : Issues ports (ports.outw (ioBase + ataRegData) word) [] :=
        ⟨rfl, (List.append_nil _).symm⟩
      exact hword.trans (ih _)

/-- The disks are ready and have or want data at every read. -/
def Ports.Ready (ports : Ports) : Prop := ∀ n, ports.answers n = 0x48

theorem ataWaitReady_of_ready (h : ports.Ready) : (ataWaitReady ioBase ports).1 = true := by
  have hstatus : (ports.inb (ioBase + ataRegStatus)).1 = 0x48 := by
    rw [Ports.inb, Ports.inw, h]
    rfl
  rw [ataWaitReady, ataWaitReadyLoop, hstatus]
  rfl

theorem ataWaitDrq_of_ready (h : ports.Ready) : (ataWaitDrq ioBase ports).1 = true := by
  have hstatus : (ports.inb (ioBase + ataRegStatus)).1 = 0x48 := by
    rw [Ports.inb, Ports.inw, h]
    rfl
  rw [ataWaitDrq, ataWaitDrqLoop, hstatus]
  rfl

/-- The transfer issues the command, or fails without it; it does not fail when the
disks are ready. -/
def Transfers {β : Type} (transfer : Ports → Option β × Ports) (command : SectorCommand) : Prop :=
  ∀ ports, ∃ commands, Issues ports (transfer ports).2 commands ∧
    (commands = [] ∧ (transfer ports).1 = none ∨ commands = [command]) ∧
    (ports.Ready → (transfer ports).1.isSome)

theorem transfers_of_steps {β : Type} {transfer : Ports → Option β × Ports}
    {finish : Ports → β × Ports} {command : UInt8} {lba : UInt32}
    (hcommand : command = ataCmdReadPio ∨ command = ataCmdWritePio)
    (hbase : ioBase = ataPrimaryIo ∨ ioBase = ataSecondaryIo)
    (hfinish : ∀ ports, Issues ports (finish ports).2 [])
    (hsteps : ∀ ports, transfer ports =
      if !(ataWaitReady ioBase ports).1 then (none, (ataWaitReady ioBase ports).2)
      else
        let drq := ataWaitDrq ioBase (ataCommand command ioBase lba (ataWaitReady ioBase ports).2)
        if !drq.1 then (none, drq.2) else (some (finish drq.2).1, (finish drq.2).2)) :
    Transfers transfer (issuedCommand ioBase lba) := by
  intro ports
  have hready := @ataWaitReady_issues ioBase ports
  have hissued := @ataCommand_issues (ataWaitReady ioBase ports).2 ioBase command hcommand hbase lba
  have hdrq := @ataWaitDrq_issues ioBase
    (ataCommand command ioBase lba (ataWaitReady ioBase ports).2)
  have hall := hready.trans (hissued.trans hdrq)
  rw [hsteps]
  split
  next hno =>
    refine ⟨[], hready, Or.inl ⟨rfl, rfl⟩, fun h => ?_⟩
    rw [ataWaitReady_of_ready h] at hno
    exact absurd hno (by decide)
  next =>
    dsimp only
    split
    next hno =>
      refine ⟨_, hall, Or.inr rfl, fun h => ?_⟩
      rw [ataWaitDrq_of_ready (fun n => (congrFun (hready.trans hissued).answers n).trans (h n))]
        at hno
      exact absurd hno (by decide)
    next => exact ⟨_, hall.trans (hfinish _), Or.inr rfl, fun _ => rfl⟩

theorem ataReadSector_transfers (hbase : ioBase = ataPrimaryIo ∨ ioBase = ataSecondaryIo)
    (lba : UInt32) : Transfers (ataReadSector ioBase lba) (issuedCommand ioBase lba) :=
  transfers_of_steps (Or.inl rfl) hbase (fun _ => ataReadWords_issues 256 _) fun _ => rfl

/-- The command register is cleared after the words are written; that starts nothing. -/
theorem ataWriteSector_transfers (hbase : ioBase = ataPrimaryIo ∨ ioBase = ataSecondaryIo)
    (lba : UInt32) (words : List UInt16) :
    Transfers (ataWriteSector ioBase lba words) (issuedCommand ioBase lba) := by
  refine @transfers_of_steps ioBase Unit (ataWriteSector ioBase lba words) (fun ports =>
    ((), ataDelay ioBase ((ataWriteWords ioBase words ports).outb (ioBase + ataRegCommand) 0x00)))
    _ lba (Or.inr rfl) hbase (fun ports => ?_) fun _ => rfl
  have hclear : Issues (ataWriteWords ioBase words ports)
      ((ataWriteWords ioBase words ports).outb (ioBase + ataRegCommand) 0x00) [] :=
    ⟨rfl, by rw [outb_issued (fun h => absurd h.2 (by decide)), List.append_nil]⟩
  exact (ataWriteWords_issues words ports).trans (hclear.trans ataDelay_issues)

/-- The loop over the sectors issues the commands in order, up to some sector; up to
the last, if it comes to the end. -/
theorem ataSectors_issues {β : Type} {transfer : UInt32 → Ports → Option β × Ports}
    {command : UInt32 → SectorCommand} (h : ∀ i, Transfers (transfer i) (command i))
    (todo : Nat) (i : UInt32) (ports : Ports) :
    ∃ m ≤ todo, Issues ports (ataSectors transfer todo i ports).2
        ((List.range m).map fun k => command (i + UInt32.ofNat k)) ∧
      ((ataSectors transfer todo i ports).1.1 = true → m = todo) ∧
      (ports.Ready → (ataSectors transfer todo i ports).1.1 = true) := by
  induction todo generalizing i ports with
  | zero => exact ⟨0, Nat.le_refl 0, .refl ports, fun _ => rfl, fun _ => rfl⟩
  | succ todo ih =>
      obtain ⟨commands, hissues, hcommands, hready⟩ := h i ports
      rw [ataSectors]
      dsimp only
      split
      next hnone =>
        have hnot : ¬ ports.Ready := fun h => by simpa [hnone] using hready h
        have hundone {m : Nat} : false = true → m = todo + 1 := fun h => absurd h Bool.false_ne_true
        rcases hcommands with ⟨rfl, -⟩ | rfl
        · exact ⟨0, Nat.zero_le _, hissues, hundone, fun h => absurd h hnot⟩
        · exact ⟨1, by omega, by simpa using hissues, hundone, fun h => absurd h hnot⟩
      next b hsome =>
        obtain rfl : commands = [command i] := by
          rcases hcommands with ⟨-, hnone⟩ | hone
          · rw [hsome] at hnone
            exact absurd hnone (Option.some_ne_none b)
          · exact hone
        obtain ⟨m, hm, hrest, hdone, hrun⟩ := ih (i + 1) (transfer i ports).2
        refine ⟨m + 1, by omega, ?_, fun h => by rw [hdone h], fun h => hrun fun n => ?_⟩
        · have hcommands : (List.range (m + 1)).map (fun k => command (i + UInt32.ofNat k)) =
              [command i] ++ (List.range m).map fun k => command (i + 1 + UInt32.ofNat k) := by
            rw [List.range_succ_eq_map, List.map_cons, List.map_map,
              show UInt32.ofNat 0 = 0 from rfl, UInt32.add_zero]
            refine congrArg _ (List.map_congr_left fun k _ => ?_)
            rw [Function.comp_apply, Nat.succ_eq_add_one, UInt32.ofNat_add, UInt32.add_assoc,
              UInt32.add_comm 1]
            rfl
          rw [hcommands]
          exact hissues.trans hrest
        · exact (congrFun hissues.answers n).trans (h n)

/-! ## The sectors that are addressed -/

/-- Before the call: what the disks will answer, and what the registers hold. -/
def Ports.start (answers : Nat → UInt16) (regs : UInt16 → UInt8) : Ports :=
  ⟨answers, 0, regs, [], []⟩

/-- The commands of a call are for the device in use and for its sectors in order, and
sectors that cannot be addressed or that the device does not have are refused. -/
structure AddressesRight (devices : List AtaDevice) (lba count : UInt32) (done : Bool)
    (issued : List SectorCommand) : Prop where
  selects : ∀ c ∈ issued, ∃ dev, ataGetDevice devices = some dev ∧ c.ioBase = dev.ioBase ∧
    c.drive = dev.slave
  programs : ∀ i c, issued[i]? = some c → i < count.toNat ∧ c.sector = lba.toNat + i
  refuses : ∀ dev, ataGetDevice devices = some dev → ∀ i < count.toNat,
    2 ^ 28 ≤ lba.toNat + i ∨ dev.maxLba.toNat ≤ lba.toNat + i → done = false ∧ issued.length ≤ i

section Addresses

variable {sizes : List (Option UInt32)} {dev : AtaDevice} {lba count : UInt32} {β : Type}
  {transfer : UInt32 → Ports → Option β × Ports}

/-- Disks that are always ready get all commands, so the device in use must be the one
they select, and must have all the sectors. -/
theorem inRange_of_addressesRight (hdev : ataGetDevice (detectedDevices sizes) = some dev)
    (htransfer : ∀ i, Transfers (transfer i) (issuedCommand dev.ioBase (lba + i)))
    (hpos : 0 < count.toNat)
    (h : let result := ataSectors transfer count.toNat 0 (Ports.start (fun _ => 0x48) fun _ => 0)
      AddressesRight (detectedDevices sizes) lba count result.1.1 result.2.issued) :
    dev.slave = 0 ∧ lba.toNat + count.toNat ≤ 2 ^ 28 ∧
      lba.toNat + count.toNat ≤ dev.maxLba.toNat := by
  obtain ⟨m, -, hissues, hm, hready⟩ := ataSectors_issues htransfer count.toNat 0
    (Ports.start (fun _ => 0x48) fun _ => 0)
  obtain ⟨hselects, -, hrefuses⟩ := h
  have hdone := hready fun _ => rfl
  obtain rfl := hm hdone
  constructor
  · obtain ⟨dev', hdev', -, hdrive⟩ := hselects (issuedCommand dev.ioBase (lba + (0 + 0))) (by
      rw [hissues.issued]
      exact List.mem_map.mpr ⟨0, List.mem_range.mpr hpos, rfl⟩)
    rw [hdev, Option.some.injEq] at hdev'
    rw [hdev', ← hdrive, issuedCommand]
  · have hlast := hrefuses dev hdev (count.toNat - 1) (by omega)
    by_contra hout
    exact absurd hdone (Bool.eq_false_iff.mp (hlast (by omega)).1)

/-- The commands for the first sectors of a master that has all of them are right. -/
theorem addressesRight_of_inRange (hdev : ataGetDevice (detectedDevices sizes) = some dev)
    (hslave : dev.slave = 0) (hbits : lba.toNat + count.toNat ≤ 2 ^ 28)
    (hsize : lba.toNat + count.toNat ≤ dev.maxLba.toNat) {m : Nat} (hle : m ≤ count.toNat)
    (done : Bool) :
    AddressesRight (detectedDevices sizes) lba count done
      ((List.range m).map fun k => issuedCommand dev.ioBase (lba + (0 + UInt32.ofNat k))) := by
  have hcommand {k : Nat} (hk : k < m) :
      issuedCommand dev.ioBase (lba + (0 + UInt32.ofNat k)) = ⟨dev.ioBase, 0, lba.toNat + k⟩ := by
    rw [issuedCommand, UInt32.zero_add, UInt32.toNat_add, UInt32.toNat_ofNat']
    congr 1
    omega
  refine ⟨fun c hc => ?_, fun i c hc => ?_, fun dev' hdev' i hi hout => ?_⟩
  · obtain ⟨k, hk, rfl⟩ := List.mem_map.mp hc
    rw [hcommand (List.mem_range.mp hk)]
    exact ⟨dev, hdev, rfl, hslave.symm⟩
  · rw [List.getElem?_map, Option.map_eq_some_iff] at hc
    obtain ⟨k, hk, rfl⟩ := hc
    obtain ⟨hlt, rfl⟩ := List.getElem?_eq_some_iff.mp hk
    rw [List.length_range] at hlt
    rw [List.getElem_range, hcommand hlt]
    exact ⟨by omega, rfl⟩
  · rw [hdev, Option.some.injEq] at hdev'
    subst hdev'
    omega

/-- What the loop issues for a device that is in use. -/
theorem addressesRight_iff (hdev : ataGetDevice (detectedDevices sizes) = some dev)
    (htransfer : ∀ i, Transfers (transfer i) (issuedCommand dev.ioBase (lba + i))) :
    (∀ answers regs,
      let result := ataSectors transfer count.toNat 0 (Ports.start answers regs)
      AddressesRight (detectedDevices sizes) lba count result.1.1 result.2.issued) ↔
      count = 0 ∨ dev.slave = 0 ∧ lba.toNat + count.toNat ≤ 2 ^ 28 ∧
        lba.toNat + count.toNat ≤ dev.maxLba.toNat := by
  constructor
  · intro h
    by_cases hzero : count = 0
    · exact Or.inl hzero
    · have hpos : 0 < count.toNat := Nat.pos_of_ne_zero fun h => hzero (UInt32.toNat.inj h)
      exact Or.inr (inRange_of_addressesRight hdev htransfer hpos (h _ _))
  · intro h answers regs
    obtain ⟨m, hle, hissues, -, -⟩ := ataSectors_issues htransfer count.toNat 0
      (Ports.start answers regs)
    have hissued := hissues.issued.trans (List.nil_append _)
    dsimp only
    rw [hissued]
    rcases h with rfl | ⟨hslave, hbits, hsize⟩
    · obtain rfl : m = 0 := Nat.le_zero.mp hle
      exact ⟨fun c hc => absurd hc List.not_mem_nil, fun i c hc => absurd hc.symm (by simp),
        fun dev _ i hi => absurd hi (Nat.not_lt_zero i)⟩
    · exact addressesRight_of_inRange hdev hslave hbits hsize hle _

end Addresses

/-- Reading and writing address the right sectors of the right drive just when there is
nothing to transfer, or the device in use is a master and has all the sectors, whose
numbers have 28 bits. -/
theorem ata_addresses_iff (sizes : List (Option UInt32)) (lba count : UInt32) :
    let devices := detectedDevices sizes
    let inRange := ∀ dev, ataGetDevice devices = some dev →
      count = 0 ∨ dev.slave = 0 ∧ lba.toNat + count.toNat ≤ 2 ^ 28 ∧
        lba.toNat + count.toNat ≤ dev.maxLba.toNat
    ((∀ answers regs,
        let result := ataReadSectors devices lba count (Ports.start answers regs)
        AddressesRight devices lba count result.1.1 result.2.issued) ↔ inRange) ∧
      ((∀ buf answers regs,
        let result := ataWriteSectors devices lba count buf (Ports.start answers regs)
        AddressesRight devices lba count result.1 result.2.issued) ↔ inRange) := by
  dsimp only
  cases hdev : ataGetDevice (detectedDevices sizes) with
  | none =>
      -- without a device nothing is issued
      have hnone (ports : Ports) (hissued : ports.issued = []) :
          AddressesRight (detectedDevices sizes) lba count false ports.issued := by
        rw [hissued]
        refine ⟨fun c hc => absurd hc List.not_mem_nil, fun i c hc => absurd hc.symm (by simp),
          fun dev h => ?_⟩
        rw [hdev] at h
        exact absurd h.symm (Option.some_ne_none dev)
      have hrange : ∀ dev, (none : Option AtaDevice) = some dev →
          count = 0 ∨ dev.slave = 0 ∧ lba.toNat + count.toNat ≤ 2 ^ 28 ∧
            lba.toNat + count.toNat ≤ dev.maxLba.toNat :=
        fun dev h => absurd h.symm (Option.some_ne_none dev)
      refine ⟨iff_of_true (fun answers regs => ?_) hrange,
        iff_of_true (fun buf answers regs => ?_) hrange⟩
      · rw [ataReadSectors, hdev]
        exact hnone _ rfl
      · rw [ataWriteSectors, hdev]
        exact hnone _ rfl
  | some dev =>
      have hbase := (ataGetDevice_detected hdev).1
      have hread := @addressesRight_iff sizes dev lba count _ _ hdev
        fun i => ataReadSector_transfers hbase (lba + i)
      have hwrite (buf : Nat → UInt16) := @addressesRight_iff sizes dev lba count _ _ hdev
        fun i => ataWriteSector_transfers hbase (lba + i)
          ((List.range 256).map fun k => buf (i.toNat * 256 + k))
      simp only [Option.some.injEq, forall_eq', ataReadSectors, ataWriteSectors, hdev]
      exact ⟨hread, fun h => (hwrite fun _ => 0).mp (h fun _ => 0), fun h buf => (hwrite buf).mpr h⟩

/-- With one disk, the slave of the first controller, reading the first sector reads
that of the master. -/
theorem ata_reads_master_for_slave :
    ataGetDevice (detectedDevices [none, some 1000, none, none]) =
        some ⟨ataPrimaryIo, ataPrimaryCtrl, 1, 1, 1000⟩ ∧
      ∃ answers regs,
        let result := ataReadSectors (detectedDevices [none, some 1000, none, none]) 0 1
          (Ports.start answers regs)
        result.2.issued = [⟨ataPrimaryIo, 0, 0⟩] ∧
          ¬ AddressesRight (detectedDevices [none, some 1000, none, none]) 0 1 result.1.1
            result.2.issued := by
  have hdev : ataGetDevice (detectedDevices [none, some 1000, none, none]) =
      some ⟨ataPrimaryIo, ataPrimaryCtrl, 1, 1, 1000⟩ := by decide
  refine ⟨hdev, fun _ => 0x48, fun _ => 0, ?_⟩
  obtain ⟨m, -, hissues, hm, hready⟩ := ataSectors_issues
    (fun i => ataReadSector_transfers (Or.inl rfl) (0 + i)) 1 0
    (Ports.start (fun _ => 0x48) fun _ => 0)
  obtain rfl := hm (hready fun _ => rfl)
  have hissued : (ataReadSectors (detectedDevices [none, some 1000, none, none]) 0 1
      (Ports.start (fun _ => 0x48) fun _ => 0)).2.issued = [⟨ataPrimaryIo, 0, 0⟩] := by
    rw [ataReadSectors, hdev]
    exact hissues.issued
  refine ⟨hissued, fun h => ?_⟩
  obtain ⟨dev, hdev', -, hdrive⟩ := h.selects ⟨ataPrimaryIo, 0, 0⟩ (by
    rw [hissued]
    exact List.mem_singleton_self _)
  rw [hdev, Option.some.injEq] at hdev'
  rw [← hdev'] at hdrive
  exact absurd hdrive (by decide)

end Dosfs
