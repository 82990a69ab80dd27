import Mathlib.Data.Nat.Bitwise
import Dosfs.Foundation.ByteMemory

/-!
# Reading PCI configuration headers

A translation of `pci_config_read`, `pci_device_check` and `pci_add_device` of
`drivers/pci.c`, over a host bridge that decodes the address word and answers
with one aligned double word of the function's configuration space.
-/

namespace Dosfs

open Foundation

def pciMaxDevices : Nat := 32

def pciMaxFunctions : Nat := 8

def pciMaxDevicesFound : Nat := 128

/-! The offsets of the standard header. -/

def pciVendorId : UInt8 := 0x00
def pciDeviceId : UInt8 := 0x02
def pciRevisionId : UInt8 := 0x08
def pciProgIf : UInt8 := 0x09
def pciSubclass : UInt8 := 0x0A
def pciClass : UInt8 := 0x0B
def pciHeaderType : UInt8 := 0x0E
def pciSecondaryBus : UInt8 := 0x19
def pciInterruptLine : UInt8 := 0x3C
def pciInterruptPin : UInt8 := 0x3D

def pciHeaderMultifunc : UInt32 := 0x80

/-- `pci_device_t` -/
structure PciDevice where
  bus : UInt8
  device : UInt8
  func : UInt8
  vendorId : UInt16
  deviceId : UInt16
  classCode : UInt8
  subclass : UInt8
  progIf : UInt8
  revisionId : UInt8
  headerType : UInt8
  interruptLine : UInt8
  interruptPin : UInt8
deriving DecidableEq

/-- The functions on the buses: the configuration space of each one that exists. -/
abbrev PciHost := UInt8 → UInt8 → UInt8 → Option Memory

/-- The aligned double word of a configuration space. -/
def dwordAt (space : Memory) (addr : Nat) : UInt32 := UInt32.ofNat (space.loadLe addr 4)

/-- What reads of a function's configuration space show. Where no function claims
the access, the bus reads as all ones. -/
def PciHost.space (host : PciHost) (bus dev func : UInt8) : Memory :=
  (host bus dev func).getD fun _ => 0xFF

/-- The answer on the data port to the word on the address port. -/
def PciHost.inl (host : PciHost) (address : UInt32) : UInt32 :=
  if address &&& 0x80000000 = 0 then 0xFFFFFFFF
  else
    dwordAt (host.space (address >>> 16).toUInt8 ((address >>> 11) &&& 0x1F).toUInt8
      ((address >>> 8) &&& 0x07).toUInt8) (address &&& 0xFC).toNat

/-- The word that `pci_config_read` puts on the address port. -/
def pciAddress (bus dev func offset : UInt8) : UInt32 :=
  (bus.toUInt32 <<< 16) ||| (dev.toUInt32 <<< 11) ||| (func.toUInt32 <<< 8) |||
    (offset &&& 0xFC).toUInt32 ||| 0x80000000

def pciConfigRead (host : PciHost) (bus dev func offset : UInt8) : UInt32 :=
  host.inl (pciAddress bus dev func offset)

def pciDeviceCheck (host : PciHost) (bus dev func : UInt8) : Bool :=
  pciConfigRead host bus dev func pciVendorId != 0xFFFFFFFF

/-- The record that `pci_add_device` fills in. -/
def pciRecord (host : PciHost) (bus dev func : UInt8) : PciDevice :=
  let id := pciConfigRead host bus dev func pciVendorId
  let rev := pciConfigRead host bus dev func pciRevisionId
  let head := pciConfigRead host bus dev func pciHeaderType
  let irq := pciConfigRead host bus dev func pciInterruptLine
  { bus := bus
    device := dev
    func := func
    vendorId := (id &&& 0xFFFF).toUInt16
    deviceId := ((id >>> 16) &&& 0xFFFF).toUInt16
    classCode := ((rev >>> 16) &&& 0xFF).toUInt8
    subclass := ((rev >>> 8) &&& 0xFF).toUInt8
    progIf := (rev &&& 0xFF).toUInt8
    revisionId := ((rev >>> 24) &&& 0xFF).toUInt8
    headerType := (head &&& 0x7F).toUInt8
    interruptLine := (irq &&& 0xFF).toUInt8
    interruptPin := ((irq >>> 8) &&& 0xFF).toUInt8 }

/-- The array `devices` up to `device_count`. -/
structure PciTable where
  devices : List PciDevice
  fits : devices.length ≤ pciMaxDevicesFound

def PciTable.empty : PciTable := ⟨[], Nat.zero_le _⟩

def pciAddDevice (host : PciHost) (bus dev func : UInt8) (table : PciTable) : PciTable :=
  if hfull : pciMaxDevicesFound ≤ table.devices.length then table
  else
    { devices := table.devices ++ [pciRecord host bus dev func]
      fits := by rw [List.length_append]; exact Nat.lt_of_not_le hfull }

/-! ## The address word -/

/-- Clearing the low two bits of a byte rounds it down to a double word. -/
theorem and_0xFC (n : Nat) : n &&& 0xFC = 4 * (n / 4 % 64) := by
  refine Nat.eq_of_testBit_eq fun i => ?_
  rw [show 0xFC = 2 ^ 2 * (2 ^ 6 - 1) from rfl, show 4 = 2 ^ 2 from rfl, show 64 = 2 ^ 6 from rfl]
  rw [Nat.testBit_and, Nat.testBit_two_pow_mul, Nat.testBit_two_pow_mul,
    Nat.testBit_two_pow_sub_one, Nat.testBit_mod_two_pow, Nat.testBit_div_two_pow]
  by_cases hi : 2 ≤ i
  · simp [hi, Nat.sub_add_cancel hi, Bool.and_comm]
  · simp [hi]

section Address

variable {bus dev func : UInt8}

/-- The fields of the address word do not overlap. -/
theorem pciAddress_toNat (hdev : dev < 32) (hfunc : func < 8) (offset : UInt8) :
    (pciAddress bus dev func offset).toNat =
      2 ^ 31 + bus.toNat * 2 ^ 16 + dev.toNat * 2 ^ 11 + func.toNat * 2 ^ 8 +
        4 * (offset.toNat / 4) := by
  have hbus := bus.toNat_lt
  have hdev' : dev.toNat < 32 := hdev
  have hfunc' : func.toNat < 8 := hfunc
  have hoffset := offset.toNat_lt
  have hoff : (offset &&& 0xFC).toNat = 4 * (offset.toNat / 4) := by
    rw [UInt8.toNat_and, show (0xFC : UInt8).toNat = 0xFC from rfl, and_0xFC]
    omega
  simp only [pciAddress, UInt32.toNat_or, UInt32.toNat_shiftLeft, UInt8.toNat_toUInt32, hoff]
  rw [Nat.or_comm, show (0x80000000 : UInt32).toNat = 1 <<< 31 from rfl]
  change 1 <<< 31 ||| (bus.toNat <<< 16 % 2 ^ 32 ||| dev.toNat <<< 11 % 2 ^ 32 |||
    func.toNat <<< 8 % 2 ^ 32 ||| 4 * (offset.toNat / 4)) = _
  rw [Nat.mod_eq_of_lt (by omega), Nat.mod_eq_of_lt (by omega), Nat.mod_eq_of_lt (by omega)]
  rw [Nat.or_assoc, Nat.or_assoc]
  rw [← Nat.shiftLeft_add_eq_or_of_lt (by omega) func.toNat]
  rw [← Nat.shiftLeft_add_eq_or_of_lt (by omega) dev.toNat]
  rw [← Nat.shiftLeft_add_eq_or_of_lt (by omega) bus.toNat]
  rw [← Nat.shiftLeft_add_eq_or_of_lt (by omega) 1]
  omega

/-- A field of a word, by shift and mask. -/
theorem wordField_toNat {a shift mask : UInt32} {s w : Nat} (hshift : shift.toNat % 32 = s)
    (hmask : mask.toNat = 2 ^ w - 1) :
    ((a >>> shift) &&& mask).toUInt8.toNat = a.toNat / 2 ^ s % 2 ^ w % 256 := by
  rw [UInt32.toNat_toUInt8, UInt32.toNat_and, UInt32.toNat_shiftRight, hshift, hmask,
    Nat.and_two_pow_sub_one_eq_mod, Nat.shiftRight_eq_div_pow]

/-- The host bridge takes the fields of the address word apart again. -/
theorem pciConfigRead_eq (host : PciHost) (hdev : dev < 32) (hfunc : func < 8) (offset : UInt8) :
    pciConfigRead host bus dev func offset =
      dwordAt (host.space bus dev func) (4 * (offset.toNat / 4)) := by
  have haddr := @pciAddress_toNat bus dev func hdev hfunc offset
  have hbus := bus.toNat_lt
  have hdev' : dev.toNat < 32 := hdev
  have hfunc' : func.toNat < 8 := hfunc
  have hoffset := offset.toNat_lt
  have henabled : pciAddress bus dev func offset &&& 0x80000000 ≠ 0 := by
    intro h
    have hnat := congrArg UInt32.toNat h
    rw [UInt32.toNat_and, show (0x80000000 : UInt32).toNat = 2 ^ 31 from rfl, Nat.and_two_pow,
      Nat.testBit_eq_decide_div_mod_eq, decide_eq_true (by omega)] at hnat
    exact absurd hnat (by decide)
  have hbusField : (pciAddress bus dev func offset >>> 16).toUInt8 = bus := by
    refine UInt8.toNat.inj ?_
    rw [UInt32.toNat_toUInt8, UInt32.toNat_shiftRight, haddr, Nat.shiftRight_eq_div_pow,
      show (16 : UInt32).toNat % 32 = 16 from rfl]
    omega
  have hdevField : ((pciAddress bus dev func offset >>> 11) &&& 0x1F).toUInt8 = dev := by
    have hfield := @wordField_toNat (pciAddress bus dev func offset) 11 0x1F 11 5 rfl rfl
    refine UInt8.toNat.inj ?_
    rw [hfield, haddr]
    omega
  have hfuncField : ((pciAddress bus dev func offset >>> 8) &&& 0x07).toUInt8 = func := by
    have hfield := @wordField_toNat (pciAddress bus dev func offset) 8 0x07 8 3 rfl rfl
    refine UInt8.toNat.inj ?_
    rw [hfield, haddr]
    omega
  have hoffsetField :
      (pciAddress bus dev func offset &&& 0xFC).toNat = 4 * (offset.toNat / 4) := by
    rw [UInt32.toNat_and, haddr, show (0xFC : UInt32).toNat = 0xFC from rfl, and_0xFC]
    omega
  rw [pciConfigRead, PciHost.inl, if_neg henabled, hbusField, hdevField, hfuncField, hoffsetField]

end Address

/-! ## The bytes of a double word -/

section Dword

variable (space : Memory) (addr : Nat)

theorem dwordAt_toNat : (dwordAt space addr).toNat =
    (space addr).toNat + 2 ^ 8 * (space (addr + 1)).toNat + 2 ^ 16 * (space (addr + 2)).toNat +
      2 ^ 24 * (space (addr + 3)).toNat := by
  have h0 := (space addr).toNat_lt
  have h1 := (space (addr + 1)).toNat_lt
  have h2 := (space (addr + 2)).toNat_lt
  have h3 := (space (addr + 3)).toNat_lt
  simp only [dwordAt, Memory.loadLe, UInt32.toNat_ofNat', Nat.add_assoc, Nat.reduceAdd]
  omega

/-- The low byte of a word cut out with the mask 0xFF. -/
theorem toNat_and_0xFF (w : UInt32) : (w &&& 0xFF).toUInt8.toNat = w.toNat % 256 := by
  rw [UInt32.toNat_toUInt8, UInt32.toNat_and, show (0xFF : UInt32).toNat = 2 ^ 8 - 1 from rfl,
    Nat.and_two_pow_sub_one_eq_mod, Nat.mod_mod]

theorem dwordAt_byte0 : (dwordAt space addr &&& 0xFF).toUInt8 = space addr := by
  have h0 := (space addr).toNat_lt
  refine UInt8.toNat.inj ?_
  rw [toNat_and_0xFF, dwordAt_toNat]
  omega

theorem dwordAt_byte1 : ((dwordAt space addr >>> 8) &&& 0xFF).toUInt8 = space (addr + 1) := by
  have h0 := (space addr).toNat_lt
  have h1 := (space (addr + 1)).toNat_lt
  refine UInt8.toNat.inj ?_
  rw [toNat_and_0xFF, UInt32.toNat_shiftRight, dwordAt_toNat, Nat.shiftRight_eq_div_pow,
    show (8 : UInt32).toNat % 32 = 8 from rfl]
  omega

theorem dwordAt_byte2 : ((dwordAt space addr >>> 16) &&& 0xFF).toUInt8 = space (addr + 2) := by
  have h0 := (space addr).toNat_lt
  have h1 := (space (addr + 1)).toNat_lt
  have h2 := (space (addr + 2)).toNat_lt
  refine UInt8.toNat.inj ?_
  rw [toNat_and_0xFF, UInt32.toNat_shiftRight, dwordAt_toNat, Nat.shiftRight_eq_div_pow,
    show (16 : UInt32).toNat % 32 = 16 from rfl]
  omega

theorem dwordAt_byte3 : ((dwordAt space addr >>> 24) &&& 0xFF).toUInt8 = space (addr + 3) := by
  have h0 := (space addr).toNat_lt
  have h1 := (space (addr + 1)).toNat_lt
  have h2 := (space (addr + 2)).toNat_lt
  have h3 := (space (addr + 3)).toNat_lt
  refine UInt8.toNat.inj ?_
  rw [toNat_and_0xFF, UInt32.toNat_shiftRight, dwordAt_toNat, Nat.shiftRight_eq_div_pow,
    show (24 : UInt32).toNat % 32 = 24 from rfl]
  omega

theorem dwordAt_toUInt8 : (dwordAt space addr).toUInt8 = space addr := by
  have hbyte := dwordAt_byte0 space addr
  rwa [UInt32.toUInt8_and, show (0xFF : UInt32).toUInt8 = -1 from rfl, UInt8.and_neg_one] at hbyte

/-- A mask of the low byte sees the first byte only. -/
theorem dwordAt_and_0x80 : dwordAt space addr &&& 0x80 = 0 ↔ space addr &&& 0x80 = 0 := by
  have hmask (n : Nat) : n &&& 0x80 = 0 ↔ n.testBit 7 = false := by
    rw [show 0x80 = 2 ^ 7 from rfl, Nat.and_two_pow]
    cases n.testBit 7 <;> simp
  rw [← dwordAt_toUInt8 space addr, ← UInt32.toNat_inj, ← UInt8.toNat_inj, UInt32.toNat_and,
    UInt8.toNat_and, UInt32.toNat_toUInt8]
  change _ &&& 0x80 = 0 ↔ _ &&& 0x80 = 0
  rw [hmask, hmask, Nat.testBit_mod_two_pow, decide_eq_true (by decide), Bool.true_and]

theorem dwordAt_eq_ones :
    dwordAt space addr = 0xFFFFFFFF ↔ ∀ i < 4, space (addr + i) = 0xFF := by
  have h0 := (space addr).toNat_lt
  have h1 := (space (addr + 1)).toNat_lt
  have h2 := (space (addr + 2)).toNat_lt
  have h3 := (space (addr + 3)).toNat_lt
  rw [← UInt32.toNat_inj, dwordAt_toNat, show (0xFFFFFFFF : UInt32).toNat = 2 ^ 32 - 1 from rfl]
  simp only [Nat.forall_lt_succ_right, Nat.not_lt_zero, IsEmpty.forall_iff, implies_true, true_and,
    Nat.add_zero, ← UInt8.toNat_inj, show (0xFF : UInt8).toNat = 255 from rfl]
  omega

/-- The low half holds the first two bytes. -/
theorem dwordAt_word0 :
    (dwordAt space addr &&& 0xFFFF).toUInt16 = UInt16.ofNat (space.loadLe addr 2) := by
  have h0 := (space addr).toNat_lt
  have h1 := (space (addr + 1)).toNat_lt
  refine UInt16.toNat.inj ?_
  rw [UInt32.toNat_toUInt16, UInt32.toNat_and, show (0xFFFF : UInt32).toNat = 2 ^ 16 - 1 from rfl,
    Nat.and_two_pow_sub_one_eq_mod, dwordAt_toNat, UInt16.toNat_ofNat']
  simp only [Memory.loadLe]
  omega

/-- The high half holds the other two. -/
theorem dwordAt_word1 : ((dwordAt space addr >>> 16) &&& 0xFFFF).toUInt16 =
    UInt16.ofNat (space.loadLe (addr + 2) 2) := by
  have h0 := (space addr).toNat_lt
  have h1 := (space (addr + 1)).toNat_lt
  have h2 := (space (addr + 2)).toNat_lt
  have h3 := (space (addr + 3)).toNat_lt
  refine UInt16.toNat.inj ?_
  rw [UInt32.toNat_toUInt16, UInt32.toNat_and, show (0xFFFF : UInt32).toNat = 2 ^ 16 - 1 from rfl,
    Nat.and_two_pow_sub_one_eq_mod, UInt32.toNat_shiftRight, dwordAt_toNat,
    Nat.shiftRight_eq_div_pow, show (16 : UInt32).toNat % 32 = 16 from rfl, UInt16.toNat_ofNat']
  simp only [Memory.loadLe, Nat.add_assoc, Nat.reduceAdd]
  omega

end Dword

/-! ## The records -/

/-- The record shows the bytes at the offsets of the standard header. -/
structure PciDevice.Decodes (d : PciDevice) (space : Memory) : Prop where
  vendorId : d.vendorId = UInt16.ofNat (space.loadLe pciVendorId.toNat 2)
  deviceId : d.deviceId = UInt16.ofNat (space.loadLe pciDeviceId.toNat 2)
  revisionId : d.revisionId = space pciRevisionId.toNat
  progIf : d.progIf = space pciProgIf.toNat
  subclass : d.subclass = space pciSubclass.toNat
  classCode : d.classCode = space pciClass.toNat
  headerType : d.headerType = space pciHeaderType.toNat &&& 0x7F
  interruptLine : d.interruptLine = space pciInterruptLine.toNat
  interruptPin : d.interruptPin = space pciInterruptPin.toNat

section Record

variable {host : PciHost} {bus dev func : UInt8} {space : Memory}

/-- What `pci_add_device` makes of a configuration space. The class double word is
taken apart from the wrong end, and the header type is looked for at the cache line
size. -/
theorem pciRecord_eq (hspace : host.space bus dev func = space) (hdev : dev < 32)
    (hfunc : func < 8) :
    pciRecord host bus dev func =
      { bus := bus
        device := dev
        func := func
        vendorId := UInt16.ofNat (space.loadLe 0x00 2)
        deviceId := UInt16.ofNat (space.loadLe 0x02 2)
        classCode := space 0x0A
        subclass := space 0x09
        progIf := space 0x08
        revisionId := space 0x0B
        headerType := space 0x0C &&& 0x7F
        interruptLine := space 0x3C
        interruptPin := space 0x3D } := by
  have hread (offset : UInt8) : pciConfigRead host bus dev func offset =
      dwordAt space (4 * (offset.toNat / 4)) := by
    rw [pciConfigRead_eq host hdev hfunc, hspace]
  have hheader : (dwordAt space 0x0C &&& 0x7F).toUInt8 = space 0x0C &&& 0x7F := by
    rw [UInt32.toUInt8_and, dwordAt_toUInt8]
    rfl
  have hid : 4 * (pciVendorId.toNat / 4) = 0x00 := rfl
  have hrev : 4 * (pciRevisionId.toNat / 4) = 0x08 := rfl
  have hhead : 4 * (pciHeaderType.toNat / 4) = 0x0C := rfl
  have hirq : 4 * (pciInterruptLine.toNat / 4) = 0x3C := rfl
  simp only [pciRecord, hread, hid, hrev, hhead, hirq, hheader, dwordAt_byte0, dwordAt_byte1,
    dwordAt_byte2, dwordAt_byte3, dwordAt_word0, dwordAt_word1, Nat.reduceAdd]

theorem pciAddDevice_devices (table : PciTable) :
    (pciAddDevice host bus dev func table).devices =
      (table.devices ++ [pciRecord host bus dev func]).take pciMaxDevicesFound := by
  unfold pciAddDevice
  split
  next hfull =>
    rw [List.take_append_of_le_length hfull, List.take_of_length_le table.fits]
  next hroom =>
    rw [List.take_of_length_le]
    rw [List.length_append]
    exact Nat.lt_of_not_le hroom

/-- The stored record decodes the header exactly when the bytes that are mixed up
happen to agree: the four bytes of the class double word, and the header type with
the cache line size. -/
theorem pciAddDevice_decodes_iff (host : PciHost) (bus dev func : UInt8) (space : Memory)
    (table : PciTable) (hspace : host bus dev func = some space) (hdev : dev.toNat < pciMaxDevices)
    (hfunc : func.toNat < pciMaxFunctions) (hroom : table.devices.length < pciMaxDevicesFound) :
    ∃ d, (pciAddDevice host bus dev func table).devices = table.devices ++ [d] ∧
      (d.Decodes space ↔
        space 0x08 = space 0x09 ∧ space 0x09 = space 0x0A ∧ space 0x0A = space 0x0B ∧
          space 0x0C &&& 0x7F = space 0x0E &&& 0x7F) := by
  refine ⟨pciRecord host bus dev func, ?_, ?_⟩
  · rw [pciAddDevice_devices, List.take_of_length_le]
    rw [List.length_append]
    exact hroom
  · rw [pciRecord_eq (by rw [PciHost.space, hspace, Option.getD_some]) hdev hfunc]
    constructor
    · rintro ⟨-, -, -, hprog, hsub, hclass, hheader, -, -⟩
      exact ⟨hprog, hsub, hclass, hheader⟩
    · rintro ⟨h8, h9, hA, hheader⟩
      exact ⟨rfl, rfl, (h8.trans (h9.trans hA)).symm, h8, h9, hA, hheader, rfl, rfl⟩

/-- A network card of class 02, subclass 00, with revision 10 and an ordinary header. -/
def networkCard : Memory := fun i =>
  ([0xEC, 0x10, 0x29, 0x80, 0, 0, 0, 0, 0x10, 0x00, 0x00, 0x02] : List UInt8).getD i 0

theorem pciAddDevice_decodes_iff_networkCard :
    ∃ d, (pciAddDevice (fun _ _ _ => some networkCard) 0 3 0 PciTable.empty).devices = [] ++ [d] ∧
      (d.Decodes networkCard ↔
        networkCard 0x08 = networkCard 0x09 ∧ networkCard 0x09 = networkCard 0x0A ∧
          networkCard 0x0A = networkCard 0x0B ∧
          networkCard 0x0C &&& 0x7F = networkCard 0x0E &&& 0x7F) :=
  pciAddDevice_decodes_iff _ 0 3 0 networkCard PciTable.empty rfl (by decide) (by decide)
    (by decide)

/-- The card is recorded as an old unclassified device of class 00 and revision 02. -/
theorem pciAddDevice_misreads_class :
    ∃ d, (pciAddDevice (fun _ _ _ => some networkCard) 0 3 0 PciTable.empty).devices = [d] ∧
      d.classCode = 0x00 ∧ d.revisionId = 0x02 ∧ networkCard pciClass.toNat = 0x02 ∧
      ¬ d.Decodes networkCard := by
  refine ⟨_, rfl, by decide, by decide, rfl, fun h => ?_⟩
  exact absurd h.classCode (by decide)

end Record

end Dosfs
