import Mathlib.Data.Set.Card
import Dosfs.Drivers.Pci
import Dosfs.Foundation.Worklist

/-!
# Enumerating the PCI buses

A translation of the scanning functions of `drivers/pci.c`, and what the device
table holds afterwards: it is a list that grows while it is visited.
-/

namespace Dosfs

open Foundation

/-- The numbers of the functions above 0. -/
def furtherFuncs : List UInt8 := (List.range' 1 (pciMaxFunctions - 1)).map UInt8.ofNat

def pciScanDevice (host : PciHost) (bus dev : UInt8) (table : PciTable) : PciTable :=
  if !pciDeviceCheck host bus dev 0 then table
  else
    let table := pciAddDevice host bus dev 0 table
    let head := pciConfigRead host bus dev 0 pciHeaderType
    if head &&& pciHeaderMultifunc ≠ 0 then
      furtherFuncs.foldl
        (fun table func =>
          if pciDeviceCheck host bus dev func then pciAddDevice host bus dev func table else table)
        table
    else table

def pciScanBus (host : PciHost) (bus : UInt8) (table : PciTable) : PciTable :=
  ((List.range pciMaxDevices).map UInt8.ofNat).foldl
    (fun table dev => pciScanDevice host bus dev table) table

/-- `secondary_bus` -/
def pciSecondary (host : PciHost) (d : PciDevice) : UInt8 :=
  ((pciConfigRead host d.bus d.device d.func pciSecondaryBus >>> 8) &&& 0xFF).toUInt8

/-- The body of the loop of `pci_scan_all`. -/
def pciScanBehind (host : PciHost) (d : PciDevice) (table : PciTable) : PciTable :=
  if d.classCode = 0x06 ∧ d.subclass = 0x04 then
    if pciSecondary host d ≠ 0 then pciScanBus host (pciSecondary host d) table else table
  else table

/-- The loop of `pci_scan_all`; `none` when it runs out of fuel. -/
def pciScanBridges (host : PciHost) : Nat → Nat → PciTable → Option PciTable
  | 0, _, _ => none
  | fuel + 1, i, table =>
      match table.devices[i]? with
      | none => some table
      | some d => pciScanBridges host fuel (i + 1) (pciScanBehind host d table)

def pciScanAll (host : PciHost) (fuel : Nat) : Option PciTable :=
  pciScanBridges host fuel 0 (pciScanBus host 0 PciTable.empty)

/-! ## What a scan appends -/

/-- The operation appends these records, as far as there is room. -/
def PciTable.Appends (op : PciTable → PciTable) (records : List PciDevice) : Prop :=
  ∀ table, (op table).devices = (table.devices ++ records).take pciMaxDevicesFound

variable {host : PciHost} {bus dev func : UInt8}

theorem PciTable.Appends.skip : PciTable.Appends id [] := fun table => by
  rw [List.append_nil, List.take_of_length_le table.fits, id]

theorem PciTable.Appends.comp {op op' : PciTable → PciTable} {records records' : List PciDevice}
    (h : PciTable.Appends op records) (h' : PciTable.Appends op' records') :
    PciTable.Appends (fun table => op' (op table)) (records ++ records') := fun table => by
  rw [h', h, take_append_take, List.append_assoc]

theorem PciTable.Appends.ite {c : Prop} [Decidable c] {op op' : PciTable → PciTable}
    {records records' : List PciDevice} (h : PciTable.Appends op records)
    (h' : PciTable.Appends op' records') :
    PciTable.Appends (fun table => if c then op table else op' table)
      (if c then records else records') := by
  split
  · exact h
  · exact h'

theorem PciTable.Appends.foldl {ι : Type} {op : ι → PciTable → PciTable}
    {records : ι → List PciDevice} (l : List ι) (h : ∀ i ∈ l, PciTable.Appends (op i) (records i)) :
    PciTable.Appends (fun table => l.foldl (fun table i => op i table) table)
      (l.flatMap records) := by
  induction l with
  | nil => exact PciTable.Appends.skip
  | cons i l ih =>
      exact (h i List.mem_cons_self).comp (ih fun j hj => h j (List.mem_cons_of_mem _ hj))

/-- The records of the functions of a device that a scan finds. -/
def deviceRecords (host : PciHost) (bus dev : UInt8) : List PciDevice :=
  if !pciDeviceCheck host bus dev 0 then []
  else
    [pciRecord host bus dev 0] ++
      if pciConfigRead host bus dev 0 pciHeaderType &&& pciHeaderMultifunc ≠ 0 then
        furtherFuncs.flatMap fun func =>
          if pciDeviceCheck host bus dev func then [pciRecord host bus dev func] else []
      else []

def busRecords (host : PciHost) (bus : UInt8) : List PciDevice :=
  ((List.range pciMaxDevices).map UInt8.ofNat).flatMap (deviceRecords host bus)

/-- The records found behind a device that is taken for a bridge. -/
def recordsBehind (host : PciHost) (d : PciDevice) : List PciDevice :=
  if d.classCode = 0x06 ∧ d.subclass = 0x04 then
    if pciSecondary host d ≠ 0 then busRecords host (pciSecondary host d) else []
  else []

theorem pciAddDevice_appends :
    PciTable.Appends (pciAddDevice host bus dev func) [pciRecord host bus dev func] :=
  fun table => pciAddDevice_devices table

/-- The loop over the functions above 0. -/
theorem furtherFuncs_appends :
    PciTable.Appends
      (fun table => furtherFuncs.foldl
        (fun table func =>
          if pciDeviceCheck host bus dev func then pciAddDevice host bus dev func table else table)
        table)
      (furtherFuncs.flatMap fun func =>
        if pciDeviceCheck host bus dev func then [pciRecord host bus dev func] else []) :=
  PciTable.Appends.foldl furtherFuncs fun _ _ => pciAddDevice_appends.ite .skip

theorem pciScanDevice_appends :
    PciTable.Appends (pciScanDevice host bus dev) (deviceRecords host bus dev) := by
  have hfurther := (@furtherFuncs_appends host bus dev).ite
    (c := pciConfigRead host bus dev 0 pciHeaderType &&& pciHeaderMultifunc ≠ 0) .skip
  exact PciTable.Appends.skip.ite (pciAddDevice_appends.comp hfurther)

theorem pciScanBus_appends : PciTable.Appends (pciScanBus host bus) (busRecords host bus) :=
  PciTable.Appends.foldl _ fun _ _ => pciScanDevice_appends

theorem pciScanBehind_appends (d : PciDevice) :
    PciTable.Appends (pciScanBehind host d) (recordsBehind host d) :=
  (pciScanBus_appends.ite .skip).ite .skip

/-- The loop of `pci_scan_all` visits a list that grows. -/
theorem pciScanBridges_eq (fuel i : Nat) (table : PciTable) :
    (pciScanBridges host fuel i table).map PciTable.devices =
      growList (recordsBehind host) pciMaxDevicesFound fuel i table.devices := by
  induction fuel generalizing i table with
  | zero => rfl
  | succ fuel ih =>
      rw [pciScanBridges, growList]
      cases table.devices[i]? with
      | none => rfl
      | some d =>
          change Option.map _ (pciScanBridges host fuel (i + 1) _) = growList _ _ _ _ _
          rw [ih, pciScanBehind_appends d table]

theorem pciScanAll_eq (fuel : Nat) :
    (pciScanAll host fuel).map PciTable.devices =
      growList (recordsBehind host) pciMaxDevicesFound fuel 0
        ((busRecords host 0).take pciMaxDevicesFound) := by
  rw [pciScanAll, pciScanBridges_eq, pciScanBus_appends, PciTable.empty, List.nil_append]

/-! ## The functions on the buses -/

/-- A byte of a configuration space. -/
def PciHost.byte (host : PciHost) (bus dev func : UInt8) (offset : Nat) : UInt8 :=
  host.space bus dev func offset

/-- The function has a vendor and a device: it does not read as all ones. -/
def PciHost.Answers (host : PciHost) (bus dev func : UInt8) : Prop :=
  ∃ i < 4, host.byte bus dev func i ≠ 0xFF

/-- The device has the function. Function 0 must answer, and the header type tells
whether there are others. -/
structure PciHost.Has (host : PciHost) (bus dev func : UInt8) : Prop where
  dev_lt : dev < 32
  func_lt : func < 8
  first : host.Answers bus dev 0
  answers : host.Answers bus dev func
  multi : func ≠ 0 → host.byte bus dev 0 0x0E &&& 0x80 ≠ 0

/-- A PCI-PCI bridge, by its class and subclass. -/
def PciHost.IsBridge (host : PciHost) (bus dev func : UInt8) : Prop :=
  host.byte bus dev func 0x0B = 0x06 ∧ host.byte bus dev func 0x0A = 0x04

/-- The buses below bus 0, by a test for bridges. -/
inductive PciHost.Below (host : PciHost) (bridge : UInt8 → UInt8 → UInt8 → Prop) : UInt8 → Prop
  | root : host.Below bridge 0
  | behind {bus dev func : UInt8} (h : host.Below bridge bus) (hhas : host.Has bus dev func)
      (hbridge : bridge bus dev func) : host.Below bridge (host.byte bus dev func 0x19)

/-- The functions that the enumeration has to find, by their addresses. -/
def PciHost.IsFunction (host : PciHost) (a : UInt8 × UInt8 × UInt8) : Prop :=
  host.Below host.IsBridge a.1 ∧ host.Has a.1 a.2.1 a.2.2

def PciDevice.address (d : PciDevice) : UInt8 × UInt8 × UInt8 := (d.bus, d.device, d.func)

/-- The table has every function exactly once. -/
def PciHost.Enumerates (host : PciHost) (table : PciTable) : Prop :=
  (table.devices.map PciDevice.address).Nodup ∧
    ∀ a, a ∈ table.devices.map PciDevice.address ↔ host.IsFunction a

/-- The bridges make a tree of the buses: each one leads to a bus of its own. -/
structure PciHost.Tree (host : PciHost) : Prop where
  nonzero : ∀ a : UInt8 × UInt8 × UInt8, host.IsFunction a → host.IsBridge a.1 a.2.1 a.2.2 →
    host.byte a.1 a.2.1 a.2.2 0x19 ≠ 0
  unique : ∀ a b : UInt8 × UInt8 × UInt8, host.IsFunction a → host.IsFunction b →
    host.IsBridge a.1 a.2.1 a.2.2 → host.IsBridge b.1 b.2.1 b.2.2 →
    host.byte a.1 a.2.1 a.2.2 0x19 = host.byte b.1 b.2.1 b.2.2 0x19 → a = b

/-- What the scan takes for a bridge that leads somewhere. -/
def PciHost.TakenForBridge (host : PciHost) (bus dev func : UInt8) : Prop :=
  host.byte bus dev func 0x0A = 0x06 ∧ host.byte bus dev func 0x09 = 0x04 ∧
    host.byte bus dev func 0x19 ≠ 0

/-- Some device answers on the bus. -/
def PciHost.Populated (host : PciHost) (bus : UInt8) : Prop :=
  ∃ dev, dev < 32 ∧ host.Answers bus dev 0

/-- The headers read the same at the offsets that the scan looks at. -/
structure PciHost.ReadsAlike (host : PciHost) : Prop where
  multi : ∀ bus dev func, host.Below host.IsBridge bus → dev < 32 → host.Answers bus dev 0 →
    func ≠ 0 → func < 8 → host.Answers bus dev func →
      (host.byte bus dev 0 0x0C &&& 0x80 ≠ 0 ↔ host.byte bus dev 0 0x0E &&& 0x80 ≠ 0)
  buses : ∀ bus, host.Populated bus →
    (host.Below host.TakenForBridge bus ↔ host.Below host.IsBridge bus)
  once : ∀ a b : UInt8 × UInt8 × UInt8, host.IsFunction a → host.IsFunction b →
    host.TakenForBridge a.1 a.2.1 a.2.2 → host.TakenForBridge b.1 b.2.1 b.2.2 →
    host.byte a.1 a.2.1 a.2.2 0x19 = host.byte b.1 b.2.1 b.2.2 0x19 →
    host.Populated (host.byte a.1 a.2.1 a.2.2 0x19) → a = b

/-! ## What the scan reads -/

theorem pciDeviceCheck_iff (hdev : dev < 32) (hfunc : func < 8) :
    pciDeviceCheck host bus dev func = true ↔ host.Answers bus dev func := by
  have hones := dwordAt_eq_ones (host.space bus dev func) 0
  simp only [Nat.zero_add] at hones
  rw [pciDeviceCheck, pciConfigRead_eq host hdev hfunc, bne_iff_ne, ne_eq,
    show 4 * (pciVendorId.toNat / 4) = 0 from rfl, hones]
  simp only [PciHost.Answers, PciHost.byte, not_forall, exists_prop, ne_eq]

theorem multifunc_iff (hdev : dev < 32) :
    pciConfigRead host bus dev 0 pciHeaderType &&& pciHeaderMultifunc ≠ 0 ↔
      host.byte bus dev 0 0x0C &&& 0x80 ≠ 0 := by
  rw [pciConfigRead_eq host hdev (by decide)]
  exact (dwordAt_and_0x80 (host.space bus dev 0) 0x0C).not

theorem pciSecondary_pciRecord (hdev : dev < 32) (hfunc : func < 8) :
    pciSecondary host (pciRecord host bus dev func) = host.byte bus dev func 0x19 := by
  rw [pciSecondary, pciRecord_eq rfl hdev hfunc, pciConfigRead_eq host hdev hfunc]
  exact dwordAt_byte1 (host.space bus dev func) 0x18

/-- The values of a loop counter that is a byte. -/
theorem mem_byteRange {first count : Nat} (hfit : first + count ≤ 256) {x : UInt8} :
    x ∈ (List.range' first count).map UInt8.ofNat ↔
      first ≤ x.toNat ∧ x.toNat < first + count := by
  rw [List.mem_map]
  constructor
  · rintro ⟨k, hk, rfl⟩
    have hk := List.mem_range'_1.mp hk
    rwa [UInt8.toNat_ofNat', Nat.mod_eq_of_lt (by omega)]
  · intro hx
    exact ⟨x.toNat, List.mem_range'_1.mpr hx, UInt8.ofNat_toNat⟩

theorem mem_furtherFuncs : func ∈ furtherFuncs ↔ func ≠ 0 ∧ func < 8 := by
  rw [furtherFuncs, pciMaxFunctions, mem_byteRange (by decide), ne_eq, ← UInt8.toNat_inj,
    UInt8.lt_iff_toNat_lt]
  change 1 ≤ func.toNat ∧ func.toNat < 8 ↔ ¬ func.toNat = 0 ∧ func.toNat < 8
  omega

theorem mem_devs : dev ∈ (List.range pciMaxDevices).map UInt8.ofNat ↔ dev < 32 := by
  rw [pciMaxDevices, List.range_eq_range', mem_byteRange (by decide), UInt8.lt_iff_toNat_lt]
  exact and_iff_right (Nat.zero_le _)

theorem mem_deviceRecords (hdev : dev < 32) {d : PciDevice} :
    d ∈ deviceRecords host bus dev ↔
      ∃ func, func < 8 ∧ d = pciRecord host bus dev func ∧
        host.Answers bus dev 0 ∧ host.Answers bus dev func ∧
        (func ≠ 0 → host.byte bus dev 0 0x0C &&& 0x80 ≠ 0) := by
  have hcheck := @pciDeviceCheck_iff host bus dev 0 hdev (by decide)
  have hfurther : d ∈ (furtherFuncs.flatMap fun func =>
      if pciDeviceCheck host bus dev func then [pciRecord host bus dev func] else []) ↔
      ∃ func, func ≠ 0 ∧ func < 8 ∧ host.Answers bus dev func ∧
        d = pciRecord host bus dev func := by
    simp only [List.mem_flatMap, List.mem_ite_nil_right, List.mem_singleton, mem_furtherFuncs,
      and_assoc]
    refine exists_congr fun func => and_congr_right fun _ => and_congr_right fun hfunc => ?_
    rw [pciDeviceCheck_iff hdev hfunc]
  unfold deviceRecords
  split
  next hno =>
    rw [Bool.not_eq_true', ← Bool.not_eq_true, hcheck] at hno
    exact iff_of_false List.not_mem_nil fun ⟨_, _, _, hfirst, _⟩ => hno hfirst
  next hyes =>
    rw [Bool.not_eq_true', Bool.not_eq_false, hcheck] at hyes
    rw [List.mem_append, List.mem_singleton, List.mem_ite_nil_right, hfurther, multifunc_iff hdev]
    constructor
    · rintro (rfl | ⟨hmulti, func, -, hfunc, hanswers, rfl⟩)
      · exact ⟨0, by decide, rfl, hyes, hyes, fun h => absurd rfl h⟩
      · exact ⟨func, hfunc, rfl, hyes, hanswers, fun _ => hmulti⟩
    · rintro ⟨func, hfunc, rfl, -, hanswers, hmulti⟩
      by_cases hzero : func = 0
      · exact Or.inl (by rw [hzero])
      · exact Or.inr ⟨hmulti hzero, func, hzero, hfunc, hanswers, rfl⟩

theorem mem_busRecords {d : PciDevice} :
    d ∈ busRecords host bus ↔
      ∃ dev func, dev < 32 ∧ func < 8 ∧ d = pciRecord host bus dev func ∧
        host.Answers bus dev 0 ∧ host.Answers bus dev func ∧
        (func ≠ 0 → host.byte bus dev 0 0x0C &&& 0x80 ≠ 0) := by
  rw [busRecords, List.mem_flatMap]
  constructor
  · rintro ⟨dev, hdev, hd⟩
    have hdev := mem_devs.mp hdev
    obtain ⟨func, hfunc, hrest⟩ := (mem_deviceRecords hdev).mp hd
    exact ⟨dev, func, hdev, hfunc, hrest⟩
  · rintro ⟨dev, func, hdev, hfunc, hrest⟩
    exact ⟨dev, mem_devs.mpr hdev, (mem_deviceRecords hdev).mpr ⟨func, hfunc, hrest⟩⟩

theorem deviceRecords_nodup : (deviceRecords host bus dev).Nodup := by
  unfold deviceRecords
  split
  · exact List.nodup_nil
  refine List.nodup_append.mpr ⟨List.nodup_singleton _, ?_, ?_⟩
  · split
    · refine nodup_flatMap_of_key PciDevice.func (by decide) ?_ ?_
      · intro func _
        split
        · exact List.nodup_singleton _
        · exact List.nodup_nil
      · intro func _ d hd
        obtain rfl := List.mem_singleton.mp (List.mem_ite_nil_right.mp hd).2
        rfl
    · exact List.nodup_nil
  · -- the functions above 0 are not function 0
    rintro a ha b hb rfl
    obtain rfl := List.mem_singleton.mp ha
    obtain ⟨func, hfunc, hb⟩ := List.mem_flatMap.mp (List.mem_ite_nil_right.mp hb).2
    have heq := List.mem_singleton.mp (List.mem_ite_nil_right.mp hb).2
    exact (mem_furtherFuncs.mp hfunc).1 (congrArg PciDevice.func heq).symm

/-- A function is listed once. -/
theorem busRecords_nodup : (busRecords host bus).Nodup := by
  refine nodup_flatMap_of_key PciDevice.device (by decide) (fun _ _ => deviceRecords_nodup) ?_
  intro dev hdev d hd
  obtain ⟨func, -, rfl, -⟩ := (mem_deviceRecords (mem_devs.mp hdev)).mp hd
  rfl

/-- What the scan finds behind an entry. -/
theorem mem_recordsBehind {d d' : PciDevice} :
    d' ∈ recordsBehind host d ↔
      d.classCode = 0x06 ∧ d.subclass = 0x04 ∧ pciSecondary host d ≠ 0 ∧
        d' ∈ busRecords host (pciSecondary host d) := by
  rw [recordsBehind, List.mem_ite_nil_right, List.mem_ite_nil_right, and_assoc]

theorem recordsBehind_nodup (d : PciDevice) : (recordsBehind host d).Nodup := by
  unfold recordsBehind
  split
  · split
    · exact busRecords_nodup
    · exact List.nodup_nil
  · exact List.nodup_nil

theorem mem_recordsBehind_pciRecord (hdev : dev < 32) (hfunc : func < 8) {d : PciDevice} :
    d ∈ recordsBehind host (pciRecord host bus dev func) ↔
      host.TakenForBridge bus dev func ∧ d ∈ busRecords host (host.byte bus dev func 0x19) := by
  rw [mem_recordsBehind, pciSecondary_pciRecord hdev hfunc, pciRecord_eq rfl hdev hfunc,
    PciHost.TakenForBridge, and_assoc, and_assoc]
  rfl

/-! ## The entries that are found -/

/-- The scan comes to the record. -/
abbrev PciHost.Finds (host : PciHost) (d : PciDevice) : Prop :=
  Leads (busRecords host 0) (recordsBehind host) d

section Finds

variable {d : PciDevice}

/-- A record that is found is one of a function that the scan lists on its bus. -/
theorem PciHost.Finds.mem_busRecords (h : host.Finds d) : d ∈ busRecords host d.bus := by
  have hbus {bus : UInt8} (hd : d ∈ busRecords host bus) : d ∈ busRecords host d.bus := by
    obtain ⟨dev, func, -, -, rfl, -⟩ := Dosfs.mem_busRecords.mp hd
    exact hd
  cases h with
  | root h => exact hbus h
  | step _ h => exact hbus (mem_recordsBehind.mp h).2.2.2

theorem PciHost.Finds.eq_pciRecord (h : host.Finds d) :
    d = pciRecord host d.bus d.device d.func := by
  obtain ⟨dev, func, -, -, hd, -⟩ := Dosfs.mem_busRecords.mp h.mem_busRecords
  rw [hd]
  rfl

theorem PciHost.Finds.eq_of_address {d' : PciDevice} (h : host.Finds d) (h' : host.Finds d')
    (haddress : d.address = d'.address) : d = d' := by
  rw [h.eq_pciRecord, h'.eq_pciRecord]
  simp only [PciDevice.address, Prod.mk.injEq] at haddress
  rw [haddress.1, haddress.2.1, haddress.2.2]

theorem PciHost.Finds.populated (h : host.Finds d) : host.Populated d.bus := by
  obtain ⟨dev, _, hdev, -, -, hfirst, -⟩ := Dosfs.mem_busRecords.mp h.mem_busRecords
  exact ⟨dev, hdev, hfirst⟩

/-- A bus that is scanned is scanned to the end. -/
theorem PciHost.Finds.same_bus {d' : PciDevice} (h : host.Finds d)
    (hd' : d' ∈ busRecords host d.bus) : host.Finds d' := by
  have hbus {bus : UInt8} (hd : d ∈ busRecords host bus) : d.bus = bus := by
    obtain ⟨dev, func, -, -, rfl, -⟩ := Dosfs.mem_busRecords.mp hd
    rfl
  cases h with
  | root h => exact .root (hbus h ▸ hd')
  | step h hd =>
      obtain ⟨hclass, hsub, hsec, hd⟩ := mem_recordsBehind.mp hd
      exact h.step (mem_recordsBehind.mpr ⟨hclass, hsub, hsec, hbus hd ▸ hd'⟩)

end Finds

/-! ## Headers that read alike -/

theorem PciHost.Has.populated (h : host.Has bus dev func) : host.Populated bus :=
  ⟨dev, h.dev_lt, h.first⟩

section ReadsAlike

variable (halike : host.ReadsAlike)

include halike

/-- On the buses below bus 0 the scan lists the functions that are there. -/
theorem PciHost.ReadsAlike.mem_busRecords_iff (hbus : host.Below host.IsBridge bus)
    {d : PciDevice} :
    d ∈ busRecords host bus ↔
      ∃ dev func, d = pciRecord host bus dev func ∧ host.Has bus dev func := by
  rw [mem_busRecords]
  refine exists_congr fun dev => exists_congr fun func => ⟨?_, ?_⟩
  · rintro ⟨hdev, hfunc, rfl, hfirst, hanswers, hmulti⟩
    refine ⟨rfl, hdev, hfunc, hfirst, hanswers, fun hne => ?_⟩
    exact (halike.multi bus dev func hbus hdev hfirst hne hfunc hanswers).mp (hmulti hne)
  · rintro ⟨rfl, hhas⟩
    refine ⟨hhas.dev_lt, hhas.func_lt, rfl, hhas.first, hhas.answers, fun hne => ?_⟩
    exact (halike.multi bus dev func hbus hhas.dev_lt hhas.first hne hhas.func_lt
      hhas.answers).mpr (hhas.multi hne)

/-- What is found lies on a bus to which the functions taken for bridges lead. -/
theorem PciHost.ReadsAlike.below_of_finds {d : PciDevice} (h : host.Finds d) :
    host.Below host.TakenForBridge d.bus ∧ host.IsFunction d.address := by
  have hlisted {bus : UInt8} {d : PciDevice} (hbus : host.Below host.TakenForBridge bus)
      (hd : d ∈ busRecords host bus) :
      host.Below host.TakenForBridge d.bus ∧ host.IsFunction d.address := by
    obtain ⟨dev, func, hdev, hfunc, rfl, hfirst, -⟩ := mem_busRecords.mp hd
    have hreal := (halike.buses bus ⟨dev, hdev, hfirst⟩).mp hbus
    obtain ⟨dev', func', heq, hhas⟩ := (halike.mem_busRecords_iff hreal).mp hd
    obtain ⟨rfl, rfl⟩ : dev = dev' ∧ func = func' :=
      ⟨congrArg PciDevice.device heq, congrArg PciDevice.func heq⟩
    exact ⟨hbus, hreal, hhas⟩
  induction h with
  | root hd => exact hlisted .root hd
  | @step a d ha hd ih =>
      have hhas : host.Has a.bus a.device a.func := ih.2.2
      rw [PciHost.Finds.eq_pciRecord ha,
        mem_recordsBehind_pciRecord hhas.dev_lt hhas.func_lt] at hd
      exact hlisted (ih.1.behind hhas hd.1) hd.2

/-- All functions are found. -/
theorem PciHost.ReadsAlike.finds {a : UInt8 × UInt8 × UInt8} (h : host.IsFunction a) :
    host.Finds (pciRecord host a.1 a.2.1 a.2.2) := by
  have hscanned {bus : UInt8} (hbus : host.Below host.TakenForBridge bus)
      (hpop : host.Populated bus) : ∀ d ∈ busRecords host bus, host.Finds d := by
    induction hbus with
    | root => exact fun d hd => .root hd
    | @behind bus dev func hbus hhas htaken ih =>
        intro d hd
        have hreal := (halike.buses bus hhas.populated).mp hbus
        have hbridge := (halike.mem_busRecords_iff hreal).mpr ⟨dev, func, rfl, hhas⟩
        refine (ih hhas.populated _ hbridge).step ?_
        exact (mem_recordsBehind_pciRecord hhas.dev_lt hhas.func_lt).mpr ⟨htaken, hd⟩
  obtain ⟨hbelow, hhas⟩ := h
  have hpop := hhas.populated
  exact hscanned ((halike.buses _ hpop).mpr hbelow) hpop _
    ((halike.mem_busRecords_iff hbelow).mpr ⟨_, _, rfl, hhas⟩)

/-- No two entries lead to a common one. -/
theorem PciHost.ReadsAlike.unique {a b c : PciDevice} (ha : host.Finds a) (hb : host.Finds b)
    (hca : c ∈ recordsBehind host a) (hcb : c ∈ recordsBehind host b) : a = b := by
  have hfa := (halike.below_of_finds ha).2
  have hfb := (halike.below_of_finds hb).2
  have hhasa : host.Has a.bus a.device a.func := hfa.2
  have hhasb : host.Has b.bus b.device b.func := hfb.2
  rw [ha.eq_pciRecord, mem_recordsBehind_pciRecord hhasa.dev_lt hhasa.func_lt] at hca
  rw [hb.eq_pciRecord, mem_recordsBehind_pciRecord hhasb.dev_lt hhasb.func_lt] at hcb
  obtain ⟨dev, _, hdev, -, hc, hfirst, -⟩ := mem_busRecords.mp hca.2
  obtain ⟨dev', _, -, -, hc', -⟩ := mem_busRecords.mp hcb.2
  have hbus := congrArg PciDevice.bus (hc.symm.trans hc')
  exact ha.eq_of_address hb (halike.once _ _ hfa hfb hca.1 hcb.1 hbus ⟨dev, hdev, hfirst⟩)

end ReadsAlike

/-! ## What a complete enumeration needs -/

theorem mem_busRecords_first (hdev : dev < 32) (hfirst : host.Answers bus dev 0) :
    pciRecord host bus dev 0 ∈ busRecords host bus :=
  mem_busRecords.mpr ⟨dev, 0, hdev, by decide, rfl, hfirst, hfirst, fun h => absurd rfl h⟩

theorem isFunction_first (hbelow : host.Below host.IsBridge bus) (hdev : dev < 32)
    (hfirst : host.Answers bus dev 0) : host.IsFunction (bus, dev, 0) :=
  ⟨hbelow, hdev, show (0 : UInt8) < 8 by decide, hfirst, hfirst, fun h => absurd rfl h⟩

section Found

variable (hfound : ∀ a, (∃ d, host.Finds d ∧ d.address = a) ↔ host.IsFunction a)

include hfound

theorem has_of_finds {d : PciDevice} (h : host.Finds d) : host.Has d.bus d.device d.func :=
  ((hfound _).mp ⟨d, h, rfl⟩).2

/-- When just the functions are found, the functions taken for bridges lead to all
buses that are scanned. -/
theorem below_taken_of_finds {d : PciDevice} (h : host.Finds d) :
    host.Below host.TakenForBridge d.bus := by
  have hbus {bus : UInt8} {d : PciDevice} (hbelow : host.Below host.TakenForBridge bus)
      (hd : d ∈ busRecords host bus) : host.Below host.TakenForBridge d.bus := by
    obtain ⟨dev, func, -, -, rfl, -⟩ := mem_busRecords.mp hd
    exact hbelow
  induction h with
  | root hd => exact hbus .root hd
  | @step a d ha hd ih =>
      have hhas := has_of_finds hfound ha
      rw [PciHost.Finds.eq_pciRecord ha,
        mem_recordsBehind_pciRecord hhas.dev_lt hhas.func_lt] at hd
      exact hbus (ih.behind hhas hd.1) hd.2

theorem finds_of_isFunction {a : UInt8 × UInt8 × UInt8} (h : host.IsFunction a) :
    host.Finds (pciRecord host a.1 a.2.1 a.2.2) := by
  obtain ⟨d, hd, rfl⟩ := (hfound a).mpr h
  exact hd.eq_pciRecord ▸ hd

theorem finds_of_below_taken (hbelow : host.Below host.TakenForBridge bus) :
    ∀ d ∈ busRecords host bus, host.Finds d := by
  induction hbelow with
  | root => exact fun d hd => .root hd
  | @behind bus dev func hbelow hhas htaken ih =>
      intro d hd
      have hfirst := ih _ (mem_busRecords_first hhas.dev_lt hhas.first)
      have hreal : host.Below host.IsBridge bus := ((hfound _).mp ⟨_, hfirst, rfl⟩).1
      have hbridge := finds_of_isFunction hfound (a := (bus, dev, func)) ⟨hreal, hhas⟩
      refine hbridge.step ?_
      exact (mem_recordsBehind_pciRecord hhas.dev_lt hhas.func_lt).mpr ⟨htaken, hd⟩

theorem multi_of_finds (hbelow : host.Below host.IsBridge bus) (hdev : dev < 32)
    (hfirst : host.Answers bus dev 0) (hne : func ≠ 0) (hfunc : func < 8)
    (hanswers : host.Answers bus dev func) :
    host.byte bus dev 0 0x0C &&& 0x80 ≠ 0 ↔ host.byte bus dev 0 0x0E &&& 0x80 ≠ 0 := by
  constructor
  · intro hmulti
    have hzero := finds_of_isFunction hfound (isFunction_first hbelow hdev hfirst)
    have hlisted : pciRecord host bus dev func ∈ busRecords host bus :=
      mem_busRecords.mpr ⟨dev, func, hdev, hfunc, rfl, hfirst, hanswers, fun _ => hmulti⟩
    exact (has_of_finds hfound (hzero.same_bus hlisted)).multi hne
  · intro hmulti
    have hhas : host.Has bus dev func := ⟨hdev, hfunc, hfirst, hanswers, fun _ => hmulti⟩
    have hfinds := finds_of_isFunction hfound (a := (bus, dev, func)) ⟨hbelow, hhas⟩
    obtain ⟨dev', func', -, -, heq, -, -, hlisted⟩ := mem_busRecords.mp hfinds.mem_busRecords
    obtain ⟨rfl, rfl⟩ : dev = dev' ∧ func = func' :=
      ⟨congrArg PciDevice.device heq, congrArg PciDevice.func heq⟩
    exact hlisted hne

/-- If just the functions are found, and no two of them lead to a common one, then
the headers read alike. -/
theorem readsAlike_of_finds
    (hunique : ∀ a b c, host.Finds a → host.Finds b → c ∈ recordsBehind host a →
      c ∈ recordsBehind host b → a = b) : host.ReadsAlike where
  multi bus dev func hbelow hdev hfirst hne hfunc hanswers :=
    multi_of_finds hfound hbelow hdev hfirst hne hfunc hanswers
  buses bus hpop := by
    obtain ⟨dev, hdev, hfirst⟩ := hpop
    constructor
    · intro hbelow
      have hzero := finds_of_below_taken hfound hbelow _ (mem_busRecords_first hdev hfirst)
      exact ((hfound _).mp ⟨_, hzero, rfl⟩).1
    · intro hbelow
      exact below_taken_of_finds hfound
        (finds_of_isFunction hfound (isFunction_first hbelow hdev hfirst))
  once a b ha hb hta htb heq hpop := by
    obtain ⟨dev, hdev, hfirst⟩ := hpop
    have hlisted := mem_busRecords_first hdev hfirst
    have hrecord := hunique _ _ _ (finds_of_isFunction hfound ha) (finds_of_isFunction hfound hb)
      ((mem_recordsBehind_pciRecord ha.2.dev_lt ha.2.func_lt).mpr ⟨hta, hlisted⟩)
      ((mem_recordsBehind_pciRecord hb.2.dev_lt hb.2.func_lt).mpr ⟨htb, heq ▸ hlisted⟩)
    exact congrArg PciDevice.address hrecord

end Found

/-! ## The table after a scan -/

theorem finite_bytes : Finite UInt8 :=
  Finite.of_injective UInt8.toFin fun _ _ h => UInt8.toFin_inj.mp h

theorem ncard_mem_of_nodup {α : Type} [DecidableEq α] {l : List α} (h : l.Nodup) :
    {a | a ∈ l}.ncard = l.length := by
  rw [← List.coe_toFinset, Set.ncard_coe_finset, List.toFinset_card_of_nodup h]

section Table

variable {fuel : Nat} {table : PciTable}

theorem growList_of_pciScanAll (hrun : pciScanAll host fuel = some table) :
    growList (recordsBehind host) pciMaxDevicesFound fuel 0
      ((busRecords host 0).take pciMaxDevicesFound) = some table.devices := by
  rw [← pciScanAll_eq, hrun, Option.map_some]

theorem pciScanAll_returns (host : PciHost) :
    ∃ table, pciScanAll host (pciMaxDevicesFound + 1) = some table := by
  have hstart : Visited (busRecords host 0) (recordsBehind host) pciMaxDevicesFound 0
      ((busRecords host 0).take pciMaxDevicesFound) := Visited.start
  obtain ⟨result, hresult⟩ := growList_returns hstart (Nat.lt_succ_self pciMaxDevicesFound)
  rw [← pciScanAll_eq, Option.map_eq_some_iff] at hresult
  obtain ⟨table, htable, -⟩ := hresult
  exact ⟨table, htable⟩

/-- The addresses in the table are different, if the records are. -/
theorem nodup_addresses (hrun : pciScanAll host fuel = some table) (h : table.devices.Nodup) :
    (table.devices.map PciDevice.address).Nodup := by
  have hleads := growList_leads (growList_of_pciScanAll hrun)
  refine h.map_on fun d hd d' hd' heq => ?_
  exact PciHost.Finds.eq_of_address (hleads d hd) (hleads d' hd') heq

theorem PciHost.ReadsAlike.nodup (halike : host.ReadsAlike)
    (hrun : pciScanAll host fuel = some table) : table.devices.Nodup := by
  refine growList_nodup (growList_of_pciScanAll hrun) busRecords_nodup recordsBehind_nodup ?_ ?_
  · -- what lies behind a bridge is not on bus 0
    intro a _ c hc hroot
    obtain ⟨-, -, hsec, hc⟩ := mem_recordsBehind.mp hc
    obtain ⟨dev, func, -, -, rfl, -⟩ := mem_busRecords.mp hc
    obtain ⟨_, _, -, -, heq, -⟩ := mem_busRecords.mp hroot
    exact hsec (congrArg PciDevice.bus heq)
  · exact fun a b ha hb c hca hcb => halike.unique ha hb hca hcb

theorem PciHost.ReadsAlike.enumerates (halike : host.ReadsAlike)
    (hcount : {a | host.IsFunction a}.ncard ≤ pciMaxDevicesFound)
    (hrun : pciScanAll host fuel = some table) : host.Enumerates table := by
  have hgrow := growList_of_pciScanAll hrun
  have hnodup := nodup_addresses hrun (halike.nodup hrun)
  have hsound : {a | a ∈ table.devices.map PciDevice.address} ⊆ {a | host.IsFunction a} := by
    intro a ha
    obtain ⟨d, hd, rfl⟩ := List.mem_map.mp ha
    exact (halike.below_of_finds (growList_leads hgrow d hd)).2
  refine ⟨hnodup, fun a => ⟨fun ha => hsound ha, fun ha => ?_⟩⟩
  by_cases hroom : table.devices.length < pciMaxDevicesFound
  · exact List.mem_map.mpr ⟨_, mem_growList_of_leads hgrow hroom (halike.finds ha), rfl⟩
  · -- a full table has no room for anything else
    have hcard := ncard_mem_of_nodup hnodup
    rw [List.length_map] at hcard
    have := finite_bytes
    have heq := Set.eq_of_subset_of_ncard_le hsound (by omega)
    exact heq.symm.subset ha

theorem PciHost.Enumerates.readsAlike (h : host.Enumerates table)
    (hcount : {a | host.IsFunction a}.ncard < pciMaxDevicesFound)
    (hrun : pciScanAll host fuel = some table) : host.ReadsAlike := by
  have hgrow := growList_of_pciScanAll hrun
  have hroom : table.devices.length < pciMaxDevicesFound := by
    have hcard := ncard_mem_of_nodup h.1
    have hset : {a | a ∈ table.devices.map PciDevice.address} = {a | host.IsFunction a} :=
      Set.ext h.2
    rw [hset, List.length_map] at hcard
    omega
  have hmem {d : PciDevice} : host.Finds d ↔ d ∈ table.devices :=
    ⟨mem_growList_of_leads hgrow hroom, growList_leads hgrow d⟩
  refine readsAlike_of_finds (fun a => ?_) fun a b c ha hb hca hcb => ?_
  · rw [← h.2, List.mem_map]
    exact exists_congr fun d => and_congr_left fun _ => hmem
  · exact growList_unique hgrow hroom h.1.of_map (hmem.mp ha) (hmem.mp hb) hca hcb

end Table

/-- With room for all functions, the scan returns, whether or not the bridges make a
tree. It finds every function once if the headers read the same at the offsets that
it looks at. With room to spare it does so only then; a table that the functions
fill drops what a misread header adds. -/
theorem pciScanAll_enumerates_iff (host : PciHost)
    (hcount : {a | host.IsFunction a}.ncard ≤ pciMaxDevicesFound) :
    ∃ table, pciScanAll host (pciMaxDevicesFound + 1) = some table ∧
      (host.ReadsAlike → host.Enumerates table) ∧
      ({a | host.IsFunction a}.ncard < pciMaxDevicesFound →
        host.Enumerates table → host.ReadsAlike) := by
  obtain ⟨table, hrun⟩ := pciScanAll_returns host
  exact ⟨table, hrun, fun halike => halike.enumerates hcount hrun,
    fun hroom henum => henum.readsAlike hroom hrun⟩

/-- A PCI-PCI bridge to bus 1, with the usual programming interface 00. -/
def bridgeHeader : Memory := fun i =>
  ([0x86, 0x80, 0x48, 0x24, 0, 0, 0, 0, 0x00, 0x00, 0x04, 0x06, 0, 0, 0x01, 0,
    0, 0, 0, 0, 0, 0, 0, 0, 0x00, 0x01, 0x01] : List UInt8).getD i 0

/-- The bridge on bus 0, and a network card behind it. -/
def bridgedHost : PciHost := fun bus dev func =>
  if (bus, dev, func) = (0, 0, 0) then some bridgeHeader
  else if (bus, dev, func) = (1, 0, 0) then some networkCard
  else none

theorem bridgedHost_answers (h : bridgedHost.Answers bus dev func) :
    (bus, dev, func) = (0, 0, 0) ∨ (bus, dev, func) = (1, 0, 0) := by
  obtain ⟨i, -, hi⟩ := h
  by_contra hne
  obtain ⟨hzero, hone⟩ := not_or.mp hne
  rw [PciHost.byte, PciHost.space, bridgedHost, if_neg hzero, if_neg hone] at hi
  exact hi rfl

theorem bridgedHost_ncard_le : {a | bridgedHost.IsFunction a}.ncard ≤ 2 := by
  refine (Set.ncard_le_ncard (t := {(0, 0, 0), (1, 0, 0)}) ?_ (Set.toFinite _)).trans
    (Set.ncard_pair (by decide)).le
  exact fun a ha => bridgedHost_answers ha.2.answers

theorem pciScanAll_enumerates_iff_bridgedHost :
    ∃ table, pciScanAll bridgedHost (pciMaxDevicesFound + 1) = some table ∧
      (bridgedHost.ReadsAlike → bridgedHost.Enumerates table) ∧
      ({a | bridgedHost.IsFunction a}.ncard < pciMaxDevicesFound →
        bridgedHost.Enumerates table → bridgedHost.ReadsAlike) :=
  pciScanAll_enumerates_iff bridgedHost (bridgedHost_ncard_le.trans (by decide))

theorem bridgedHost_tree : bridgedHost.Tree := by
  have hone {a : UInt8 × UInt8 × UInt8} (ha : bridgedHost.IsFunction a)
      (hbridge : bridgedHost.IsBridge a.1 a.2.1 a.2.2) : a = (0, 0, 0) := by
    rcases bridgedHost_answers ha.2.answers with h | h
    · exact h
    · obtain rfl : a = (1, 0, 0) := h
      exact absurd hbridge.1 (by decide)
  constructor
  · intro a ha hbridge
    rw [hone ha hbridge]
    decide
  · intro a b ha hb hbridge hbridge' _
    rw [hone ha hbridge, hone hb hbridge']

/-- The card behind the bridge is not found: the bridge is recorded as a device of
class 04 and subclass 00. -/
theorem pciScanAll_misses_bridge :
    bridgedHost.Tree ∧ {a | bridgedHost.IsFunction a}.ncard ≤ pciMaxDevicesFound ∧
      bridgedHost.IsFunction (1, 0, 0) ∧
      ∃ table, pciScanAll bridgedHost (pciMaxDevicesFound + 1) = some table ∧
        table.devices.map PciDevice.address = [(0, 0, 0)] ∧ ¬ bridgedHost.Enumerates table := by
  have hroot : bridgedHost.Has 0 0 0 := by
    have hbridge : bridgedHost.Answers 0 0 0 := ⟨0, by decide, by decide⟩
    exact ⟨by decide, by decide, hbridge, hbridge, fun h => absurd rfl h⟩
  have hcard : bridgedHost.IsFunction (1, 0, 0) := by
    have hcard : bridgedHost.Answers 1 0 0 := ⟨0, by decide, by decide⟩
    exact ⟨.behind .root hroot ⟨by decide, by decide⟩, by decide, by decide,
      hcard, hcard, fun h => absurd rfl h⟩
  have hrun : (pciScanAll bridgedHost (pciMaxDevicesFound + 1)).map
      (fun table => table.devices.map PciDevice.address) = some [(0, 0, 0)] := by
    decide
  obtain ⟨table, htable, hdevices⟩ := Option.map_eq_some_iff.mp hrun
  refine ⟨bridgedHost_tree, bridgedHost_ncard_le.trans (by decide), hcard, table, htable,
    hdevices, fun h => ?_⟩
  exact absurd ((h.2 _).mpr hcard) (by rw [hdevices]; decide)

end Dosfs
