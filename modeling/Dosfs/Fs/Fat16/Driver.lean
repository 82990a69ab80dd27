import Dosfs.Foundation.ByteMemory
import Dosfs.Fs.Fat16.Name

/-!
# The FAT16 driver

A translation of `fs/fat16.c`. The drive is a byte-addressed store with 512
bytes to a sector, and the static `fs` of the source is explicit state. The two
loops that follow the FAT wherever it leads take a fuel argument and answer
`none` when it runs out; every other loop has a bound of its own.
-/

namespace Dosfs.Fat16

open Foundation

/-! ## The drive -/

/-- A call of the ATA driver. -/
inductive AtaRequest
  | read (lba count : Nat)
  | write (lba count : Nat)
  deriving DecidableEq

/-- What the surroundings of the driver decide: which of the successive calls
of the ATA driver fail, and whether `kmalloc` fails before a given call. -/
structure Env where
  fault : Nat → AtaRequest → Bool
  kmallocFails : Nat → Bool

/-- A drive without I/O errors, with memory to spare. -/
def Env.faultless : Env := ⟨fun _ _ => false, fun _ => false⟩

/-- The contents of the drive and the number of calls it has served. -/
structure Ata where
  bytes : Memory
  clock : Nat

def ataReadSectors (env : Env) (lba count : Nat) (ata : Ata) : Option Memory × Ata :=
  (if env.fault ata.clock (.read lba count) then none else some (ata.bytes.window (512 * lba)),
    { ata with clock := ata.clock + 1 })

/-- A failing write leaves the sectors unchanged. -/
def ataWriteSectors (env : Env) (lba count : Nat) (buf : Memory) (ata : Ata) : Bool × Ata :=
  if env.fault ata.clock (.write lba count) then (false, { ata with clock := ata.clock + 1 })
  else (true, ⟨ata.bytes.overwrite (512 * lba) (512 * count) buf, ata.clock + 1⟩)

/-! ## Data model -/

def fat16MaxFiles : Nat := 64

/-- The fields of the boot sector that the driver reads. -/
structure Fat16Bpb where
  bytesPerSector : Nat
  sectorsPerCluster : Nat
  reservedSectors : Nat
  numFats : Nat
  rootEntries : Nat
  totalSectors16 : Nat
  fatSize16 : Nat
  totalSectors32 : Nat
  deriving DecidableEq

/-- `fat16_bpb_t` laid over the boot sector. -/
def Fat16Bpb.decode (sector : Memory) : Fat16Bpb where
  bytesPerSector := sector.loadLe 11 2
  sectorsPerCluster := sector.loadLe 13 1
  reservedSectors := sector.loadLe 14 2
  numFats := sector.loadLe 16 1
  rootEntries := sector.loadLe 17 2
  totalSectors16 := sector.loadLe 19 2
  fatSize16 := sector.loadLe 22 2
  totalSectors32 := sector.loadLe 32 4

structure Fat16File where
  name : CString
  size : Nat
  firstCluster : Nat
  attr : UInt8
  used : Bool
  deriving DecidableEq

/-- `fat16_fs_t`; `files` holds the slots below `file_count`. -/
structure Fat16Fs where
  bpb : Fat16Bpb
  fatStart : Nat
  rootStart : Nat
  dataStart : Nat
  totalClusters : Nat
  mounted : Bool
  files : List Fat16File
  deriving DecidableEq

structure Fat16State where
  fs : Fat16Fs
  ata : Ata

def Fat16Fs.zero : Fat16Fs := ⟨⟨0, 0, 0, 0, 0, 0, 0, 0⟩, 0, 0, 0, 0, false, []⟩

def Fat16Fs.rootSectors (fs : Fat16Fs) : Nat := (fs.bpb.rootEntries * 32 + 511) / 512

def Fat16Fs.clusterSize (fs : Fat16Fs) : Nat := fs.bpb.sectorsPerCluster * 512

/-! ## Directory entries

The fields of the `i`-th `fat16_dir_entry_t` in a buffer. -/

def entryName (buf : Memory) (i : Nat) : List UInt8 := buf.loadList (32 * i) 11

def entryHead (buf : Memory) (i : Nat) : UInt8 := buf (32 * i)

def entryAttr (buf : Memory) (i : Nat) : UInt8 := buf (32 * i + 11)

def entryFirstCluster (buf : Memory) (i : Nat) : Nat := buf.loadLe (32 * i + 26) 2

def entryFileSize (buf : Memory) (i : Nat) : Nat := buf.loadLe (32 * i + 28) 4

/-- The assignments `fat16_write_file` makes to a directory entry. -/
def putEntry (buf : Memory) (i : Nat) (name : List UInt8) (size firstCluster : Nat) : Memory :=
  let buf := buf.storeList (32 * i) name
  let buf := buf.storeByte (32 * i + 11) 0x20
  let buf := buf.storeLe (32 * i + 28) 4 size
  let buf := buf.storeLe (32 * i + 26) 2 firstCluster
  buf.storeLe (32 * i + 20) 2 (firstCluster / 65536)

/-- An entry was found in sector `sectorIdx` of the root directory, whose
contents were read into `sector`, at position `i`. -/
structure RootHit where
  sectorIdx : Nat
  i : Nat
  sector : Memory

/-- The loops over the root directory that stop at the first entry passing a
test; unreadable sectors are skipped. -/
def rootScan (env : Env) (fs : Fat16Fs) (test : Memory → Nat → Bool) :
    Nat → Nat → Ata → Option RootHit × Ata
  | 0, _, ata => (none, ata)
  | todo + 1, s, ata =>
      match ataReadSectors env (fs.rootStart + s) 1 ata with
      | (none, ata) => rootScan env fs test todo (s + 1) ata
      | (some sector, ata) =>
          match (List.range 16).find? (test sector) with
          | some i => (some ⟨s, i, sector⟩, ata)
          | none => rootScan env fs test todo (s + 1) ata

/-! ## Mounting -/

/-- The inner loop of `fat16_scan_root`; the flag tells the outer loop to stop,
at the end marker or with the table full. -/
def fat16ScanSector (sector : Memory) : List Nat → List Fat16File → List Fat16File × Bool
  | [], files => (files, false)
  | i :: rest, files =>
      if entryHead sector i = 0x00 then (files, true)
      else if entryHead sector i = 0xE5 then fat16ScanSector sector rest files
      else if entryAttr sector i = 0x0F then fat16ScanSector sector rest files
      else if entryAttr sector i &&& 0x08 ≠ 0 then fat16ScanSector sector rest files
      else if fat16MaxFiles ≤ files.length then (files, true)
      else fat16ScanSector sector rest (files ++ [{
        name := fat16UnparseName (entryName sector i)
        size := entryFileSize sector i
        firstCluster := entryFirstCluster sector i
        attr := entryAttr sector i
        used := true }])

def fat16ScanRoot (env : Env) (fs : Fat16Fs) :
    Nat → Nat → List Fat16File → Ata → List Fat16File × Ata
  | 0, _, files, ata => (files, ata)
  | todo + 1, s, files, ata =>
      match ataReadSectors env (fs.rootStart + s) 1 ata with
      | (none, ata) => fat16ScanRoot env fs todo (s + 1) files ata
      | (some sector, ata) =>
          match fat16ScanSector sector (List.range 16) files with
          | (files, true) => (files, ata)
          | (files, false) => fat16ScanRoot env fs todo (s + 1) files ata

/-- Entry `i` of FAT sector `sectorIdx`, just read, names a free data cluster. -/
def clusterIsFree (fs : Fat16Fs) (sectorIdx : Nat) (sector : Memory) (i : Nat) : Bool :=
  let cluster := sectorIdx * 256 + i
  !(cluster < 2 || (2 + fs.totalClusters) % 2 ^ 32 ≤ cluster) && sector.loadLe (2 * i) 2 == 0

/-- The free-cluster count of `fat16_mount`. -/
def countFreeClusters (env : Env) (fs : Fat16Fs) : Nat → Nat → Nat → Ata → Nat × Ata
  | 0, _, free, ata => (free, ata)
  | todo + 1, si, free, ata =>
      match ataReadSectors env (fs.fatStart + si) 1 ata with
      | (none, ata) => countFreeClusters env fs todo (si + 1) free ata
      | (some sector, ata) =>
          countFreeClusters env fs todo (si + 1)
            (free + (List.range 256).countP (clusterIsFree fs si sector)) ata

/-- What `fat16_mount` prints. -/
inductive MountMessage
  | cannotReadBootSector
  | unsupportedSectorSize
  | notFat16
  | invalidSectorsPerCluster
  | ok (files freeKb : Nat)
  deriving DecidableEq

/-- The geometry that `fat16_mount` derives from the boot sector. -/
def Fat16Bpb.geometry (bpb : Fat16Bpb) : Fat16Fs :=
  let fatStart := bpb.reservedSectors
  let rootStart := fatStart + bpb.numFats * bpb.fatSize16
  let dataStart := rootStart + (bpb.rootEntries * 32 + 511) / 512
  let totalSectors := if bpb.totalSectors32 = 0 then bpb.totalSectors16 else bpb.totalSectors32
  { bpb, fatStart, rootStart, dataStart
    totalClusters :=
      if dataStart < totalSectors then (totalSectors - dataStart) / bpb.sectorsPerCluster else 0
    mounted := true
    files := [] }

def fat16Mount (env : Env) (s : Fat16State) : (Int × MountMessage) × Fat16State :=
  match ataReadSectors env 0 1 s.ata with
  | (none, ata) => ((-1, .cannotReadBootSector), ⟨.zero, ata⟩)
  | (some sector, ata) =>
      let bpb := Fat16Bpb.decode sector
      let rejected := ⟨{ Fat16Fs.zero with bpb }, ata⟩
      if bpb.bytesPerSector ≠ 512 then ((-1, .unsupportedSectorSize), rejected)
      else if bpb.fatSize16 = 0 then ((-1, .notFat16), rejected)
      else if bpb.sectorsPerCluster = 0 then ((-1, .invalidSectorsPerCluster), rejected)
      else
        let fs := bpb.geometry
        let (files, ata) := fat16ScanRoot env fs fs.rootSectors 0 [] ata
        let fs := { fs with files }
        let (free, ata) := countFreeClusters env fs bpb.fatSize16 0 0 ata
        ((0, .ok files.length (free * bpb.sectorsPerCluster * 512 % 2 ^ 32 / 1024)), ⟨fs, ata⟩)

/-! ## The FAT and the data clusters -/

/-- The sector that holds the FAT entry of a cluster. -/
def Fat16Fs.fatSector (fs : Fat16Fs) (cluster : Nat) : Nat := fs.fatStart + cluster * 2 / 512

def entOffset (cluster : Nat) : Nat := cluster * 2 % 512

def fat16GetNextCluster (env : Env) (fs : Fat16Fs) (cluster : Nat) (ata : Ata) : Nat × Ata :=
  match ataReadSectors env (fs.fatSector cluster) 1 ata with
  | (none, ata) => (0xFFF8, ata)
  | (some sector, ata) => (sector.loadLe (entOffset cluster) 2, ata)

/-- Read, change and write back one FAT entry, as the linking step of
`fat16_write_file` and `fat16_free_cluster_chain` do; errors are ignored. -/
def setNextCluster (env : Env) (fs : Fat16Fs) (cluster value : Nat) (ata : Ata) : Ata :=
  match ataReadSectors env (fs.fatSector cluster) 1 ata with
  | (none, ata) => ata
  | (some sector, ata) =>
      (ataWriteSectors env (fs.fatSector cluster) 1
        (sector.storeLe (entOffset cluster) 2 value) ata).2

def Fat16Fs.clusterSector (fs : Fat16Fs) (cluster : Nat) : Nat :=
  fs.dataStart + (cluster - 2) * fs.bpb.sectorsPerCluster

def fat16ReadCluster (env : Env) (fs : Fat16Fs) (cluster : Nat) (ata : Ata) :
    Option Memory × Ata :=
  ataReadSectors env (fs.clusterSector cluster) fs.bpb.sectorsPerCluster ata

def allocateLoop (env : Env) (fs : Fat16Fs) : Nat → Nat → Ata → Nat × Ata
  | 0, _, ata => (0, ata)
  | todo + 1, sectorIdx, ata =>
      match ataReadSectors env (fs.fatStart + sectorIdx) 1 ata with
      | (none, ata) => allocateLoop env fs todo (sectorIdx + 1) ata
      | (some sector, ata) =>
          match (List.range 256).find? (clusterIsFree fs sectorIdx sector) with
          | none => allocateLoop env fs todo (sectorIdx + 1) ata
          | some i =>
              match ataWriteSectors env (fs.fatStart + sectorIdx) 1
                  (sector.storeLe (2 * i) 2 0xFFFF) ata with
              | (false, ata) => (0, ata)
              | (true, ata) => (sectorIdx * 256 + i, ata)

def fat16AllocateCluster (env : Env) (fs : Fat16Fs) (ata : Ata) : Nat × Ata :=
  allocateLoop env fs fs.bpb.fatSize16 0 ata

def writeClusterLoop (env : Env) (lba : Nat) (data : List UInt8) (toWrite : Nat) :
    Nat → Nat → Nat → Ata → Bool × Ata
  | 0, _, _, ata => (true, ata)
  | todo + 1, s, offset, ata =>
      if offset < toWrite then
        let chunk := if toWrite - offset < 512 then toWrite - offset else 512
        -- the tail of the sector buffer is zeroed
        let buf := Memory.storeList (fun _ => 0) 0 ((data.drop offset).take chunk)
        match ataWriteSectors env (lba + s) 1 buf ata with
        | (false, ata) => (false, ata)
        | (true, ata) => writeClusterLoop env lba data toWrite todo (s + 1) (offset + chunk) ata
      else (true, ata)

/-- The number of bytes written, or -1. -/
def fat16WriteCluster (env : Env) (fs : Fat16Fs) (cluster : Nat) (data : List UInt8)
    (size : Nat) (ata : Ata) : Int × Ata :=
  let toWrite := if size < fs.clusterSize then size else fs.clusterSize
  match writeClusterLoop env (fs.clusterSector cluster) data toWrite
      fs.bpb.sectorsPerCluster 0 0 ata with
  | (false, ata) => (-1, ata)
  | (true, ata) => (toWrite, ata)

def fat16FreeClusterChain (env : Env) (fs : Fat16Fs) : Nat → Nat → Ata → Option Ata
  | 0, _, _ => none
  | fuel + 1, cluster, ata =>
      if 2 ≤ cluster ∧ cluster < 0xFF8 then
        let (next, ata) := fat16GetNextCluster env fs cluster ata
        fat16FreeClusterChain env fs fuel next (setNextCluster env fs cluster 0x0000 ata)
      else some ata

/-! ## Files -/

/-- The value of a 32-bit unsigned number converted to `int`. -/
def toInt (n : Nat) : Int := Int.bmod n (2 ^ 32)

/-- The lookup of a used slot by name that several functions share. -/
def Fat16File.isNamed (name : CString) (file : Fat16File) : Bool :=
  file.used && strcasecmp file.name name == 0

def fat16FileExists (fs : Fat16Fs) (name : CString) : Bool :=
  fs.files.any (Fat16File.isNamed name)

def readFileLoop (env : Env) (fs : Fat16Fs) (size maxSize : Nat) :
    Nat → Nat → List UInt8 → Ata → Option (List UInt8 × Ata)
  | 0, _, _, _ => none
  | fuel + 1, cluster, read, ata =>
      if 2 ≤ cluster ∧ cluster < 0xFF8 ∧ read.length < maxSize then
        if env.kmallocFails ata.clock then some (read, ata)
        else
          match fat16ReadCluster env fs cluster ata with
          | (none, ata) => some (read, ata)
          | (some clusterBuf, ata) =>
              let toCopy := size - read.length
              let toCopy := if fs.clusterSize < toCopy then fs.clusterSize else toCopy
              let toCopy :=
                if maxSize < read.length + toCopy then maxSize - read.length else toCopy
              let (next, ata) := fat16GetNextCluster env fs cluster ata
              readFileLoop env fs size maxSize fuel next (read ++ clusterBuf.loadList 0 toCopy) ata
      else some (read, ata)

/-- The returned value, the bytes copied to the buffer, and the drive. -/
def fat16ReadFile (env : Env) (fuel : Nat) (name : CString) (maxSize : Nat) (s : Fat16State) :
    Option (Int × List UInt8 × Ata) :=
  if !s.fs.mounted then some (-1, [], s.ata)
  else
    match s.fs.files.find? (Fat16File.isNamed name) with
    | none => some (-1, [], s.ata)
    | some file => do
        let (read, ata) ←
          readFileLoop env s.fs file.size maxSize fuel file.firstCluster [] s.ata
        return (toInt read.length, read, ata)

/-- Clear the `used` flag of the first slot with the given name. -/
def dropFile (name : CString) : List Fat16File → List Fat16File
  | [] => []
  | file :: rest =>
      if file.isNamed name then { file with used := false } :: rest
      else file :: dropFile name rest

/-- The test `fat16_delete_file` applies: the entry has the encoded name. -/
def hasName (name : CString) (buf : Memory) (i : Nat) : Bool :=
  memcmp (entryName buf i) (fat16ParseName name) == 0

/-- The guarded call of `fat16_free_cluster_chain` in `fat16_delete_file`. -/
def freeEntryChain (env : Env) (fs : Fat16Fs) (fuel first : Nat) (ata : Ata) : Option Ata :=
  if 2 ≤ first then fat16FreeClusterChain env fs fuel first ata else some ata

def fat16DeleteFile (env : Env) (fuel : Nat) (name : CString) (s : Fat16State) :
    Option (Int × Fat16State) :=
  if !s.fs.mounted then some (-1, s)
  else
    match rootScan env s.fs (hasName name) s.fs.rootSectors 0 s.ata with
    | (none, ata) => some (-1, { s with ata })
    | (some hit, ata) => do
        let ata ← freeEntryChain env s.fs fuel (entryFirstCluster hit.sector hit.i) ata
        match ataWriteSectors env (s.fs.rootStart + hit.sectorIdx) 1
            (hit.sector.storeByte (32 * hit.i) 0xE5) ata with
        | (false, ata) => return (-1, { s with ata })
        | (true, ata) =>
            return (0, ⟨{ s.fs with files := dropFile name s.fs.files }, ata⟩)

/-- The loop of `fat16_write_file` that allocates, links and fills clusters; the
flag is `write_failed`. `fat16_write_cluster` returns a byte count, which the
source compares with zero. -/
def writeFileLoop (env : Env) (fs : Fat16Fs) (data : List UInt8) (firstCluster : Nat) :
    Nat → Nat → Nat → Nat → Nat → Ata → Bool × Ata
  | 0, _, _, _, _, ata => (false, ata)
  | todo + 1, c, prevCluster, remaining, offset, ata =>
      let (curCluster, ata) :=
        if c = 0 then (firstCluster, ata) else fat16AllocateCluster env fs ata
      if curCluster < 2 then (true, ata)
      else
        let ata :=
          if 0 < c ∧ 2 ≤ prevCluster then setNextCluster env fs prevCluster curCluster ata
          else ata
        let toWrite := if remaining < fs.clusterSize then remaining else fs.clusterSize
        let (ret, ata) := fat16WriteCluster env fs curCluster (data.drop offset) toWrite ata
        if ret ≠ 0 then (true, ata)
        else writeFileLoop env fs data firstCluster todo (c + 1) curCluster
          (remaining - toWrite) (offset + toWrite) ata

/-- The slot `fat16_write_file` appends to the table while there is room. -/
def addFile (name : CString) (size firstCluster : Nat) (files : List Fat16File) :
    List Fat16File :=
  if files.length < fat16MaxFiles then
    files ++ [{
      name := CString.ofBuffer (name.bytes.take 12)
      size := size
      firstCluster := firstCluster % 65536
      attr := 0x20
      used := true }]
  else files

/-- The test `fat16_write_file` applies: the slot is unused or deleted. -/
def isVacant (buf : Memory) (i : Nat) : Bool :=
  entryHead buf i == 0x00 || entryHead buf i == 0xE5

/-- The part of `fat16_write_file` that enters the file in the root directory
and in the table. -/
def createEntry (env : Env) (name : CString) (size firstCluster : Nat) (s : Fat16State) :
    Int × Fat16State :=
  match rootScan env s.fs isVacant s.fs.rootSectors 0 s.ata with
  | (none, ata) => (-1, { s with ata })
  | (some hit, ata) =>
      match ataWriteSectors env (s.fs.rootStart + hit.sectorIdx) 1
          (putEntry hit.sector hit.i (fat16ParseName name) size firstCluster) ata with
      | (false, ata) => (-1, { s with ata })
      | (true, ata) =>
          (toInt size, ⟨{ s.fs with files := addFile name size firstCluster s.fs.files }, ata⟩)

def neededClusters (fs : Fat16Fs) (size : Nat) : Nat :=
  let needed := (size + fs.clusterSize - 1) % 2 ^ 32 / fs.clusterSize
  if needed = 0 then 1 else needed

def fat16WriteFile (env : Env) (fuel : Nat) (name : CString) (data : List UInt8)
    (s : Fat16State) : Option (Int × Fat16State) :=
  if !s.fs.mounted then some (-1, s)
  else do
    let (_, s) ← fat16DeleteFile env fuel name s
    let size := data.length
    let (cluster, ata) := fat16AllocateCluster env s.fs s.ata
    if cluster < 2 ∧ 0 < size then return (-1, { s with ata })
    else
      let firstCluster := if cluster < 2 then 0 else cluster
      let (writeFailed, ata) := writeFileLoop env s.fs data firstCluster
        (neededClusters s.fs size) 0 firstCluster size 0 ata
      if writeFailed ∧ 2 ≤ firstCluster then
        let ata ← fat16FreeClusterChain env s.fs fuel firstCluster ata
        return (-1, { s with ata })
      else return createEntry env name size firstCluster { s with ata }

def fat16CreateFile (env : Env) (fuel : Nat) (name : CString) (s : Fat16State) :
    Option (Int × Fat16State) :=
  fat16WriteFile env fuel name [] s

end Dosfs.Fat16
