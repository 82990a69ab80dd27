import Dosfs.Foundation.Chain
import Dosfs.Fs.Fat16.Driver

/-!
# Volumes

What the bytes of the drive mean for a given geometry: the entries of the FAT,
the slots of the root directory and the cluster chains they own. Sectors hold
sixteen directory entries of 32 bytes and 256 FAT entries of two bytes, so a
slot is named by its number counted from the start of the drive, and neither
view has to mention sectors.
-/

namespace Dosfs.Fat16

open Foundation

variable {fs : Fat16Fs} {bytes bytes' : Memory}

/-- The FAT entry of a cluster. -/
def fatEntry (fs : Fat16Fs) (bytes : Memory) (cluster : Nat) : Nat :=
  bytes.loadLe (512 * fs.fatStart + 2 * cluster) 2

/-- Change the FAT entry of a cluster. -/
def setFat (fs : Fat16Fs) (bytes : Memory) (cluster value : Nat) : Memory :=
  bytes.storeLe (512 * fs.fatStart + 2 * cluster) 2 value

/-- The root-directory slots: all slots of the root-directory sectors. -/
def Fat16Fs.InRoot (fs : Fat16Fs) (slot : Nat) : Prop :=
  16 * fs.rootStart ≤ slot ∧ slot < 16 * (fs.rootStart + fs.rootSectors)

instance (slot : Nat) : Decidable (fs.InRoot slot) := inferInstanceAs (Decidable (_ ∧ _))

/-- The slot holds an entry: it is neither unused nor deleted. -/
def IsLive (buf : Memory) (slot : Nat) : Prop :=
  entryHead buf slot ≠ 0x00 ∧ entryHead buf slot ≠ 0xE5

instance (slot : Nat) : Decidable (IsLive bytes slot) := inferInstanceAs (Decidable (_ ∧ _))

/-- A live entry that is neither a long-name fragment nor a volume label. -/
def IsPlain (buf : Memory) (slot : Nat) : Prop :=
  IsLive buf slot ∧ entryAttr buf slot ≠ 0x0F ∧ entryAttr buf slot &&& 0x08 = 0

instance (slot : Nat) : Decidable (IsPlain bytes slot) := inferInstanceAs (Decidable (_ ∧ _))

def Fat16Fs.IsLiveIn (fs : Fat16Fs) (bytes : Memory) (slot : Nat) : Prop :=
  fs.InRoot slot ∧ IsLive bytes slot

/-- Values of the FAT: data clusters, end-of-file marks, and the first clusters
of entries without data. -/
def Fat16Fs.clusterKind (fs : Fat16Fs) : CellKind Nat where
  inside c := 2 ≤ c ∧ c < 2 + fs.totalClusters ∧ c < 0xFFF8
  ended c := 0xFFF8 ≤ c
  vacant c := c < 2
  not_inside_of_ended _ hend hin := by omega

/-- The geometry of a mounted volume that has a FAT and a FAT large enough. -/
structure Layout (fs : Fat16Fs) : Prop where
  mounted : fs.mounted = true
  numFats : 1 ≤ fs.bpb.numFats
  sectorsPerCluster : 1 ≤ fs.bpb.sectorsPerCluster
  totalClusters : fs.totalClusters ≤ 65524
  fatRoom : 2 + fs.totalClusters ≤ 256 * fs.bpb.fatSize16
  rootStart : fs.rootStart = fs.fatStart + fs.bpb.numFats * fs.bpb.fatSize16
  dataStart : fs.dataStart = fs.rootStart + fs.rootSectors

/-- The cluster chains of the live entries are disjoint lists inside the data
area, each ended by an end-of-file mark. -/
def Chained (fs : Fat16Fs) (bytes : Memory) (chains : Nat → List Nat) : Prop :=
  Forest fs.clusterKind (fatEntry fs bytes) (fs.IsLiveIn bytes) (entryFirstCluster bytes) chains

/-- Live entries with one name are the same entry, except for long-name
fragments, whose bytes contain a NUL. -/
def NamesUnique (fs : Fat16Fs) (bytes : Memory) : Prop :=
  ∀ slot slot', fs.IsLiveIn bytes slot → fs.IsLiveIn bytes slot' →
    entryName bytes slot = entryName bytes slot' → 0 ∉ entryName bytes slot → slot = slot'

/-- No entry starts after the end marker. -/
def EndMarked (fs : Fat16Fs) (bytes : Memory) : Prop :=
  ∀ slot slot', fs.InRoot slot → fs.InRoot slot' → slot ≤ slot' →
    entryHead bytes slot = 0x00 → entryHead bytes slot' = 0x00

/-- A well-formed FAT16 volume. -/
structure WellFormed (fs : Fat16Fs) (bytes : Memory) : Prop where
  layout : Layout fs
  endMarked : EndMarked fs bytes
  namesUnique : NamesUnique fs bytes
  chained : ∃ chains, Chained fs bytes chains

/-- The geometry does not depend on the table of files. -/
theorem Layout.with_files (h : Layout fs) (files : List Fat16File) :
    Layout { fs with files } :=
  ⟨h.1, h.2, h.3, h.4, h.5, h.6, h.7⟩

theorem Layout.fatEnd_le (h : Layout fs) : fs.fatStart + fs.bpb.fatSize16 ≤ fs.rootStart := by
  have hfats := Nat.mul_le_mul_right fs.bpb.fatSize16 h.numFats
  rw [h.rootStart]
  omega

/-- The FAT entry of a data cluster lies below the root directory. -/
theorem Layout.fatAddr_lt (h : Layout fs) {c : Nat} (hc : fs.clusterKind.inside c) :
    512 * fs.fatStart + 2 * c + 2 ≤ 512 * fs.rootStart := by
  have hend := h.fatEnd_le
  have hroom := h.fatRoom
  have hlt := hc.2.1
  omega

theorem Layout.slotAddr_lt (h : Layout fs) {slot : Nat} (hslot : fs.InRoot slot) :
    32 * slot + 32 ≤ 512 * fs.dataStart := by
  have hlt := hslot.2
  rw [h.dataStart]
  omega

/-! ## Entries and windows

A sector buffer shows the entries of its sector. -/

theorem entryName_window (lba i : Nat) :
    entryName (bytes.window (512 * lba)) i = entryName bytes (16 * lba + i) := by
  rw [entryName, entryName, Memory.loadList_window]
  congr 1
  omega

theorem entryHead_window (lba i : Nat) :
    entryHead (bytes.window (512 * lba)) i = entryHead bytes (16 * lba + i) := by
  rw [entryHead, entryHead, Memory.window]
  congr 1
  omega

theorem entryAttr_window (lba i : Nat) :
    entryAttr (bytes.window (512 * lba)) i = entryAttr bytes (16 * lba + i) := by
  rw [entryAttr, entryAttr, Memory.window]
  congr 1
  omega

theorem entryFirstCluster_window (lba i : Nat) :
    entryFirstCluster (bytes.window (512 * lba)) i = entryFirstCluster bytes (16 * lba + i) := by
  rw [entryFirstCluster, entryFirstCluster, Memory.loadLe_window]
  congr 1
  omega

theorem entryFileSize_window (lba i : Nat) :
    entryFileSize (bytes.window (512 * lba)) i = entryFileSize bytes (16 * lba + i) := by
  rw [entryFileSize, entryFileSize, Memory.loadLe_window]
  congr 1
  omega

@[simp] theorem entryName_length (slot : Nat) : (entryName bytes slot).length = 11 := by
  simp [entryName]

theorem entryName_head (slot : Nat) :
    (entryName bytes slot).head? = some (entryHead bytes slot) := by
  simp [entryName, entryHead, Memory.loadList, List.range_succ_eq_map]

theorem mem_entryName_head (slot : Nat) : entryHead bytes slot ∈ entryName bytes slot :=
  List.mem_of_mem_head? (entryName_head slot)

/-! ## Framing

Two memories that agree on the bytes of a slot, or of a FAT entry, agree on what
it means. -/

/-- The slot holds the same 32 bytes in both memories. -/
def SameSlot (bytes bytes' : Memory) (slot : Nat) : Prop :=
  ∀ x, 32 * slot ≤ x → x < 32 * slot + 32 → bytes x = bytes' x

namespace SameSlot

variable {slot : Nat}

theorem head (h : SameSlot bytes bytes' slot) : entryHead bytes slot = entryHead bytes' slot :=
  h _ (by omega) (by omega)

theorem attr (h : SameSlot bytes bytes' slot) : entryAttr bytes slot = entryAttr bytes' slot :=
  h _ (by omega) (by omega)

theorem name (h : SameSlot bytes bytes' slot) : entryName bytes slot = entryName bytes' slot :=
  Memory.loadList_congr fun x hlow hhigh => h x hlow (by omega)

theorem firstCluster (h : SameSlot bytes bytes' slot) :
    entryFirstCluster bytes slot = entryFirstCluster bytes' slot :=
  Memory.loadLe_congr fun x hlow hhigh => h x (by omega) (by omega)

theorem fileSize (h : SameSlot bytes bytes' slot) :
    entryFileSize bytes slot = entryFileSize bytes' slot :=
  Memory.loadLe_congr fun x hlow hhigh => h x (by omega) (by omega)

theorem isLive (h : SameSlot bytes bytes' slot) : IsLive bytes slot ↔ IsLive bytes' slot := by
  rw [IsLive, IsLive, h.head]

theorem isPlain (h : SameSlot bytes bytes' slot) : IsPlain bytes slot ↔ IsPlain bytes' slot := by
  rw [IsPlain, IsPlain, h.isLive, h.attr]

theorem symm (h : SameSlot bytes bytes' slot) : SameSlot bytes' bytes slot :=
  fun x hlow hhigh => (h x hlow hhigh).symm

theorem trans {bytes'' : Memory} (h : SameSlot bytes bytes' slot)
    (h' : SameSlot bytes' bytes'' slot) : SameSlot bytes bytes'' slot :=
  fun x hlow hhigh => (h x hlow hhigh).trans (h' x hlow hhigh)

end SameSlot

/-! ## The FAT -/

theorem fatEntry_setFat (c value c' : Nat) :
    fatEntry fs (setFat fs bytes c value) c' =
      if c' = c then value % 65536 else fatEntry fs bytes c' := by
  split
  next heq =>
    subst c'
    exact Memory.loadLe_storeLe_same
  next hne => exact Memory.loadLe_storeLe_of_disjoint (by omega)

/-- An entry stays as it was set while only data clusters are written. -/
theorem fatEntry_of_setFat (hlayout : Layout fs) {c value : Nat}
    (hc : fs.clusterKind.inside c) (hvalue : value < 65536)
    (hsame : ∀ x < 512 * fs.dataStart, bytes' x = setFat fs bytes c value x) :
    fatEntry fs bytes' c = value := by
  have haddr := hlayout.fatAddr_lt hc
  have hdataStart := hlayout.dataStart
  have hentry : fatEntry fs bytes' c = fatEntry fs (setFat fs bytes c value) c :=
    Memory.loadLe_congr fun x _ hx => hsame x (by omega)
  rw [hentry, fatEntry_setFat, if_pos rfl, Nat.mod_eq_of_lt hvalue]

/-- A cluster marked as the last one is a chain of its own. -/
theorem chain_single {c : Nat} (hc : fs.clusterKind.inside c)
    (hend : fatEntry fs bytes c = 0xFFFF) :
    Chain fs.clusterKind (fatEntry fs bytes) c [c] :=
  .last hc (by rw [hend]; change 0xFFF8 ≤ 0xFFFF; decide)

/-- The byte belongs to the FAT entry of the cluster. -/
def Fat16Fs.EntryByte (fs : Fat16Fs) (cluster x : Nat) : Prop :=
  512 * fs.fatStart + 2 * cluster ≤ x ∧ x < 512 * fs.fatStart + 2 * cluster + 2

instance (cluster x : Nat) : Decidable (fs.EntryByte cluster x) :=
  inferInstanceAs (Decidable (_ ∧ _))

theorem setFat_apply (c value x : Nat) :
    setFat fs bytes c value x =
      if fs.EntryByte c x then UInt8.ofNat (value / 256 ^ (x - (512 * fs.fatStart + 2 * c)))
      else bytes x := by
  rw [setFat, Memory.storeLe]
  split
  next hin => exact Memory.overwrite_of_mem hin.1 hin.2
  next hout =>
    refine Memory.overwrite_of_notMem ?_
    unfold Fat16Fs.EntryByte at hout
    omega

theorem setFat_apply_of_le {c value x : Nat} (hx : 512 * fs.fatStart + 2 * c + 2 ≤ x) :
    setFat fs bytes c value x = bytes x := by
  rw [setFat, Memory.storeLe, Memory.overwrite_of_notMem (by omega)]

/-- Storing a number of two equal bytes in the entries of several clusters. -/
theorem foldl_setFat_apply {value : Nat} {byte : UInt8}
    (hvalue : ∀ k < 2, UInt8.ofNat (value / 256 ^ k) = byte) (cells : List Nat) (x : Nat) :
    cells.foldl (fun bytes c => setFat fs bytes c value) bytes x =
      if ∃ c ∈ cells, fs.EntryByte c x then byte else bytes x := by
  induction cells generalizing bytes with
  | nil => simp
  | cons cell cells ih =>
      rw [List.foldl_cons, ih, setFat_apply]
      by_cases hrest : ∃ c ∈ cells, fs.EntryByte c x
      · obtain ⟨c, hc, hin⟩ := hrest
        rw [if_pos ⟨c, hc, hin⟩, if_pos ⟨c, List.mem_cons_of_mem _ hc, hin⟩]
      · by_cases hcell : fs.EntryByte cell x
        · have hlow := hcell.1
          have hhigh := hcell.2
          rw [if_neg hrest, if_pos hcell, if_pos ⟨cell, List.mem_cons_self, hcell⟩]
          exact hvalue _ (by omega)
        · simp [hrest, hcell]

/-- Zero the FAT entries of the listed clusters. -/
def zeroFat (fs : Fat16Fs) (bytes : Memory) (cells : List Nat) : Memory :=
  cells.foldl (fun bytes c => setFat fs bytes c 0x0000) bytes

theorem fatEntry_zeroFat (cells : List Nat) (c : Nat) :
    fatEntry fs (zeroFat fs bytes cells) c = if c ∈ cells then 0 else fatEntry fs bytes c := by
  induction cells generalizing bytes with
  | nil => simp [zeroFat]
  | cons cell cells ih =>
      rw [zeroFat, List.foldl_cons, ← zeroFat, ih, fatEntry_setFat]
      by_cases hmem : c ∈ cells
      · simp [hmem]
      · simp [hmem, List.mem_cons]

theorem zeroFat_apply (cells : List Nat) (x : Nat) :
    zeroFat fs bytes cells x = if ∃ c ∈ cells, fs.EntryByte c x then 0 else bytes x :=
  foldl_setFat_apply (fun k _ => by rw [Nat.zero_div]; rfl) cells x

theorem zeroFat_apply_of_le {cells : List Nat} {x : Nat}
    (hx : ∀ c ∈ cells, 512 * fs.fatStart + 2 * c + 2 ≤ x) :
    zeroFat fs bytes cells x = bytes x := by
  induction cells generalizing bytes with
  | nil => rfl
  | cons cell cells ih =>
      rw [zeroFat, List.foldl_cons, ← zeroFat, ih fun c hc => hx c (List.mem_cons_of_mem _ hc)]
      exact setFat_apply_of_le (hx cell List.mem_cons_self)

/-- FAT updates of data clusters leave every slot of the root directory alone. -/
theorem sameSlot_setFat (h : Layout fs) {c value slot : Nat} (hc : fs.clusterKind.inside c)
    (hslot : fs.InRoot slot) : SameSlot (setFat fs bytes c value) bytes slot := by
  intro x hlow _
  have haddr := h.fatAddr_lt hc
  have hroot := hslot.1
  exact setFat_apply_of_le (by omega)

theorem sameSlot_zeroFat (h : Layout fs) {cells : List Nat} {slot : Nat}
    (hcells : ∀ c ∈ cells, fs.clusterKind.inside c) (hslot : fs.InRoot slot) :
    SameSlot (zeroFat fs bytes cells) bytes slot := by
  intro x hlow _
  apply zeroFat_apply_of_le
  intro c hc
  have haddr := h.fatAddr_lt (hcells c hc)
  have hroot := hslot.1
  omega

/-- Changes from the root directory on leave the FAT alone. -/
theorem fatEntry_congr_of_lt (h : Layout fs) (hsame : ∀ x < 512 * fs.rootStart, bytes' x = bytes x)
    {c : Nat} (hc : fs.clusterKind.inside c) : fatEntry fs bytes' c = fatEntry fs bytes c := by
  have haddr := h.fatAddr_lt hc
  exact Memory.loadLe_congr fun x _ hhigh => hsame x (by omega)

/-! ## Directory slots -/

/-- Marking or filling a slot changes no other slot. -/
theorem sameSlot_of_outside {slot slot' : Nat}
    (h : ∀ x, x < 32 * slot ∨ 32 * slot + 32 ≤ x → bytes' x = bytes x) (hne : slot' ≠ slot) :
    SameSlot bytes' bytes slot' :=
  fun x hlow hhigh => h x (by omega)

theorem putEntry_apply_of_outside {slot size first x : Nat} {name : List UInt8}
    (hname : name.length = 11) (hx : x < 32 * slot ∨ 32 * slot + 32 ≤ x) :
    putEntry bytes slot name size first x = bytes x := by
  simp only [putEntry, Memory.storeLe, Memory.storeByte, Memory.storeList, hname]
  repeat rw [Memory.overwrite_of_notMem (by omega)]

theorem sameSlot_putEntry {slot slot' size first : Nat} {name : List UInt8}
    (hname : name.length = 11) (hne : slot' ≠ slot) :
    SameSlot (putEntry bytes slot name size first) bytes slot' :=
  sameSlot_of_outside (fun _ hx => putEntry_apply_of_outside hname hx) hne

/-- A new entry leaves the FAT alone. -/
theorem fatEntry_putEntry (h : Layout fs) {slot size first c : Nat} {name : List UInt8}
    (hslot : fs.InRoot slot) (hname : name.length = 11) (hc : fs.clusterKind.inside c) :
    fatEntry fs (putEntry bytes slot name size first) c = fatEntry fs bytes c := by
  have hroot := hslot.1
  exact fatEntry_congr_of_lt h
    (fun x hx => putEntry_apply_of_outside hname (Or.inl (by omega))) hc

theorem entryName_putEntry {slot size first : Nat} {name : List UInt8}
    (hname : name.length = 11) : entryName (putEntry bytes slot name size first) slot = name := by
  have hkeep : entryName (putEntry bytes slot name size first) slot =
      entryName (bytes.storeList (32 * slot) name) slot := by
    apply Memory.loadList_congr
    intro x hlow hhigh
    simp only [putEntry, Memory.storeLe, Memory.storeByte]
    repeat rw [Memory.overwrite_of_notMem (by omega)]
  rw [hkeep, entryName, ← hname]
  exact Memory.loadList_storeList_same

theorem entryAttr_putEntry {slot size first : Nat} {name : List UInt8} :
    entryAttr (putEntry bytes slot name size first) slot = 0x20 := by
  simp only [putEntry, entryAttr, Memory.storeLe]
  repeat rw [Memory.overwrite_of_notMem (by omega)]
  exact Memory.storeByte_same

theorem entryFirstCluster_putEntry {slot size first : Nat} {name : List UInt8} :
    entryFirstCluster (putEntry bytes slot name size first) slot = first % 65536 := by
  simp only [putEntry, entryFirstCluster]
  rw [Memory.loadLe_storeLe_of_disjoint (by omega)]
  exact Memory.loadLe_storeLe_same

theorem entryFileSize_putEntry {slot size first : Nat} {name : List UInt8} :
    entryFileSize (putEntry bytes slot name size first) slot = size % 2 ^ 32 := by
  simp only [putEntry, entryFileSize]
  rw [Memory.loadLe_storeLe_of_disjoint (by omega), Memory.loadLe_storeLe_of_disjoint (by omega)]
  exact Memory.loadLe_storeLe_same

end Dosfs.Fat16
