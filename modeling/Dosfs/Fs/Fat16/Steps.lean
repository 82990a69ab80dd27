import Dosfs.Fs.Fat16.Volume

/-!
# What each driver function does to a volume

One specification for each function of the driver, for every pattern of failing
sector transfers. A transfer is numbered by the clock of the drive, so where a
function stops and which writes reach the drive are functions of the pattern
and of the volume before the call.
-/

namespace Dosfs.Fat16

open Foundation

variable {env : Env} {fs : Fat16Fs} {ata : Ata}

theorem ataReadSectors_fault {lba count : Nat}
    (h : env.fault ata.clock (.read lba count) = true) :
    ataReadSectors env lba count ata = (none, { ata with clock := ata.clock + 1 }) := by
  simp [ataReadSectors, h]

theorem ataReadSectors_ok {lba count : Nat}
    (h : env.fault ata.clock (.read lba count) = false) :
    ataReadSectors env lba count ata =
      (some (ata.bytes.window (512 * lba)), { ata with clock := ata.clock + 1 }) := by
  simp [ataReadSectors, h]

theorem ataWriteSectors_fault {lba count : Nat} {buf : Memory}
    (h : env.fault ata.clock (.write lba count) = true) :
    ataWriteSectors env lba count buf ata = (false, { ata with clock := ata.clock + 1 }) := by
  simp [ataWriteSectors, h]

theorem ataWriteSectors_ok {lba count : Nat} {buf : Memory}
    (h : env.fault ata.clock (.write lba count) = false) :
    ataWriteSectors env lba count buf ata =
      (true, ⟨ata.bytes.overwrite (512 * lba) (512 * count) buf, ata.clock + 1⟩) := by
  simp [ataWriteSectors, h]

/-! ## Single FAT entries -/

theorem fatAddr_eq (cluster : Nat) :
    512 * fs.fatSector cluster + entOffset cluster = 512 * fs.fatStart + 2 * cluster := by
  rw [Fat16Fs.fatSector, entOffset]
  omega

theorem fat16GetNextCluster_eq (cluster : Nat) (ata : Ata) :
    fat16GetNextCluster env fs cluster ata =
      (if env.fault ata.clock (.read (fs.fatSector cluster) 1) then 0xFFF8
        else fatEntry fs ata.bytes cluster, { ata with clock := ata.clock + 1 }) := by
  unfold fat16GetNextCluster
  cases hread : env.fault ata.clock (.read (fs.fatSector cluster) 1) with
  | true => simp [ataReadSectors_fault hread]
  | false => simp [ataReadSectors_ok hread, Memory.loadLe_window, fatAddr_eq, fatEntry]

/-- Writing back the FAT sector with one entry changed changes that entry. -/
theorem overwrite_fatSector (bytes : Memory) (cluster value : Nat) :
    bytes.overwrite (512 * fs.fatSector cluster) (512 * 1)
        ((bytes.window (512 * fs.fatSector cluster)).storeLe (entOffset cluster) 2 value) =
      setFat fs bytes cluster value := by
  have hfit : entOffset cluster + 2 ≤ 512 * 1 := by
    rw [entOffset]
    omega
  rw [Memory.storeLe, Memory.overwrite_window_overwrite hfit, fatAddr_eq, setFat, Memory.storeLe]

/-- Which entry an update of the FAT at clock `t` really changes, none if one of
its two transfers fails, and the clock afterwards. -/
def updateTrace (env : Env) (fs : Fat16Fs) (cluster t : Nat) : List Nat × Nat :=
  if env.fault t (.read (fs.fatSector cluster) 1) then ([], t + 1)
  else if env.fault (t + 1) (.write (fs.fatSector cluster) 1) then ([], t + 2)
  else ([cluster], t + 2)

theorem setNextCluster_zero (cluster : Nat) (ata : Ata) :
    setNextCluster env fs cluster 0x0000 ata =
      ⟨zeroFat fs ata.bytes (updateTrace env fs cluster ata.clock).1,
        (updateTrace env fs cluster ata.clock).2⟩ := by
  unfold setNextCluster updateTrace
  cases hread : env.fault ata.clock (.read (fs.fatSector cluster) 1) with
  | true => simp [ataReadSectors_fault hread, zeroFat]
  | false =>
      rw [ataReadSectors_ok hread]
      cases hwrite : env.fault (ata.clock + 1) (.write (fs.fatSector cluster) 1) with
      | true => simp [ataWriteSectors, hwrite, zeroFat]
      | false => simp [ataWriteSectors, hwrite, zeroFat, ← overwrite_fatSector]

/-! ## Freeing a chain -/

/-- Which cells of a chain `fat16_free_cluster_chain` really frees when it
starts at clock `t`, and the clock at which it returns. The walk stops at the
first cluster number from `0xFF8` on, and after a cell whose link it could not
read. -/
def freeTrace (env : Env) (fs : Fat16Fs) : List Nat → Nat → List Nat × Nat
  | [], t => ([], t)
  | c :: rest, t =>
      if c < 0xFF8 then
        let (freed, t') := updateTrace env fs c (t + 1)
        if env.fault t (.read (fs.fatSector c) 1) then (freed, t')
        else (freed ++ (freeTrace env fs rest t').1, (freeTrace env fs rest t').2)
      else ([], t)

theorem updateTrace_subset {cluster t c : Nat} (hc : c ∈ (updateTrace env fs cluster t).1) :
    c = cluster := by
  unfold updateTrace at hc
  split_ifs at hc <;> simp_all

theorem freeTrace_subset {cells : List Nat} {t c : Nat}
    (hc : c ∈ (freeTrace env fs cells t).1) : c ∈ cells := by
  induction cells generalizing t with
  | nil => simp [freeTrace] at hc
  | cons cell rest ih =>
      simp only [freeTrace] at hc
      split_ifs at hc
      · exact updateTrace_subset hc ▸ List.mem_cons_self
      · rcases List.mem_append.mp hc with hhere | hrest
        · exact updateTrace_subset hhere ▸ List.mem_cons_self
        · exact List.mem_cons_of_mem _ (ih hrest)
      · simp at hc

theorem zeroFat_append (bytes : Memory) (cells cells' : List Nat) :
    zeroFat fs bytes (cells ++ cells') = zeroFat fs (zeroFat fs bytes cells) cells' :=
  List.foldl_append

/-- On a chain, `fat16_free_cluster_chain` returns with the traced cells freed. -/
theorem fat16FreeClusterChain_eq {c : Nat} {cells : List Nat} {fuel : Nat}
    (hchain : Chain fs.clusterKind (fatEntry fs ata.bytes) c cells)
    (hfuel : cells.length < fuel) :
    fat16FreeClusterChain env fs fuel c ata =
      some ⟨zeroFat fs ata.bytes (freeTrace env fs cells ata.clock).1,
        (freeTrace env fs cells ata.clock).2⟩ := by
  induction cells generalizing c fuel ata with
  | nil => cases hchain
  | cons cell rest ih =>
      obtain rfl : cell = c := by cases hchain <;> rfl
      obtain ⟨fuel, rfl⟩ : ∃ k, fuel = k + 1 := ⟨fuel - 1, by omega⟩
      have hcell : 2 ≤ cell := hchain.head_inside.1
      have hnodup := List.nodup_cons.mp hchain.nodup
      rw [List.length_cons] at hfuel
      by_cases hlow : cell < 0xFF8
      · rw [fat16FreeClusterChain, if_pos ⟨hcell, hlow⟩, fat16GetNextCluster_eq]
        simp only [setNextCluster_zero, freeTrace, if_pos hlow]
        -- the walk ends: no further fuel than one step is needed
        have hstop (next : Nat) (ata' : Ata) (hend : 0xFFF8 ≤ next) :
            fat16FreeClusterChain env fs fuel next ata' = some ata' := by
          obtain ⟨fuel, rfl⟩ : ∃ k, fuel = k + 1 := ⟨fuel - 1, by omega⟩
          rw [fat16FreeClusterChain, if_neg (by omega)]
        by_cases hread : env.fault ata.clock (.read (fs.fatSector cell) 1) = true
        · simp only [hread, if_true]
          exact hstop _ _ (by decide)
        · simp only [hread, Bool.false_eq_true, if_false]
          cases hchain with
          | last _ hend =>
              rw [hstop _ _ hend]
              simp [freeTrace]
          | link _ htail =>
              rw [ih _ (by omega)]
              · rw [zeroFat_append]
              · exact htail.congr fun x hx => by
                  rw [fatEntry_zeroFat, if_neg]
                  exact fun hmem => hnodup.1 (updateTrace_subset hmem ▸ hx)
      · rw [fat16FreeClusterChain, if_neg (by omega), freeTrace, if_neg hlow]
        rfl

/-! ## Allocating a cluster -/

/-- The number is one of a data cluster, and its FAT entry is zero. -/
def Fat16Fs.IsFree (fs : Fat16Fs) (bytes : Memory) (cluster : Nat) : Prop :=
  2 ≤ cluster ∧ cluster < 2 + fs.totalClusters ∧ fatEntry fs bytes cluster = 0

instance (bytes : Memory) (cluster : Nat) : Decidable (fs.IsFree bytes cluster) :=
  inferInstanceAs (Decidable (_ ∧ _))

/-- The test on a FAT sector just read, while `2 + total_clusters` is a 32-bit
number. -/
theorem clusterIsFree_eq (htotal : 2 + fs.totalClusters < 2 ^ 32) (bytes : Memory)
    (sectorIdx i : Nat) :
    clusterIsFree fs sectorIdx (bytes.window (512 * (fs.fatStart + sectorIdx))) i =
      decide (fs.IsFree bytes (256 * sectorIdx + i)) := by
  have haddr : 512 * (fs.fatStart + sectorIdx) + 2 * i =
      512 * fs.fatStart + 2 * (256 * sectorIdx + i) := by omega
  have hcluster : sectorIdx * 256 + i = 256 * sectorIdx + i := by omega
  rw [Bool.eq_iff_iff, decide_eq_true_iff]
  simp only [clusterIsFree, Memory.loadLe_window, haddr, hcluster, Nat.mod_eq_of_lt htotal,
    Bool.and_eq_true, Bool.not_eq_true', Bool.or_eq_false_iff, decide_eq_false_iff_not,
    beq_iff_eq, Fat16Fs.IsFree, fatEntry, Nat.not_lt, Nat.not_le, and_assoc]

theorem Layout.inside_of_isFree (hlayout : Layout fs) {bytes : Memory} {c : Nat}
    (hfree : fs.IsFree bytes c) : fs.clusterKind.inside c := by
  have htotal := hlayout.totalClusters
  have hlt := hfree.2.1
  exact ⟨hfree.1, hlt, by omega⟩

/-- Allocation takes a free data cluster and marks it as the end of a file, or
fails without touching the drive. -/
def Allocated (fs : Fat16Fs) (bytes : Memory) (cluster : Nat) (bytes' : Memory) : Prop :=
  (cluster = 0 ∧ bytes' = bytes) ∨
    (fs.clusterKind.inside cluster ∧ fatEntry fs bytes cluster = 0 ∧
      bytes' = setFat fs bytes cluster 0xFFFF)

private theorem allocateLoop_allocated (hlayout : Layout fs) (todo sectorIdx : Nat) (ata : Ata) :
    Allocated fs ata.bytes (allocateLoop env fs todo sectorIdx ata).1
      (allocateLoop env fs todo sectorIdx ata).2.bytes := by
  induction todo generalizing sectorIdx ata with
  | zero => exact Or.inl ⟨rfl, rfl⟩
  | succ todo ih =>
      unfold allocateLoop
      cases hread : env.fault ata.clock (.read (fs.fatStart + sectorIdx) 1) with
      | true =>
          rw [ataReadSectors_fault hread]
          exact ih (sectorIdx + 1) { ata with clock := ata.clock + 1 }
      | false =>
          rw [ataReadSectors_ok hread]
          dsimp only
          split
          next => exact ih (sectorIdx + 1) { ata with clock := ata.clock + 1 }
          next i hfind =>
            have hi := List.mem_range.mp (List.mem_of_find?_eq_some hfind)
            have htotal := hlayout.totalClusters
            have hfree := List.find?_some hfind
            rw [clusterIsFree_eq (by omega), decide_eq_true_eq, Nat.mul_comm] at hfree
            have hsector : fs.fatStart + sectorIdx = fs.fatSector (sectorIdx * 256 + i) := by
              rw [Fat16Fs.fatSector]
              omega
            have hoffset : 2 * i = entOffset (sectorIdx * 256 + i) := by
              rw [entOffset]
              omega
            cases hwrite : env.fault (ata.clock + 1) (.write (fs.fatStart + sectorIdx) 1) with
            | true =>
                rw [ataWriteSectors_fault hwrite]
                exact Or.inl ⟨rfl, rfl⟩
            | false =>
                rw [ataWriteSectors_ok hwrite]
                refine Or.inr ⟨hlayout.inside_of_isFree hfree, hfree.2.2, ?_⟩
                rw [hoffset, hsector]
                exact overwrite_fatSector ..

theorem fat16AllocateCluster_allocated (env : Env) (hlayout : Layout fs) (ata : Ata) :
    Allocated fs ata.bytes (fat16AllocateCluster env fs ata).1
      (fat16AllocateCluster env fs ata).2.bytes :=
  allocateLoop_allocated hlayout _ _ _

/-! ## Writing a cluster -/

private theorem writeClusterLoop_bytes (lba : Nat) (data : List UInt8)
    (toWrite todo s offset : Nat) (ata : Ata) {x : Nat}
    (hx : x < 512 * lba ∨ 512 * (lba + s + todo) ≤ x) :
    (writeClusterLoop env lba data toWrite todo s offset ata).2.bytes x = ata.bytes x := by
  induction todo generalizing s offset ata with
  | zero => rfl
  | succ todo ih =>
      unfold writeClusterLoop
      split
      next =>
        dsimp only
        cases hwrite : env.fault ata.clock (.write (lba + s) 1) with
        | true => rw [ataWriteSectors_fault hwrite]
        | false =>
            rw [ataWriteSectors_ok hwrite]
            dsimp only
            rw [ih _ _ _ (by omega)]
            exact Memory.overwrite_of_notMem (by omega)
      next => rfl

/-- The byte belongs to the sectors of the cluster. -/
def Fat16Fs.ClusterByte (fs : Fat16Fs) (cluster x : Nat) : Prop :=
  512 * fs.clusterSector cluster ≤ x ∧
    x < 512 * (fs.clusterSector cluster + fs.bpb.sectorsPerCluster)

/-- Data is written to the sectors of its cluster only. -/
theorem fat16WriteCluster_bytes (cluster : Nat) (data : List UInt8) (size : Nat) (ata : Ata)
    {x : Nat} (hx : ¬ fs.ClusterByte cluster x) :
    (fat16WriteCluster env fs cluster data size ata).2.bytes x = ata.bytes x := by
  have hloop : (writeClusterLoop env (fs.clusterSector cluster) data
      (if size < fs.clusterSize then size else fs.clusterSize)
      fs.bpb.sectorsPerCluster 0 0 ata).2.bytes x = ata.bytes x := by
    refine writeClusterLoop_bytes _ _ _ _ _ _ _ ?_
    unfold Fat16Fs.ClusterByte at hx
    omega
  unfold fat16WriteCluster
  dsimp only
  split
  next heq => rwa [heq] at hloop
  next heq => rwa [heq] at hloop

/-- Clusters lie at or above the start of the data area. -/
theorem Fat16Fs.not_clusterByte_of_lt (fs : Fat16Fs) (cluster : Nat) {x : Nat}
    (hx : x < 512 * fs.dataStart) : ¬ fs.ClusterByte cluster x := by
  rintro ⟨hlow, -⟩
  rw [Fat16Fs.clusterSector] at hlow
  omega

/-- Different clusters have no byte in common. -/
theorem Fat16Fs.ClusterByte.unique {cluster cluster' x : Nat} (hlow : 2 ≤ cluster)
    (hlow' : 2 ≤ cluster') (h : fs.ClusterByte cluster x) (h' : fs.ClusterByte cluster' x) :
    cluster = cluster' := by
  have hlt {c c' : Nat} (hc : 2 ≤ c) (hlt : c < c') (hin : fs.ClusterByte c x) :
      ¬ fs.ClusterByte c' x := by
    rintro ⟨hin', -⟩
    have hhigh := hin.2
    have hmul := Nat.mul_le_mul_right fs.bpb.sectorsPerCluster
      (show (c - 2) + 1 ≤ c' - 2 by omega)
    rw [Nat.add_one_mul] at hmul
    rw [Fat16Fs.clusterSector] at hin' hhigh
    omega
  rcases Nat.lt_trichotomy cluster cluster' with h₁ | heq | h₂
  · exact absurd h' (hlt hlow h₁ h)
  · exact heq
  · exact absurd h (hlt hlow' h₂ h')

/-- The returned byte count is zero only for an empty write. -/
theorem fat16WriteCluster_ne_zero (env : Env) (hlayout : Layout fs) (cluster : Nat)
    (data : List UInt8) {size : Nat} (hsize : 0 < size) (ata : Ata) :
    (fat16WriteCluster env fs cluster data size ata).1 ≠ 0 := by
  have hspc := hlayout.sectorsPerCluster
  have hcluster : 0 < fs.clusterSize := by
    rw [Fat16Fs.clusterSize]
    omega
  unfold fat16WriteCluster
  dsimp only
  split
  next => simp
  next =>
    split
    next => simp; omega
    next => simp; omega

theorem fat16WriteCluster_empty (cluster : Nat) (data : List UInt8) (ata : Ata) :
    fat16WriteCluster env fs cluster data 0 ata = (0, ata) := by
  have hloop : writeClusterLoop env (fs.clusterSector cluster) data 0
      fs.bpb.sectorsPerCluster 0 0 ata = (true, ata) := by
    cases fs.bpb.sectorsPerCluster <;> simp [writeClusterLoop]
  have hzero : (if 0 < fs.clusterSize then 0 else fs.clusterSize) = 0 := by
    split_ifs <;> omega
  simp [fat16WriteCluster, hzero, hloop]

end Dosfs.Fat16
