import Mathlib.Data.List.Range
import Dosfs.Foundation.Run
import Dosfs.Fs.Fat16.Mount

/-!
# Allocating until the volume is full

`fat16_allocate_cluster` and the free-cluster count of `fat16_mount` go through
the sectors of the FAT in loops of their own. Both are about one list, the free
clusters that the FAT covers: the count is its length, and each allocation takes
its head.
-/

namespace Dosfs.Fat16

open Foundation

variable {fs : Fat16Fs} {bytes : Memory}

/-- The free clusters among those the FAT has an entry for, in order. -/
def freeClusters (fs : Fat16Fs) (bytes : Memory) : List Nat :=
  (List.range (256 * fs.bpb.fatSize16)).filter fun c => fs.IsFree bytes c

theorem mem_freeClusters {c : Nat} :
    c ∈ freeClusters fs bytes ↔ c < 256 * fs.bpb.fatSize16 ∧ fs.IsFree bytes c := by
  simp [freeClusters]

theorem freeClusters_pairwise : (freeClusters fs bytes).Pairwise (· < ·) :=
  List.pairwise_lt_range.filter _

/-- The entries of one FAT sector come before those of the following ones. -/
private theorem range'_sector (sectorIdx todo : Nat) :
    List.range' (256 * sectorIdx) (256 * (todo + 1)) =
      (List.range 256).map (256 * sectorIdx + ·) ++
        List.range' (256 * (sectorIdx + 1)) (256 * todo) := by
  rw [← List.range'_eq_map_range, Nat.mul_add_one 256 todo, Nat.add_comm (256 * todo),
    Nat.mul_add_one 256 sectorIdx, List.range'_append_1]

/-! ## The two loops -/

theorem countFreeClusters_faultless (htotal : 2 + fs.totalClusters < 2 ^ 32)
    (todo sectorIdx free : Nat) (ata : Ata) :
    (countFreeClusters Env.faultless fs todo sectorIdx free ata).1 =
      free +
        (List.range' (256 * sectorIdx) (256 * todo)).countP fun c => fs.IsFree ata.bytes c := by
  induction todo generalizing sectorIdx free ata with
  | zero => rfl
  | succ todo ih =>
      unfold countFreeClusters
      rw [ataReadSectors_ok rfl]
      dsimp only
      rw [ih, range'_sector, List.countP_append, List.countP_map, ← Nat.add_assoc]
      congr 3
      exact funext fun i => clusterIsFree_eq htotal ata.bytes sectorIdx i

/-- The count at mount is the number of free clusters. -/
theorem countFreeClusters_eq_length (htotal : 2 + fs.totalClusters < 2 ^ 32) (ata : Ata) :
    (countFreeClusters Env.faultless fs fs.bpb.fatSize16 0 0 ata).1 =
      (freeClusters fs ata.bytes).length := by
  rw [countFreeClusters_faultless htotal, Nat.zero_add, Nat.mul_zero, ← List.range_eq_range',
    freeClusters, List.countP_eq_length_filter]

/-- The free space that `fat16_mount` reports is that of the free clusters. -/
theorem fat16Mount_free {s : Fat16State} (hmount : (fat16Mount Env.faultless s).1.1 = 0)
    (htotal : 2 + (fat16Mount Env.faultless s).2.fs.totalClusters < 2 ^ 32) :
    (fat16Mount Env.faultless s).1.2 = .ok (fat16Mount Env.faultless s).2.fs.files.length
      ((freeClusters (fat16Mount Env.faultless s).2.fs s.ata.bytes).length *
        (fat16Mount Env.faultless s).2.fs.bpb.sectorsPerCluster * 512 % 2 ^ 32 / 1024) := by
  unfold fat16Mount at hmount htotal ⊢
  rw [ataReadSectors_ok rfl] at hmount htotal ⊢
  dsimp only at hmount htotal ⊢
  split_ifs at hmount htotal ⊢
  · simp at hmount
  · simp at hmount
  · simp at hmount
  · refine congrArg (fun free => MountMessage.ok _ (free * _ * 512 % 2 ^ 32 / 1024)) ?_
    refine (countFreeClusters_eq_length htotal _).trans ?_
    rw [fat16ScanRoot_bytes]

/-- What allocation does when the given cluster is the first free one, if any. -/
def allocated (fs : Fat16Fs) (bytes : Memory) (clock : Nat) : Option Nat → Nat × Ata
  | none => (0, ⟨bytes, clock⟩)
  | some c => (c, ⟨setFat fs bytes c 0xFFFF, clock⟩)

theorem allocateLoop_faultless (htotal : 2 + fs.totalClusters < 2 ^ 32) (todo sectorIdx : Nat)
    (ata : Ata) :
    ∃ clock, allocateLoop Env.faultless fs todo sectorIdx ata = allocated fs ata.bytes clock
      ((List.range' (256 * sectorIdx) (256 * todo)).find? fun c => fs.IsFree ata.bytes c) := by
  induction todo generalizing sectorIdx ata with
  | zero => exact ⟨ata.clock, rfl⟩
  | succ todo ih =>
      have htest : clusterIsFree fs sectorIdx
            (ata.bytes.window (512 * (fs.fatStart + sectorIdx))) =
          (fun c => decide (fs.IsFree ata.bytes c)) ∘ (256 * sectorIdx + ·) :=
        funext fun i => clusterIsFree_eq htotal ata.bytes sectorIdx i
      unfold allocateLoop
      rw [ataReadSectors_ok rfl, range'_sector, List.find?_append, List.find?_map, ← htest]
      dsimp only
      rcases hfind : (List.range 256).find? (clusterIsFree fs sectorIdx
        (ata.bytes.window (512 * (fs.fatStart + sectorIdx)))) with _ | i
      · exact ih (sectorIdx + 1) _
      · have hi := List.mem_range.mp (List.mem_of_find?_eq_some hfind)
        have hsector : fs.fatStart + sectorIdx = fs.fatSector (256 * sectorIdx + i) := by
          rw [Fat16Fs.fatSector]
          omega
        have hoffset : 2 * i = entOffset (256 * sectorIdx + i) := by
          rw [entOffset]
          omega
        refine ⟨ata.clock + 2, ?_⟩
        dsimp only
        rw [ataWriteSectors_ok rfl, hoffset, hsector, Nat.mul_comm sectorIdx 256]
        dsimp only
        rw [overwrite_fatSector]
        rfl

/-- An allocation takes the head of the list of free clusters. -/
theorem fat16AllocateCluster_faultless (htotal : 2 + fs.totalClusters < 2 ^ 32) (ata : Ata) :
    ∃ clock, fat16AllocateCluster Env.faultless fs ata =
      allocated fs ata.bytes clock (freeClusters fs ata.bytes).head? := by
  obtain ⟨clock, hloop⟩ := allocateLoop_faultless htotal fs.bpb.fatSize16 0 ata
  rw [Nat.mul_zero, ← List.range_eq_range'] at hloop
  refine ⟨clock, ?_⟩
  rw [fat16AllocateCluster, hloop, freeClusters, List.head?_filter]

/-- The head is no longer free afterwards, every other cluster is as before. -/
theorem freeClusters_setFat_head {c : Nat} {rest : List Nat}
    (hfree : freeClusters fs bytes = c :: rest) :
    freeClusters fs (setFat fs bytes c 0xFFFF) = rest := by
  have hne : ∀ c' ∈ rest, c' ≠ c := by
    intro c' hc'
    have hsorted := @freeClusters_pairwise fs bytes
    rw [hfree, List.pairwise_cons] at hsorted
    exact (hsorted.1 c' hc').ne'
  have hfilter : freeClusters fs (setFat fs bytes c 0xFFFF) =
      (freeClusters fs bytes).filter (· ≠ c) := by
    rw [freeClusters, freeClusters, List.filter_filter]
    refine List.filter_congr fun c' _ => ?_
    have hkept : fs.IsFree (setFat fs bytes c 0xFFFF) c' ↔ c' ≠ c ∧ fs.IsFree bytes c' := by
      rw [Fat16Fs.IsFree, Fat16Fs.IsFree, fatEntry_setFat]
      by_cases heq : c' = c <;> simp [heq]
    simp [hkept]
  rw [hfilter, hfree, List.filter_cons_of_neg (by simp), List.filter_eq_self]
  exact fun c' hc' => by simpa using hne c' hc'

/-! ## Allocating again and again -/

/-- `count` calls of `fat16_allocate_cluster`, one after the other. -/
def allocateCalls (env : Env) (fs : Fat16Fs) (count : Nat) (ata : Ata) :
    Option (List Nat × Ata) :=
  runAll (fun (_ : Unit) ata => some (fat16AllocateCluster env fs ata))
    (List.replicate count ()) ata

/-- Mark the FAT entries of the listed clusters as ends of files. -/
def endFat (fs : Fat16Fs) (bytes : Memory) (cells : List Nat) : Memory :=
  cells.foldl (fun bytes c => setFat fs bytes c 0xFFFF) bytes

theorem endFat_apply (cells : List Nat) (x : Nat) :
    endFat fs bytes cells x = if ∃ c ∈ cells, fs.EntryByte c x then 0xFF else bytes x :=
  foldl_setFat_apply (by decide) cells x

/-- The calls take the free clusters in order; once there is none left, they
return 0 and change nothing. -/
theorem allocateCalls_faultless (htotal : 2 + fs.totalClusters < 2 ^ 32) (count : Nat)
    (ata : Ata) :
    ∃ clock, allocateCalls Env.faultless fs count ata =
      some ((freeClusters fs ata.bytes).take count ++
          List.replicate (count - (freeClusters fs ata.bytes).length) 0,
        ⟨endFat fs ata.bytes ((freeClusters fs ata.bytes).take count), clock⟩) := by
  induction count generalizing ata with
  | zero => exact ⟨ata.clock, by simp [allocateCalls, runAll, endFat]⟩
  | succ count ih =>
      obtain ⟨clock₁, hstep⟩ := fat16AllocateCluster_faultless htotal ata
      have hcalls (c : Nat) (ata' : Ata)
          (hcall : fat16AllocateCluster Env.faultless fs ata = (c, ata')) :
          allocateCalls Env.faultless fs (count + 1) ata =
            (allocateCalls Env.faultless fs count ata').map fun r => (c :: r.1, r.2) := by
        rw [allocateCalls, List.replicate_succ, runAll, hcall]
        rfl
      cases hfree : freeClusters fs ata.bytes with
      | nil =>
          rw [hfree] at hstep
          obtain ⟨clock, hrest⟩ := ih ⟨ata.bytes, clock₁⟩
          rw [hfree] at hrest
          exact ⟨clock, by rw [hcalls 0 _ hstep, hrest]; simp [List.replicate_succ]⟩
      | cons c rest =>
          rw [hfree] at hstep
          obtain ⟨clock, hrest⟩ := ih ⟨setFat fs ata.bytes c 0xFFFF, clock₁⟩
          rw [freeClusters_setFat_head hfree] at hrest
          exact ⟨clock, by rw [hcalls c _ hstep, hrest]; simp [endFat]⟩

/-- Allocation uses up the free clusters that `fat16_mount` counts. -/
structure UsesUpFreeClusters (fs : Fat16Fs) (ata : Ata) : Prop where
  counted : (countFreeClusters Env.faultless fs fs.bpb.fatSize16 0 0 ata).1 =
    (freeClusters fs ata.bytes).length
  ordered : (freeClusters fs ata.bytes).Pairwise (· < ·)
  free : ∀ c, c ∈ freeClusters fs ata.bytes ↔
    2 ≤ c ∧ c < 2 + fs.totalClusters ∧ c < 256 * fs.bpb.fatSize16 ∧
      fatEntry fs ata.bytes c = 0x0000
  calls : ∀ count, ∃ ata', allocateCalls Env.faultless fs count ata =
      some ((freeClusters fs ata.bytes).take count ++
        List.replicate (count - (freeClusters fs ata.bytes).length) 0, ata') ∧
    ∀ x, ata'.bytes x =
      if ∃ c ∈ (freeClusters fs ata.bytes).take count, fs.EntryByte c x then 0xFF
      else ata.bytes x

/-- On every mounted volume and for every content of its drive: `n` calls return
the first `n` free clusters in order and 0 from then on. The free space that
`fat16_mount` reports is that of its count. -/
theorem fat16_allocation_uses_up_free_clusters {s : Fat16State}
    (hmount : (fat16Mount Env.faultless s).1.1 = 0)
    (htotal : 2 + (fat16Mount Env.faultless s).2.fs.totalClusters ≤ 65536) :
    (fat16Mount Env.faultless s).1.2 = .ok (fat16Mount Env.faultless s).2.fs.files.length
        ((freeClusters (fat16Mount Env.faultless s).2.fs s.ata.bytes).length *
          (fat16Mount Env.faultless s).2.fs.bpb.sectorsPerCluster * 512 % 2 ^ 32 / 1024) ∧
      ∀ ata, UsesUpFreeClusters (fat16Mount Env.faultless s).2.fs ata := by
  have hlt := htotal.trans_lt (show 65536 < 2 ^ 32 by decide)
  refine ⟨fat16Mount_free hmount hlt, fun ata => ⟨?_, ?_, fun c => ?_, fun count => ?_⟩⟩
  · exact countFreeClusters_eq_length hlt ata
  · exact freeClusters_pairwise
  · rw [mem_freeClusters, Fat16Fs.IsFree]
    tauto
  · obtain ⟨clock, hcalls⟩ := allocateCalls_faultless hlt count ata
    exact ⟨_, hcalls, endFat_apply _⟩

theorem fat16_allocation_uses_up_free_clusters_formatted :
    (fat16Mount Env.faultless ⟨Fat16Fs.zero, ⟨formatted 16 7, 0⟩⟩).1.2 =
        .ok (fat16Mount Env.faultless ⟨Fat16Fs.zero, ⟨formatted 16 7, 0⟩⟩).2.fs.files.length
          ((freeClusters (fat16Mount Env.faultless ⟨Fat16Fs.zero, ⟨formatted 16 7, 0⟩⟩).2.fs
              (formatted 16 7)).length *
            (fat16Mount Env.faultless ⟨Fat16Fs.zero,
              ⟨formatted 16 7, 0⟩⟩).2.fs.bpb.sectorsPerCluster * 512 % 2 ^ 32 / 1024) ∧
      ∀ ata, UsesUpFreeClusters
        (fat16Mount Env.faultless ⟨Fat16Fs.zero, ⟨formatted 16 7, 0⟩⟩).2.fs ata :=
  fat16_allocation_uses_up_free_clusters (by decide +kernel) (by decide +kernel)

end Dosfs.Fat16
