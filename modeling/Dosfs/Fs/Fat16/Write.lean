import Dosfs.Fs.Fat16.Directory

/-!
# Writing a file

`fat16_write_file` first deletes the file, then allocates and fills clusters and
finally enters the file in the directory. `fat16_write_cluster` answers with the
number of bytes it wrote while its caller takes every answer but zero for a
failure, so a write of at least one byte always ends in the rollback, after its
first cluster.
-/

namespace Dosfs.Fat16

open Foundation

variable {env : Env} {fs : Fat16Fs} {ata : Ata}

/-- What `fat16_write_file` does after the deletion. -/
inductive Stores (env : Env) (name : CString) (data : List UInt8) (s : Fat16State) :
    Int → Fat16State → Prop
  | refused (clock : Nat) (hdata : data ≠ []) :
      Stores env name data s (-1) { s with ata := ⟨s.ata.bytes, clock⟩ }
  | rolledBack (cluster clock : Nat) (written : Memory) (freed : List Nat) (hdata : data ≠ [])
      (hinside : s.fs.clusterKind.inside cluster) (hfree : fatEntry s.fs s.ata.bytes cluster = 0)
      (hwritten : ∀ x < 512 * s.fs.dataStart,
        written x = setFat s.fs s.ata.bytes cluster 0xFFFF x)
      (hfreed : ∀ c ∈ freed, c = cluster) :
      Stores env name data s (-1) { s with ata := ⟨zeroFat s.fs written freed, clock⟩ }
  | entered (first clock : Nat) (allocated : Memory) (ret : Int) (s' : Fat16State)
      (hdata : data = []) (hfirst : Allocated s.fs s.ata.bytes first allocated)
      (henters : Enters env name 0 first { s with ata := ⟨allocated, clock⟩ } ret s') :
      Stores env name data s ret s'

/-- Whatever there is to write, the loop makes at least one turn. -/
theorem neededClusters_pos (fs : Fat16Fs) (size : Nat) : 0 < neededClusters fs size := by
  unfold neededClusters
  dsimp only
  split_ifs with hzero
  · exact Nat.one_pos
  · exact Nat.pos_of_ne_zero hzero

theorem neededClusters_zero (fs : Fat16Fs) : neededClusters fs 0 = 1 := by
  have hmod : (0 + fs.clusterSize - 1) % 2 ^ 32 / fs.clusterSize = 0 := by
    rcases Nat.eq_zero_or_pos fs.clusterSize with hzero | hpos
    · simp [hzero]
    · apply Nat.div_eq_of_lt
      have hle := Nat.mod_le (0 + fs.clusterSize - 1) (2 ^ 32)
      omega
  rw [neededClusters]
  exact if_pos hmod

/-- With something to write, the loop fails in its first turn. -/
theorem writeFileLoop_fails (env : Env) (hlayout : Layout fs) (data : List UInt8) {first : Nat}
    (hfirst : 2 ≤ first) {size : Nat} (hsize : 0 < size) {todo : Nat} (htodo : 0 < todo)
    (ata : Ata) :
    ∃ ata', writeFileLoop env fs data first todo 0 first size 0 ata = (true, ata') ∧
      ∀ x, ¬ fs.ClusterByte first x → ata'.bytes x = ata.bytes x := by
  obtain ⟨todo, rfl⟩ : ∃ k, todo = k + 1 := ⟨todo - 1, by omega⟩
  have hcluster : 0 < fs.clusterSize := by
    have hspc := hlayout.sectorsPerCluster
    rw [Fat16Fs.clusterSize]
    omega
  have hwrite : 0 < if size < fs.clusterSize then size else fs.clusterSize := by
    split_ifs <;> omega
  have hne := fat16WriteCluster_ne_zero env hlayout first (data.drop 0) hwrite ata
  refine ⟨(fat16WriteCluster env fs first (data.drop 0)
    (if size < fs.clusterSize then size else fs.clusterSize) ata).2, ?_,
    fun x hx => fat16WriteCluster_bytes _ _ _ _ hx⟩
  simp only [writeFileLoop, if_true, Nat.lt_irrefl, false_and, if_false, Nat.not_lt.mpr hfirst,
    ne_eq, hne, not_false_eq_true]

/-- An empty file gets its cluster, if there is one, and nothing is written. -/
theorem writeFileLoop_empty (first : Nat) (ata : Ata) :
    writeFileLoop env fs [] first 1 0 first 0 0 ata = (decide (first < 2), ata) := by
  by_cases hfirst : first < 2
  · simp [writeFileLoop, hfirst]
  · have hzero : (if 0 < fs.clusterSize then 0 else fs.clusterSize) = 0 := by
      split_ifs <;> omega
    simp [writeFileLoop, hfirst, hzero, fat16WriteCluster_empty]

/-- Taking a cluster leaves the directory alone. -/
theorem Allocated.sameSlot {bytes bytes' : Memory} {first slot : Nat} (hlayout : Layout fs)
    (h : Allocated fs bytes first bytes') (hslot : fs.InRoot slot) :
    SameSlot bytes' bytes slot := by
  rcases h with ⟨-, rfl⟩ | ⟨hinside, -, rfl⟩
  · exact fun _ _ _ => rfl
  · exact sameSlot_setFat hlayout hinside hslot

/-- Nor does it change another entry of the FAT. -/
theorem Allocated.fatEntry_of_ne {bytes bytes' : Memory} {first c : Nat}
    (h : Allocated fs bytes first bytes') (hne : c ≠ first) :
    fatEntry fs bytes' c = fatEntry fs bytes c := by
  rcases h with ⟨-, rfl⟩ | ⟨-, -, rfl⟩
  · rfl
  · rw [fatEntry_setFat, if_neg hne]

/-- An empty file is entered with the cluster that was taken, or with none. -/
theorem Allocated.orZero {bytes bytes' : Memory} {cluster : Nat}
    (h : Allocated fs bytes cluster bytes') :
    Allocated fs bytes (if cluster < 2 then 0 else cluster) bytes' := by
  rcases h with ⟨hzero, hbytes⟩ | ⟨hinside, hrest⟩
  · rw [hzero, if_pos (by decide)]
    exact Or.inl ⟨rfl, hbytes⟩
  · rw [if_neg (Nat.not_lt.mpr hinside.1)]
    exact Or.inr ⟨hinside, hrest⟩

/-- The part of `fat16_write_file` that follows the deletion. -/
theorem fat16WriteFile_stores (env : Env) {chains : Nat → List Nat} {s : Fat16State}
    (hlayout : Layout s.fs) (hchained : Chained s.fs s.ata.bytes chains) {name : CString}
    (hname : name.bytes.head? ≠ some 0xE5) (data : List UInt8) {fuel : Nat}
    (hfuel : 65536 ≤ fuel) :
    ∃ ret₁ s₁ ret s', Deletes env name chains s ret₁ s₁ ∧ Stores env name data s₁ ret s' ∧
      fat16WriteFile env fuel name data s = some (ret, s') := by
  obtain ⟨ret₁, s₁, hdelete, hdeletes⟩ := fat16DeleteFile_deletes env hlayout hchained hname hfuel
  -- deleting changes the table of the driver but not the geometry
  have hlayout₁ : Layout s₁.fs := by
    cases hdeletes with
    | missing => exact hlayout
    | unmarked => exact hlayout
    | marked => exact hlayout.with_files _
  refine ⟨ret₁, s₁, ?_⟩
  unfold fat16WriteFile
  rw [hlayout.mounted]
  simp only [Bool.not_true, Bool.false_eq_true, if_false, hdelete, Option.bind_eq_bind,
    Option.bind_some]
  have hallocated := fat16AllocateCluster_allocated env hlayout₁ s₁.ata
  rcases hcluster : fat16AllocateCluster env s₁.fs s₁.ata with ⟨cluster, ata⟩
  rw [hcluster] at hallocated
  by_cases hdata : data = []
  · subst hdata
    have hfailed (first : Nat) : ¬ (decide (first < 2) = true ∧ 2 ≤ first) := by
      simp only [decide_eq_true_eq]
      omega
    simp only [List.length_nil, Nat.lt_irrefl, and_false, if_false, neededClusters_zero,
      writeFileLoop_empty, hfailed]
    exact ⟨_, _, hdeletes, .entered _ _ _ _ _ rfl hallocated.orZero (createEntry_enters ..), rfl⟩
  · have hlength : 0 < data.length := List.length_pos_of_ne_nil hdata
    rcases hallocated with ⟨hzero, hbytes⟩ | ⟨hinside, hfree, hbytes⟩
    · have hzero : cluster = 0 := hzero
      subst hzero
      simp only [hlength, Nat.zero_lt_succ, and_self, if_true]
      refine ⟨_, _, hdeletes, ?_, rfl⟩
      have hstate : ata = ⟨s₁.ata.bytes, ata.clock⟩ := by
        rw [← hbytes]
      rw [hstate]
      exact .refused _ hdata
    · have hlow : 2 ≤ cluster := hinside.1
      obtain ⟨ata', hloop, hsame⟩ := writeFileLoop_fails env hlayout₁ data hlow hlength
        (neededClusters_pos s₁.fs data.length) ata
      have hwritten : ∀ x < 512 * s₁.fs.dataStart,
          ata'.bytes x = setFat s₁.fs s₁.ata.bytes cluster 0xFFFF x := by
        intro x hx
        rw [hsame x (s₁.fs.not_clusterByte_of_lt cluster hx), hbytes]
      have hchain := chain_single hinside
        (fatEntry_of_setFat hlayout₁ hinside (by decide) hwritten)
      have hroll : fat16FreeClusterChain env s₁.fs fuel cluster ata' = _ :=
        fat16FreeClusterChain_eq hchain (by simp; omega)
      simp only [Nat.not_lt.mpr hlow, false_and, if_false, hloop, hlow, and_self, if_true, hroll,
        Option.bind_some]
      refine ⟨_, _, hdeletes, .rolledBack cluster _ _ _ hdata hinside hfree hwritten ?_, rfl⟩
      exact fun c hc => List.mem_singleton.mp (freeTrace_subset hc)

end Dosfs.Fat16
