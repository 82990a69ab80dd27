import Dosfs.Fs.Fat16.RoundTrip

/-!
# Reading along the FAT

What `fat16_read_file` returns for a file whose clusters form a chain, on a
drive without errors: the loop walks the chain only as far as the numbers of the
clusters stay below 0xFF8, the least end mark of a FAT12 volume, so what it
copies is a prefix of the data on that part of the chain.
-/

namespace Dosfs.Fat16

open Foundation

variable {env : Env} {fs : Fat16Fs} {bytes : Memory}

/-- The clusters of a file, from its first cluster to an end mark. A chain of a
volume with at most 65524 clusters stays below the end marks. -/
def FileChain (fs : Fat16Fs) (bytes : Memory) (first : Nat) (cells : List Nat) : Prop :=
  Chain fs.clusterKind (fatEntry fs bytes) first cells ∨
    cells = [] ∧ fs.clusterKind.ended first

theorem FileChain.ended {first : Nat} (h : FileChain fs bytes first []) :
    fs.clusterKind.ended first := by
  rcases h with hchain | ⟨-, hend⟩
  · cases hchain
  · exact hend

theorem FileChain.cons {first c : Nat} {cells : List Nat}
    (h : FileChain fs bytes first (c :: cells)) :
    first = c ∧ fs.clusterKind.inside c ∧ FileChain fs bytes (fatEntry fs bytes c) cells := by
  rcases h with hchain | ⟨hnil, -⟩
  · cases hchain with
    | last hc hend => exact ⟨rfl, hc, Or.inr ⟨rfl, hend⟩⟩
    | link hc htail => exact ⟨rfl, hc, Or.inl htail⟩
  · cases hnil

/-- The data of the listed clusters, one after the other. -/
def clusterData (fs : Fat16Fs) (bytes : Memory) (cells : List Nat) : List UInt8 :=
  cells.flatMap fun c => bytes.loadList (512 * fs.clusterSector c) fs.clusterSize

theorem clusterData_cons (c : Nat) (cells : List Nat) :
    clusterData fs bytes (c :: cells) =
      bytes.loadList (512 * fs.clusterSector c) fs.clusterSize ++ clusterData fs bytes cells :=
  List.flatMap_cons

theorem clusterData_length (cells : List Nat) :
    (clusterData fs bytes cells).length = fs.clusterSize * cells.length := by
  induction cells with
  | nil => rfl
  | cons c cells ih =>
      rw [clusterData_cons, List.length_append, ih, Memory.loadList_length, List.length_cons,
        Nat.mul_succ, Nat.add_comm]

theorem clusterData_append (cells cells' : List Nat) :
    clusterData fs bytes (cells ++ cells') =
      clusterData fs bytes cells ++ clusterData fs bytes cells' :=
  List.flatMap_append

/-- The part of a chain that the loop of `fat16_read_file` visits. -/
def visited (cells : List Nat) : List Nat := cells.takeWhile (· < 0xFF8)

/-- The number of clusters that hold the first `count` bytes of a file. -/
def Fat16Fs.clustersFor (fs : Fat16Fs) (count : Nat) : Nat :=
  (count + fs.clusterSize - 1) / fs.clusterSize

/-- The loop copies the data of the visited clusters, up to the size of the file
and the size of the buffer. -/
theorem readFileLoop_run {size maxSize fuel cluster : Nat} {read : List UInt8} {ata : Ata}
    {cells : List Nat} (hchain : FileChain fs ata.bytes cluster cells)
    (hread : read.length ≤ min size maxSize) (hfuel : cells.length < fuel) :
    ∃ clock, readFileLoop Env.faultless fs size maxSize fuel cluster read ata =
      some (read ++ (clusterData fs ata.bytes (visited cells)).take
        (min size maxSize - read.length), ⟨ata.bytes, clock⟩) := by
  induction cells generalizing fuel cluster read ata with
  | nil =>
      obtain ⟨fuel, rfl⟩ : ∃ k, fuel = k + 1 := ⟨fuel - 1, by omega⟩
      have hend : 0xFFF8 ≤ cluster := hchain.ended
      rw [readFileLoop_stop (by omega)]
      exact ⟨ata.clock, by simp [visited, clusterData]⟩
  | cons c cells ih =>
      obtain ⟨fuel, rfl⟩ : ∃ k, fuel = k + 1 := ⟨fuel - 1, by omega⟩
      obtain ⟨rfl, hinside, htail⟩ := hchain.cons
      have hlow : 2 ≤ cluster := hinside.1
      by_cases hloop : cluster < 0xFF8 ∧ read.length < maxSize
      · rw [readFileLoop_succ ⟨hlow, hloop⟩]
        generalize hblock : ata.bytes.loadList (512 * fs.clusterSector cluster)
          (min (min (size - read.length) fs.clusterSize) (maxSize - read.length)) = block
        have hlength : block.length =
            min (min size maxSize - read.length) fs.clusterSize := by
          rw [← hblock, Memory.loadList_length]
          omega
        -- the rest of the chain starts with one more block in the buffer
        obtain ⟨clock, hrun⟩ := @ih fuel (fatEntry fs ata.bytes cluster) (read ++ block)
          ⟨ata.bytes, ata.clock + 2⟩ htail (by rw [List.length_append]; omega)
          (by rw [List.length_cons] at hfuel; omega)
        refine ⟨clock, ?_⟩
        have hvisited : visited (cluster :: cells) = cluster :: visited cells := by
          simp [visited, hloop.1]
        have htake : block = (ata.bytes.loadList (512 * fs.clusterSector cluster)
            fs.clusterSize).take (min size maxSize - read.length) := by
          rw [Memory.loadList_take, ← hblock]
          congr 1
          omega
        have hleft : min size maxSize - (read ++ block).length =
            min size maxSize - read.length - fs.clusterSize := by
          rw [List.length_append]
          omega
        rw [hrun, hvisited, clusterData_cons, List.take_append, ← htake, Memory.loadList_length,
          hleft, List.append_assoc]
      · rw [readFileLoop_stop (by omega)]
        refine ⟨ata.clock, ?_⟩
        by_cases hhigh : cluster < 0xFF8
        · have hfull : min size maxSize - read.length = 0 := by omega
          rw [hfull, List.take_zero, List.append_nil]
        · simp [visited, hhigh, clusterData]

/-- What `fat16_read_file` returns for a file of the table. -/
theorem readResult_of_chain {s : Fat16State} {name : CString} {file : Fat16File} {maxSize : Nat}
    {cells : List Nat} {fuel : Nat} (hmounted : s.fs.mounted = true)
    (hfile : s.fs.files.find? (Fat16File.isNamed name) = some file)
    (hchain : FileChain s.fs s.ata.bytes file.firstCluster cells) (hfuel : cells.length < fuel) :
    readResult fuel name maxSize s =
      let buf := (clusterData s.fs s.ata.bytes (visited cells)).take (min file.size maxSize)
      some (toInt buf.length, buf) := by
  obtain ⟨clock, hrun⟩ := @readFileLoop_run s.fs file.size maxSize fuel file.firstCluster []
    s.ata cells hchain (Nat.zero_le _) hfuel
  rw [readResult_eq hmounted, hfile]
  simp only [hrun, List.nil_append, List.length_nil, Nat.sub_zero, Option.map_some]

/-! ## Exactly when a read is right -/

/-- A test holds on the first `k` elements if and only if the longest run of
elements that pass it has `k` elements. -/
private theorem le_length_takeWhile_iff {test : Nat → Bool} {cells : List Nat} {k : Nat}
    (hk : k ≤ cells.length) :
    k ≤ (cells.takeWhile test).length ↔ ∀ c ∈ cells.take k, test c = true := by
  induction cells generalizing k with
  | nil => simp [Nat.le_zero.mp hk]
  | cons c cells ih =>
      cases k with
      | zero => simp
      | succ k =>
          rw [List.take_succ_cons, List.forall_mem_cons, List.takeWhile_cons]
          cases htest : test c with
          | false => simp
          | true =>
              simp only [if_true, List.length_cons, true_and]
              rw [Nat.succ_le_succ_iff]
              exact ih (Nat.le_of_succ_le_succ hk)

theorem Fat16Fs.clustersFor_le_iff (hcluster : 0 < fs.clusterSize) (count k : Nat) :
    fs.clustersFor count ≤ k ↔ count ≤ fs.clusterSize * k := by
  rw [Fat16Fs.clustersFor, Nat.div_le_iff_le_mul_add_pred hcluster]
  omega

theorem toInt_lt (n : Nat) : toInt n < 2 ^ 31 := by
  have hlt : toInt n < (((2 ^ 32 : Nat) : Int) + 1) / 2 := Int.bmod_lt (Nat.two_pow_pos 32)
  norm_num at hlt ⊢
  exact hlt

theorem toInt_of_lt {n : Nat} (hn : n < 2 ^ 31) : toInt n = n := by
  unfold toInt
  norm_num at hn
  exact Int.bmod_eq_of_le (by omega) (by omega)

/-- `fat16_read_file` returns the number of bytes asked for and puts that prefix
of the file in the buffer. -/
def ReadsPrefix (fuel : Nat) (name : CString) (maxSize : Nat) (s : Fat16State) (file : Fat16File)
    (cells : List Nat) : Prop :=
  readResult fuel name maxSize s = some (((min file.size maxSize : Nat) : Int),
    (clusterData s.fs s.ata.bytes cells).take (min file.size maxSize))

/-- A file of a mounted volume is read right if and only if the clusters that
hold the bytes asked for have numbers below 0xFF8 and their count fits the
signed result. -/
theorem fat16_readsPrefix_iff {s : Fat16State} {name : CString} {file : Fat16File}
    {maxSize : Nat} {cells : List Nat} {fuel : Nat} (hmounted : s.fs.mounted = true)
    (hclusters : 1 ≤ s.fs.bpb.sectorsPerCluster)
    (hfile : s.fs.files.find? (Fat16File.isNamed name) = some file)
    (hchain : FileChain s.fs s.ata.bytes file.firstCluster cells)
    (henough : s.fs.clustersFor file.size ≤ cells.length) (hfuel : cells.length < fuel) :
    ReadsPrefix fuel name maxSize s file cells ↔
      (∀ c ∈ cells.take (s.fs.clustersFor (min file.size maxSize)), c < 0xFF8) ∧
        min file.size maxSize < 2 ^ 31 := by
  have hsize : 0 < s.fs.clusterSize := Nat.mul_pos hclusters (by decide)
  generalize hcount : min file.size maxSize = count
  have hcells : s.fs.clustersFor count ≤ cells.length := by
    rw [s.fs.clustersFor_le_iff hsize] at henough ⊢
    omega
  have hvisited : (∀ c ∈ cells.take (s.fs.clustersFor count), c < 0xFF8) ↔
      count ≤ s.fs.clusterSize * (visited cells).length := by
    rw [← s.fs.clustersFor_le_iff hsize, visited, le_length_takeWhile_iff hcells]
    simp only [decide_eq_true_eq]
  rw [ReadsPrefix, readResult_of_chain hmounted hfile hchain hfuel, hcount, hvisited]
  simp only [Option.some.injEq, Prod.mk.injEq, List.length_take, clusterData_length]
  constructor
  · rintro ⟨hret, hbuf⟩
    have hlt := toInt_lt (min count (s.fs.clusterSize * (visited cells).length))
    have hsmall : count < 2 ^ 31 := by omega
    rw [toInt_of_lt (by omega)] at hret
    exact ⟨by omega, hsmall⟩
  · rintro ⟨hroom, hsmall⟩
    rw [Nat.min_eq_left hroom]
    refine ⟨toInt_of_lt hsmall, ?_⟩
    -- what the loop visits is a prefix of the chain
    have hsplit : clusterData s.fs s.ata.bytes cells =
        clusterData s.fs s.ata.bytes (visited cells) ++
        clusterData s.fs s.ata.bytes (cells.dropWhile (· < 0xFF8)) := by
      rw [← clusterData_append, visited, List.takeWhile_append_dropWhile]
    rw [hsplit, List.take_append_of_le_length (by rwa [clusterData_length])]

/-- 1050 of the 1100 bytes of a file in three clusters. -/
theorem fat16_readsPrefix_iff_scattered :
    ReadsPrefix 65536 ⟨[0x41], by simp⟩ 1050 scatteredState
        ⟨⟨[0x41], by simp⟩, 1100, 2, 0x20, true⟩ [2, 5, 3] ↔
      (∀ c ∈ [2, 5, 3].take (scatteredState.fs.clustersFor (min 1100 1050)), c < 0xFF8) ∧
        min 1100 1050 < 2 ^ 31 := by
  have hfirst : entryFirstCluster scatteredState.ata.bytes 32 = 2 := by
    rw [scatteredState_bytes]
    decide
  exact fat16_readsPrefix_iff (by rw [scatteredState_fs]) (by rw [scatteredState_fs])
    (by rw [scatteredState_fs]; decide) (Or.inl (hfirst ▸ scatteredState_chain))
    (by rw [scatteredState_fs]; decide) (by decide)

/-! ## A file in cluster 0xFF8 -/

def fileA : CString := ⟨[0x41], by simp only [List.mem_singleton, forall_eq]; decide⟩

/-- A drive with 4181 clusters and one file, named A and one byte long. -/
def oneFileDrive (cluster : Nat) : Memory :=
  let blank := (formatted 16 4200).storeLe 22 2 17
  let linked := blank.storeLe (512 + 2 * cluster) 2 0xFFFF
  putEntry linked 288 (fat16ParseName fileA) 1 cluster

/-- What mounting that drive gives. -/
def oneFileMount (cluster : Nat) : (Int × MountMessage) × Fat16State :=
  fat16Mount Env.faultless ⟨Fat16Fs.zero, ⟨oneFileDrive cluster, 0⟩⟩

def oneFile (cluster : Nat) : Fat16File := ⟨fileA, 1, cluster, 0x20, true⟩

/-- A file whose only cluster is 0xFF8 reads as empty. -/
theorem not_readsPrefix_cluster_0xFF8 :
    (oneFileMount 0xFF8).1.1 = 0 ∧ (oneFileMount 0xFF8).2.fs.totalClusters ≤ 65524 ∧
      (oneFileMount 0xFF8).2.fs.files.find? (Fat16File.isNamed fileA) = some (oneFile 0xFF8) ∧
      FileChain (oneFileMount 0xFF8).2.fs (oneFileMount 0xFF8).2.ata.bytes 0xFF8 [0xFF8] ∧
      (oneFileMount 0xFF8).2.fs.clustersFor 1 ≤ 1 ∧
      readResult 65536 fileA 1 (oneFileMount 0xFF8).2 = some (0, []) ∧
      ¬ ReadsPrefix 65536 fileA 1 (oneFileMount 0xFF8).2 (oneFile 0xFF8) [0xFF8] := by
  have hread : readResult 65536 fileA 1 (oneFileMount 0xFF8).2 = some (0, []) := by
    decide
  refine ⟨by decide, by decide, by decide, Or.inl (.last ?_ ?_),
    by decide, hread, ?_⟩
  · exact ⟨by decide, by decide, by decide⟩
  · change 0xFFF8 ≤ fatEntry (oneFileMount 0xFF8).2.fs (oneFileMount 0xFF8).2.ata.bytes 0xFF8
    decide
  · rw [ReadsPrefix, hread]
    decide

end Dosfs.Fat16
