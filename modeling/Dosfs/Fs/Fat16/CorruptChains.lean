import Dosfs.Foundation.Walk
import Dosfs.Fs.Fat16.Reading

/-!
# Chains that run in circles

Which loops end on a FAT with arbitrary contents. Freeing a chain clears each
entry after its link was read, so a link that leads back finds a cleared entry
and the walk ends. Reading has no such safeguard: once the recorded size of the
file has been copied, only the end of the chain stops the loop.
-/

namespace Dosfs.Fat16

open Foundation

variable {env : Env} {fs : Fat16Fs} {bytes : Memory}

/-- The values that the loops over a chain take for clusters: those below 0xFF8,
whether or not the volume has such a cluster. -/
def walkKind : CellKind Nat where
  inside c := 2 ≤ c ∧ c < 0xFF8
  ended c := 0xFF8 ≤ c
  vacant c := c < 2
  not_inside_of_ended _ hend hin := by omega

instance : DecidablePred walkKind.inside := fun c => inferInstanceAs (Decidable (2 ≤ c ∧ c < 0xFF8))

theorem walkKind_not_inside_zero : ¬ walkKind.inside 0 := fun hin => absurd hin.1 (by decide)

/-! ## Freeing -/

theorem fatEntry_setFat_zero (cluster : Nat) :
    fatEntry fs (setFat fs bytes cluster 0x0000) =
      Function.update (fatEntry fs bytes) cluster 0 := by
  funext c
  rw [fatEntry_setFat, Function.update_apply]

/-- On a drive without errors, `fat16_free_cluster_chain` is a walk that clears. -/
theorem fat16FreeClusterChain_clears (fuel cluster : Nat) (ata : Ata) :
    fat16FreeClusterChain Env.faultless fs fuel cluster ata =
      (clearWalk walkKind 0 fuel cluster (fatEntry fs ata.bytes)).map fun visited =>
        ⟨zeroFat fs ata.bytes visited, ata.clock + 3 * visited.length⟩ := by
  induction fuel generalizing cluster ata with
  | zero => rfl
  | succ fuel ih =>
      rw [fat16FreeClusterChain, clearWalk]
      by_cases hcluster : 2 ≤ cluster ∧ cluster < 0xFF8
      · have hupdate : updateTrace Env.faultless fs cluster (ata.clock + 1) =
            ([cluster], ata.clock + 3) := rfl
        have hzero : zeroFat fs ata.bytes [cluster] = setFat fs ata.bytes cluster 0x0000 := rfl
        have hinside : walkKind.inside cluster := hcluster
        rw [if_pos hcluster, if_pos hinside, fat16GetNextCluster_eq]
        simp only [setNextCluster_zero, hupdate, hzero, ih, fatEntry_setFat_zero, Option.map_map]
        refine congrArg (Option.map · _) (funext fun visited => ?_)
        simp only [Function.comp_apply, List.length_cons, Ata.mk.injEq]
        exact ⟨rfl, by omega⟩
      · have houtside : ¬ walkKind.inside cluster := hcluster
        rw [if_neg hcluster, if_neg houtside]
        rfl

/-- The clusters visited from a cluster on, and what the FAT walk leaves. -/
theorem fat16FreeClusterChain_visits (fs : Fat16Fs) (cluster : Nat) (ata : Ata) :
    ∃ visited clock, (∀ c, c ∈ visited ↔ Reaches walkKind (fatEntry fs ata.bytes) cluster c) ∧
      ∀ fuel, 4088 ≤ fuel → fat16FreeClusterChain Env.faultless fs fuel cluster ata =
        some ⟨zeroFat fs ata.bytes visited, clock⟩ := by
  have hcells (c : Nat) (hc : walkKind.inside c) : c ∈ Finset.Ico 2 0xFF8 := Finset.mem_Ico.mpr hc
  -- there are 4086 numbers of clusters
  have hcard := Finset.card_filter_le (Finset.Ico 2 0xFF8)
    fun x => walkKind.inside (fatEntry fs ata.bytes x)
  rw [Nat.card_Ico] at hcard
  have hfuel : ((Finset.Ico 2 0xFF8).filter
      fun x => walkKind.inside (fatEntry fs ata.bytes x)).card + 2 ≤ 4088 := by omega
  obtain ⟨visited, hwalk, hvisited⟩ :=
    clearWalk_visits (c := cluster) walkKind_not_inside_zero hcells hfuel
  refine ⟨visited, ata.clock + 3 * visited.length, hvisited, fun fuel hle => ?_⟩
  rw [fat16FreeClusterChain_clears, clearWalk_mono hle hwalk]
  rfl

/-- Freeing ends on any FAT, and clears exactly the entries of the clusters that
the links reach. -/
theorem fat16_freeing_terminates (fs : Fat16Fs) (ata : Ata) (cluster : Nat) :
    ∃ ata', (∀ fuel, 4088 ≤ fuel →
        fat16FreeClusterChain Env.faultless fs fuel cluster ata = some ata') ∧
      (∀ c, Reaches walkKind (fatEntry fs ata.bytes) cluster c →
        fatEntry fs ata'.bytes c = 0x0000) ∧
      ∀ x, (∀ c, Reaches walkKind (fatEntry fs ata.bytes) cluster c → ¬ fs.EntryByte c x) →
        ata'.bytes x = ata.bytes x := by
  obtain ⟨visited, clock, hvisited, hfree⟩ := fat16FreeClusterChain_visits fs cluster ata
  refine ⟨_, hfree, fun c hc => ?_, fun x hx => ?_⟩
  · rw [fatEntry_zeroFat, if_pos ((hvisited c).mpr hc)]
  · refine (zeroFat_apply visited x).trans (if_neg ?_)
    rintro ⟨c, hc, hin⟩
    exact hx c ((hvisited c).mp hc) hin

/-! ## Reading -/

/-- The turn of the read loop at clock `t` with the given cluster is not its
last: the number is one of a cluster, there is memory for a buffer, and both
sector reads succeed. -/
structure TurnRuns (env : Env) (fs : Fat16Fs) (t cluster : Nat) : Prop where
  inside : walkKind.inside cluster
  memory : env.kmallocFails t = false
  data : env.fault t (.read (fs.clusterSector cluster) fs.bpb.sectorsPerCluster) = false
  fat : env.fault (t + 1) (.read (fs.fatSector cluster) 1) = false

/-- The cluster of the `k`-th turn, if the loop gets so far. -/
def nthCluster (fs : Fat16Fs) (bytes : Memory) (first k : Nat) : Nat :=
  (fatEntry fs bytes)^[k] first

theorem nthCluster_succ (first k : Nat) :
    nthCluster fs bytes first (k + 1) = nthCluster fs bytes (fatEntry fs bytes first) k :=
  Function.iterate_succ_apply _ _ _

/-- What a turn copies. -/
def turnBlock (fs : Fat16Fs) (bytes : Memory) (size maxSize cluster : Nat) (read : List UInt8) :
    List UInt8 :=
  bytes.loadList (512 * fs.clusterSector cluster)
    (min (min (size - read.length) fs.clusterSize) (maxSize - read.length))

/-- A turn that runs. -/
theorem TurnRuns.readFileLoop {t cluster size maxSize : Nat} (h : TurnRuns env fs t cluster)
    {read : List UInt8} (hread : read.length < maxSize) (fuel : Nat) :
    readFileLoop env fs size maxSize (fuel + 1) cluster read ⟨bytes, t⟩ =
      readFileLoop env fs size maxSize fuel (fatEntry fs bytes cluster)
        (read ++ turnBlock fs bytes size maxSize cluster read) ⟨bytes, t + 2⟩ :=
  readFileLoop_turn ⟨h.inside.1, h.inside.2, hread⟩ h.memory h.data h.fat

/-- A turn that does not run is the last one, or the one before the last. -/
theorem readFileLoop_last {t cluster : Nat} (h : ¬ TurnRuns env fs t cluster)
    (size maxSize : Nat) (read : List UInt8) :
    ∃ result, readFileLoop env fs size maxSize 2 cluster read ⟨bytes, t⟩ = some result := by
  rw [readFileLoop]
  split
  next hloop =>
    split
    next => exact ⟨_, rfl⟩
    next hmemory =>
      rw [fat16ReadCluster]
      cases hdata : env.fault t (.read (fs.clusterSector cluster) fs.bpb.sectorsPerCluster) with
      | true =>
          rw [ataReadSectors_fault hdata]
          exact ⟨_, rfl⟩
      | false =>
          -- the link could not be read, so it passes for an end mark
          have hfat : env.fault (t + 1) (.read (fs.fatSector cluster) 1) = true := by
            by_contra hok
            exact h ⟨⟨hloop.1, hloop.2.1⟩, by simpa using hmemory, hdata, by simpa using hok⟩
          rw [ataReadSectors_ok hdata]
          simp only [fat16GetNextCluster_eq, hfat, if_true]
          exact ⟨_, readFileLoop_stop (by omega)⟩
  next => exact ⟨_, rfl⟩

/-- While turns run and the file is shorter than the buffer, the loop goes on. -/
theorem readFileLoop_stuck {size maxSize : Nat} (hsize : size < maxSize) {fuel first t : Nat}
    {read : List UInt8} (hread : read.length ≤ size)
    (hruns : ∀ k, TurnRuns env fs (t + 2 * k) (nthCluster fs bytes first k)) :
    readFileLoop env fs size maxSize fuel first read ⟨bytes, t⟩ = none := by
  induction fuel generalizing first t read with
  | zero => rfl
  | succ fuel ih =>
      have hturn : TurnRuns env fs t first := hruns 0
      rw [hturn.readFileLoop (by omega) fuel]
      refine ih ?_ fun k => ?_
      · rw [List.length_append, turnBlock, Memory.loadList_length]
        omega
      · have hlater := hruns (k + 1)
        rw [nthCluster_succ] at hlater
        rwa [show t + 2 + 2 * k = t + 2 * (k + 1) by omega]

/-- A walk that comes to a turn that does not run ends there at the latest. -/
theorem readFileLoop_ends_of_not_runs (size maxSize : Nat) {k first t : Nat}
    (hlast : ¬ TurnRuns env fs (t + 2 * k) (nthCluster fs bytes first k)) (read : List UInt8) :
    ∃ fuel result, readFileLoop env fs size maxSize fuel first read ⟨bytes, t⟩ = some result := by
  induction k generalizing first t read with
  | zero => exact ⟨2, readFileLoop_last hlast size maxSize read⟩
  | succ k ih =>
      by_cases hturn : TurnRuns env fs t first ∧ read.length < maxSize
      · rw [nthCluster_succ, show t + 2 * (k + 1) = t + 2 + 2 * k by omega] at hlast
        obtain ⟨fuel, result, hrest⟩ :=
          ih hlast (read ++ turnBlock fs bytes size maxSize first read)
        exact ⟨fuel + 1, result, by rw [hturn.1.readFileLoop hturn.2, hrest]⟩
      · by_cases hruns : TurnRuns env fs t first
        · exact ⟨1, _, readFileLoop_stop fun h => hturn ⟨hruns, h.2.2⟩⟩
        · exact ⟨2, readFileLoop_last hruns size maxSize read⟩

/-- A file that fills the buffer is read in finitely many turns: each copies at
least one byte. -/
theorem readFileLoop_ends_of_le (hclusters : 1 ≤ fs.bpb.sectorsPerCluster) {size maxSize : Nat}
    (hsize : maxSize ≤ size) (left : Nat) {first t : Nat} {read : List UInt8}
    (hleft : maxSize - read.length ≤ left) :
    ∃ fuel result, readFileLoop env fs size maxSize fuel first read ⟨bytes, t⟩ = some result := by
  induction left generalizing first t read with
  | zero => exact ⟨1, _, readFileLoop_stop (by omega)⟩
  | succ left ih =>
      by_cases hread : read.length < maxSize
      · by_cases hruns : TurnRuns env fs t first
        · have hcluster : 1 ≤ fs.clusterSize := by
            rw [Fat16Fs.clusterSize]
            omega
          obtain ⟨fuel, result, hrest⟩ := @ih (fatEntry fs bytes first) (t + 2)
            (read ++ turnBlock fs bytes size maxSize first read) (by
              rw [List.length_append, turnBlock, Memory.loadList_length]
              omega)
          exact ⟨fuel + 1, result, by rw [hruns.readFileLoop hread, hrest]⟩
        · exact ⟨2, readFileLoop_last hruns size maxSize read⟩
      · exact ⟨1, _, readFileLoop_stop (by omega)⟩

/-- The loop ends if and only if the file fills the buffer or some turn is the
last one. -/
theorem readFileLoop_ends_iff (hclusters : 1 ≤ fs.bpb.sectorsPerCluster)
    (size maxSize first : Nat) (ata : Ata) :
    (∃ fuel result, readFileLoop env fs size maxSize fuel first [] ata = some result) ↔
      maxSize ≤ size ∨
        ∃ k, ¬ TurnRuns env fs (ata.clock + 2 * k) (nthCluster fs ata.bytes first k) := by
  constructor
  · rintro ⟨fuel, result, hresult⟩
    by_contra hnever
    rw [not_or, not_exists] at hnever
    have hstuck := @readFileLoop_stuck env fs ata.bytes _ _ (Nat.not_le.mp hnever.1) fuel first
      ata.clock [] (Nat.zero_le _) fun k => not_not.mp (hnever.2 k)
    rw [hstuck] at hresult
    cases hresult
  · rintro (hsize | ⟨k, hlast⟩)
    · exact readFileLoop_ends_of_le hclusters hsize maxSize (Nat.sub_le _ _)
    · exact readFileLoop_ends_of_not_runs size maxSize hlast []

/-- A read returns, given enough turns. -/
def ReadReturns (env : Env) (name : CString) (maxSize : Nat) (s : Fat16State) : Prop :=
  ∃ fuel result, fat16ReadFile env fuel name maxSize s = some result

theorem readReturns_iff {s : Fat16State} {name : CString} {file : Fat16File} {maxSize : Nat}
    (hmounted : s.fs.mounted = true)
    (hfile : s.fs.files.find? (Fat16File.isNamed name) = some file) :
    ReadReturns env name maxSize s ↔
      ∃ fuel result, readFileLoop env s.fs file.size maxSize fuel file.firstCluster [] s.ata =
        some result := by
  simp only [ReadReturns, fat16ReadFile, hmounted, Bool.not_true, Bool.false_eq_true, if_false,
    hfile, Option.bind_eq_bind, Option.bind_eq_some_iff]
  constructor
  · rintro ⟨fuel, result, looped, hloop, -⟩
    exact ⟨fuel, looped, hloop⟩
  · rintro ⟨fuel, looped, hloop⟩
    exact ⟨fuel, _, looped, hloop, rfl⟩

/-- A read of a file of a mounted volume returns if and only if the buffer is no
larger than the file, or the links from its first cluster on lead out of the
range of cluster numbers, or a call on the way fails. -/
theorem fat16_read_returns_iff (env : Env) {s : Fat16State} {name : CString} {file : Fat16File}
    (hmounted : s.fs.mounted = true) (hclusters : 1 ≤ s.fs.bpb.sectorsPerCluster)
    (hfile : s.fs.files.find? (Fat16File.isNamed name) = some file) (maxSize : Nat) :
    ReadReturns env name maxSize s ↔
      maxSize ≤ file.size ∨
        ∃ k, ¬ TurnRuns env s.fs (s.ata.clock + 2 * k)
          (nthCluster s.fs s.ata.bytes file.firstCluster k) := by
  rw [readReturns_iff hmounted hfile, readFileLoop_ends_iff hclusters]

/-- A small drive with one file, named A and one byte long, whose only cluster
is linked to itself. -/
def circularDrive : Memory :=
  putEntry ((formatted 16 7).storeLe (512 + 2 * 2) 2 2) 32 (fat16ParseName fileA) 1 2

def circularMount : (Int × MountMessage) × Fat16State :=
  fat16Mount Env.faultless ⟨Fat16Fs.zero, ⟨circularDrive, 0⟩⟩

theorem fat16_read_returns_iff_circular :
    ReadReturns Env.faultless fileA 1 circularMount.2 ↔
      1 ≤ (oneFile 2).size ∨
        ∃ k, ¬ TurnRuns Env.faultless circularMount.2.fs (circularMount.2.ata.clock + 2 * k)
          (nthCluster circularMount.2.fs circularMount.2.ata.bytes (oneFile 2).firstCluster k) :=
  fat16_read_returns_iff Env.faultless (by decide) (by decide) (by decide) 1

/-- With a buffer of two bytes the read never returns. -/
theorem circular_read_never_returns :
    circularMount.1.1 = 0 ∧
      circularMount.2.fs.files.find? (Fat16File.isNamed fileA) = some (oneFile 2) ∧
      ∀ fuel, fat16ReadFile Env.faultless fuel fileA 2 circularMount.2 = none := by
  have hmounted : circularMount.2.fs.mounted = true := by decide
  have hfile : circularMount.2.fs.files.find? (Fat16File.isNamed fileA) = some (oneFile 2) := by
    decide
  refine ⟨by decide, hfile, fun fuel => ?_⟩
  have hlink : fatEntry circularMount.2.fs circularMount.2.ata.bytes 2 = 2 := by decide
  have hruns (k : Nat) : TurnRuns Env.faultless circularMount.2.fs
      (circularMount.2.ata.clock + 2 * k)
      (nthCluster circularMount.2.fs circularMount.2.ata.bytes 2 k) := by
    rw [nthCluster, Function.iterate_fixed hlink]
    exact ⟨⟨by decide, by decide⟩, rfl, rfl, rfl⟩
  have hsize : (oneFile 2).size < 2 := by decide
  by_contra hreturns
  obtain ⟨result, hresult⟩ := Option.ne_none_iff_exists'.mp hreturns
  obtain ⟨fuel', looped, hloop⟩ := (readReturns_iff hmounted hfile).mp ⟨fuel, result, hresult⟩
  have hstuck : readFileLoop Env.faultless circularMount.2.fs (oneFile 2).size 2 fuel'
      (oneFile 2).firstCluster [] circularMount.2.ata = none :=
    readFileLoop_stuck hsize (Nat.zero_le _) hruns
  rw [hstuck] at hloop
  cases hloop

end Dosfs.Fat16
