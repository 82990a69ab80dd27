import Dosfs.Fs.Fat16.Allocation
import Dosfs.Fs.Fat16.Deleting

/-!
# Failed writes

Which writes that return -1 leave a volume as it was. A write deletes the file
first and takes one cluster before it can fail, and neither step is undone
completely: the deletion stays, a cluster from 0xFF8 on is not given back, and
nothing is given back when the directory has no room for the entry.
-/

namespace Dosfs.Fat16

open Foundation

variable {env : Env} {fs : Fat16Fs} {bytes bytes₁ bytes' : Memory} {name : CString}

/-- The byte belongs to the FAT, to the root directory or to a cluster in use. -/
def Fat16Fs.InUse (fs : Fat16Fs) (bytes : Memory) (x : Nat) : Prop :=
  (512 * fs.fatStart ≤ x ∧ x < 512 * fs.dataStart) ∨
    ∃ c, fs.clusterKind.inside c ∧ fatEntry fs bytes c ≠ 0x0000 ∧ fs.ClusterByte c x

/-- The table of the driver and every byte in use are as before. -/
structure Unchanged (s s' : Fat16State) : Prop where
  fs : s'.fs = s.fs
  bytes : ∀ x, s.fs.InUse s.ata.bytes x → s'.ata.bytes x = s.ata.bytes x

/-- The write returns, and if it fails it changes nothing. -/
def FailsCleanly (fuel : Nat) (name : CString) (data : List UInt8) (s : Fat16State) : Prop :=
  ∃ ret s', fat16WriteFile Env.faultless fuel name data s = some (ret, s') ∧
    (ret = -1 → Unchanged s s')

/-! ## Free entries -/

theorem Layout.inUse_of_entryByte (hlayout : Layout fs) {c x : Nat}
    (hc : fs.clusterKind.inside c) (hx : fs.EntryByte c x) : fs.InUse bytes x := by
  have haddr := hlayout.fatAddr_lt hc
  have hdata := hlayout.dataStart
  have hlow := hx.1
  have hhigh := hx.2
  exact Or.inl ⟨by omega, by omega⟩

/-- Both bytes of a free entry are zero. -/
theorem eq_zero_of_entryByte {c x : Nat} (hfree : fatEntry fs bytes c = 0x0000)
    (hx : fs.EntryByte c x) : bytes x = 0 := by
  have hlow := hx.1
  have hhigh := hx.2
  simp only [fatEntry, Memory.loadLe] at hfree
  rw [← UInt8.toNat_inj]
  by_cases heq : x = 512 * fs.fatStart + 2 * c
  · rw [heq]
    simp only [UInt8.toNat_zero]
    omega
  · rw [show x = 512 * fs.fatStart + 2 * c + 1 by omega]
    simp only [UInt8.toNat_zero]
    omega

theorem fatEntry_eq_of_unchanged (hlayout : Layout fs)
    (hsame : ∀ x, 512 * fs.fatStart ≤ x → x < 512 * fs.dataStart → bytes₁ x = bytes x) {c : Nat}
    (hc : fs.clusterKind.inside c) : fatEntry fs bytes₁ c = fatEntry fs bytes c := by
  have haddr := hlayout.fatAddr_lt hc
  have hdata := hlayout.dataStart
  exact Memory.loadLe_congr fun x hlow hhigh => hsame x (by omega) (by omega)

theorem freeClusters_eq_of_unchanged (hlayout : Layout fs)
    (hsame : ∀ x, 512 * fs.fatStart ≤ x → x < 512 * fs.dataStart → bytes₁ x = bytes x) :
    freeClusters fs bytes₁ = freeClusters fs bytes := by
  have htotal := hlayout.totalClusters
  refine List.filter_congr fun c _ => ?_
  rw [Bool.eq_iff_iff, decide_eq_true_iff, decide_eq_true_iff, Fat16Fs.IsFree, Fat16Fs.IsFree]
  refine and_congr_right fun hlow => and_congr_right fun hhigh => ?_
  rw [fatEntry_eq_of_unchanged hlayout hsame ⟨hlow, hhigh, by omega⟩]

/-- While the FAT is unchanged, no byte in use belongs to a free cluster. -/
theorem not_clusterByte_of_inUse (hlayout : Layout fs)
    (hsame : ∀ x, 512 * fs.fatStart ≤ x → x < 512 * fs.dataStart → bytes₁ x = bytes x) {c x : Nat}
    (hfree : c ∈ freeClusters fs bytes₁) (hx : fs.InUse bytes x) : ¬ fs.ClusterByte c x := by
  rcases hx with ⟨-, hhigh⟩ | ⟨c', hin', hused, hbyte'⟩
  · exact fs.not_clusterByte_of_lt c hhigh
  · intro hbyte
    obtain ⟨-, hlow, -, hzero⟩ := mem_freeClusters.mp hfree
    obtain rfl := hbyte.unique hlow hin'.1 hbyte'
    rw [fatEntry_eq_of_unchanged hlayout hsame hin'] at hzero
    exact hused hzero

/-! ## Deleting -/

/-- There is nothing to delete: the first slot with the name, if any, is marked
as deleted already, what its first cluster reaches is free as far as it is in
use at all, and the table has no file of that name. The sector of the slot is
written back as it was read. -/
def NothingToDelete (name : CString) (s : Fat16State) : Prop :=
  ∀ slot, FirstNamed s.fs s.ata.bytes name slot →
    entryHead s.ata.bytes slot = 0xE5 ∧
      (∀ c x, Reaches walkKind (fatEntry s.fs s.ata.bytes) (entryFirstCluster s.ata.bytes slot) c →
        s.fs.EntryByte c x → s.fs.InUse s.ata.bytes x → x / 512 ≠ slot / 16 →
          s.ata.bytes x = 0) ∧
      ∀ file ∈ s.fs.files, file.isNamed name = false

theorem dropFile_eq_self_iff {files : List Fat16File} :
    dropFile name files = files ↔ ∀ file ∈ files, file.isNamed name = false := by
  induction files with
  | nil => simp [dropFile]
  | cons file rest ih =>
      rw [dropFile, List.forall_mem_cons]
      split
      next hnamed =>
        have hused : file.used = true := by
          rw [Fat16File.isNamed, Bool.and_eq_true] at hnamed
          exact hnamed.1
        refine iff_of_false (fun heq => ?_) (fun hnot => by simp [hnamed] at hnot)
        have hfile := congrArg Fat16File.used (List.cons.inj heq).1
        rw [hused] at hfile
        cases hfile
      next hnot =>
        rw [List.cons_inj_right, ih]
        exact (and_iff_right (by simpa using hnot)).symm

/-- Deleting a slot leaves the bytes in use alone if and only if it was marked
and the clusters it reaches were free. -/
theorem deletedBytes_unchanged_iff (hlayout : Layout fs) {slot : Nat} (hslot : fs.InRoot slot)
    {visited : List Nat} :
    (∀ x, fs.InUse bytes x → deletedBytes fs bytes slot visited x = bytes x) ↔
      entryHead bytes slot = 0xE5 ∧
        ∀ c x, c ∈ visited → fs.EntryByte c x → fs.InUse bytes x → x / 512 ≠ slot / 16 →
          bytes x = 0 := by
  have hroot := hslot.1
  have hend := hlayout.fatEnd_le
  have haddr := hlayout.slotAddr_lt hslot
  constructor
  · intro hsame
    refine ⟨?_, fun c x hc hx huse hsector => ?_⟩
    · rw [entryHead, ← hsame (32 * slot) (Or.inl ⟨by omega, by omega⟩)]
      exact deletedBytes_mark visited
    · rw [← hsame x huse, deletedBytes_of_outside hsector, zeroFat_apply, if_pos ⟨c, hc, hx⟩]
  · rintro ⟨hmark, hzero⟩ x huse
    by_cases hsector : x / 512 = slot / 16
    · by_cases heq : x = 32 * slot
      · rw [heq, deletedBytes_mark]
        exact hmark.symm
      · exact deletedBytes_of_sector hsector heq visited
    · rw [deletedBytes_of_outside hsector, zeroFat_apply]
      split
      next hfreed =>
        obtain ⟨c, hc, hx⟩ := hfreed
        exact (hzero c x hc hx huse hsector).symm
      next => rfl

/-- What the rest of a write has to know about the deletion. -/
theorem deletion_unchanged_iff {s : Fat16State} (hlayout : Layout s.fs) (name : CString)
    {fuel : Nat} (hfuel : 4088 ≤ fuel) :
    ∃ ret files bytes clock, fat16DeleteFile Env.faultless fuel name s =
        some (ret, ⟨{ s.fs with files }, ⟨bytes, clock⟩⟩) ∧
      ((files = s.fs.files ∧ ∀ x, s.fs.InUse s.ata.bytes x → bytes x = s.ata.bytes x) ↔
        NothingToDelete name s) ∧
      ∀ c, 0xFF8 ≤ c → s.fs.clusterKind.inside c →
        fatEntry s.fs bytes c = fatEntry s.fs s.ata.bytes c := by
  rcases fat16DeleteFile_faultless hlayout.mounted name hfuel with
    ⟨hnone, clock, hdelete⟩ | ⟨slot, visited, clock, hnamed, hvisited, hdelete⟩
  · refine ⟨_, _, _, clock, hdelete, iff_of_true ⟨rfl, fun _ _ => rfl⟩ ?_, fun _ _ _ => rfl⟩
    exact fun slot hnamed => absurd hnamed.named (hnone slot hnamed.inRoot)
  · refine ⟨_, _, _, clock, hdelete, ?_, fun c hhigh hin => ?_⟩
    · rw [dropFile_eq_self_iff, deletedBytes_unchanged_iff hlayout hnamed.inRoot]
      constructor
      · rintro ⟨hfiles, hmark, hzero⟩ slot' hnamed'
        obtain rfl := hnamed.unique hnamed'
        exact ⟨hmark, fun c x hc => hzero c x ((hvisited c).mpr hc), hfiles⟩
      · intro hnothing
        obtain ⟨hmark, hzero, hfiles⟩ := hnothing slot hnamed
        exact ⟨hfiles, hmark, fun c x hc => hzero c x ((hvisited c).mp hc)⟩
    · have haddr := hlayout.fatAddr_lt hin
      have hroot := hnamed.inRoot.1
      have hzero : fatEntry s.fs (deletedBytes s.fs s.ata.bytes slot visited) c =
          fatEntry s.fs (zeroFat s.fs s.ata.bytes visited) c :=
        Memory.loadLe_congr fun x _ hx => deletedBytes_of_outside (by omega) visited
      rw [hzero, fatEntry_zeroFat, if_neg]
      intro hmem
      have hlow := ((hvisited c).mp hmem).inside.2
      omega

/-! ## Storing -/

/-- The part of `fat16_write_file` that follows the deletion. -/
def storeFile (env : Env) (fuel : Nat) (name : CString) (data : List UInt8) (s : Fat16State) :
    Option (Int × Fat16State) := do
  let size := data.length
  let (cluster, ata) := fat16AllocateCluster env s.fs s.ata
  if cluster < 2 ∧ 0 < size then return (-1, { s with ata })
  else
    let firstCluster := if cluster < 2 then 0 else cluster
    let (writeFailed, ata) := writeFileLoop env s.fs data firstCluster
      (neededClusters s.fs size) 0 firstCluster size 0 ata
    if writeFailed ∧ 2 ≤ firstCluster then
      let ata ← fat16FreeClusterChain env s.fs fuel firstCluster ata
      return (-1, { s with ata })
    else return createEntry env name size firstCluster { s with ata }

theorem fat16WriteFile_eq {s s₁ : Fat16State} {fuel : Nat} {ret₁ : Int} (data : List UInt8)
    (hmounted : s.fs.mounted = true)
    (hdelete : fat16DeleteFile env fuel name s = some (ret₁, s₁)) :
    fat16WriteFile env fuel name data s = storeFile env fuel name data s₁ := by
  rw [fat16WriteFile, hmounted, hdelete]
  rfl

/-- What a write of data leaves of the volume it found after the deletion: apart
from the sectors of the first free cluster only the entry of that cluster can
differ, which stays taken from 0xFF8 on. -/
def Abandoned (fs : Fat16Fs) (bytes₁ bytes' : Memory) : Prop :=
  ∀ x, (∀ c ∈ (freeClusters fs bytes₁).head?, ¬ fs.ClusterByte c x) →
    bytes' x = if ∃ c ∈ (freeClusters fs bytes₁).head?, 0xFF8 ≤ c ∧ fs.EntryByte c x then 0xFF
      else bytes₁ x

theorem setFat_eof_apply (c x : Nat) :
    setFat fs bytes c 0xFFFF x = if fs.EntryByte c x then 0xFF else bytes x := by
  simpa [endFat] using @endFat_apply fs bytes [c] x

/-- Freeing a chain of one cluster. -/
theorem fat16FreeClusterChain_single {c fuel : Nat} {ata : Ata} (hin : fs.clusterKind.inside c)
    (hend : fatEntry fs ata.bytes c = 0xFFFF) (hfuel : 2 ≤ fuel) :
    ∃ clock, fat16FreeClusterChain Env.faultless fs fuel c ata =
      some ⟨zeroFat fs ata.bytes (visited [c]), clock⟩ := by
  have hchain := chain_single hin hend
  have htrace : (freeTrace Env.faultless fs [c] ata.clock).1 = visited [c] := by
    by_cases hlow : c < 0xFF8 <;> simp [freeTrace, updateTrace, Env.faultless, visited, hlow]
  refine ⟨(freeTrace Env.faultless fs [c] ata.clock).2, ?_⟩
  rw [fat16FreeClusterChain_eq hchain hfuel, htrace]

/-- With something to write, the write fails. -/
theorem storeFile_abandons {s : Fat16State} (hlayout : Layout s.fs) {data : List UInt8}
    (hdata : data ≠ []) (name : CString) {fuel : Nat} (hfuel : 2 ≤ fuel) :
    ∃ bytes' clock, storeFile Env.faultless fuel name data s =
        some (-1, { s with ata := ⟨bytes', clock⟩ }) ∧
      Abandoned s.fs s.ata.bytes bytes' := by
  have htotal := hlayout.totalClusters
  have hlength : 0 < data.length := List.length_pos_of_ne_nil hdata
  obtain ⟨clock, halloc⟩ := @fat16AllocateCluster_faultless s.fs (by omega) s.ata
  unfold Abandoned storeFile
  rw [halloc]
  cases hhead : (freeClusters s.fs s.ata.bytes).head? with
  | none =>
      refine ⟨s.ata.bytes, clock, ?_, fun x _ => by simp⟩
      simp only [allocated, hlength, Nat.zero_lt_two, and_self, if_true]
      rfl
  | some c =>
      have hfree := (mem_freeClusters.mp (List.mem_of_head? hhead)).2
      have hin := hlayout.inside_of_isFree hfree
      obtain ⟨ata', hloop, hsame⟩ := writeFileLoop_fails Env.faultless hlayout data hfree.1 hlength
        (neededClusters_pos s.fs data.length) ⟨setFat s.fs s.ata.bytes c 0xFFFF, clock⟩
      have hend : fatEntry s.fs ata'.bytes c = 0xFFFF :=
        fatEntry_of_setFat hlayout hin (by decide)
          fun x hx => hsame x (s.fs.not_clusterByte_of_lt c hx)
      obtain ⟨clock', hroll⟩ := fat16FreeClusterChain_single hin hend hfuel
      refine ⟨zeroFat s.fs ata'.bytes (visited [c]), clock', ?_, fun x hx => ?_⟩
      · simp only [allocated, Nat.not_lt.mpr hfree.1, false_and, if_false, hloop, hfree.1, and_self,
          if_true, hroll]
        rfl
      · have hout : ¬ s.fs.ClusterByte c x := hx c rfl
        have hcell : (∃ c' ∈ some c, 0xFF8 ≤ c' ∧ s.fs.EntryByte c' x) ↔
            0xFF8 ≤ c ∧ s.fs.EntryByte c x := by simp
        simp only [zeroFat_apply, hsame x hout, setFat_eof_apply, hcell]
        by_cases hbyte : s.fs.EntryByte c x
        · -- the entry was zero before it was taken
          have hzero := eq_zero_of_entryByte hfree.2.2 hbyte
          by_cases hlow : c < 0xFF8
          · simp [visited, hbyte, hlow, hzero]
          · simp [visited, hbyte, hlow, Nat.not_lt.mp hlow]
        · have hkept : ¬ ∃ c' ∈ visited [c], s.fs.EntryByte c' x := by
            rintro ⟨c', hc', hbyte'⟩
            rw [List.mem_singleton.mp ((List.takeWhile_prefix _).subset hc')] at hbyte'
            exact hbyte hbyte'
          rw [if_neg hkept, if_neg hbyte, if_neg fun h => hbyte h.2]

/-- The bytes in use are those from before the deletion if and only if the
deletion changed nothing and the abandoned cluster is given back. -/
theorem Abandoned.unchanged_iff (hlayout : Layout fs) (h : Abandoned fs bytes₁ bytes')
    (hhigh : ∀ c, 0xFF8 ≤ c → fs.clusterKind.inside c →
      fatEntry fs bytes₁ c = fatEntry fs bytes c) :
    (∀ x, fs.InUse bytes x → bytes' x = bytes x) ↔
      (∀ x, fs.InUse bytes x → bytes₁ x = bytes x) ∧
        ∀ c ∈ (freeClusters fs bytes₁).head?, c < 0xFF8 := by
  have hfree {c : Nat} (hc : c ∈ (freeClusters fs bytes₁).head?) :=
    mem_freeClusters.mp (List.mem_of_mem_head? hc)
  -- below 0xFF8 the write leaves what the deletion left
  have hback (hlow : ∀ c ∈ (freeClusters fs bytes₁).head?, c < 0xFF8) {x : Nat}
      (hx : ∀ c ∈ (freeClusters fs bytes₁).head?, ¬ fs.ClusterByte c x) : bytes' x = bytes₁ x := by
    rw [h x hx, if_neg]
    rintro ⟨c, hc, hle, -⟩
    exact absurd (hlow c hc) (Nat.not_lt.mpr hle)
  constructor
  · intro hsame
    have hlow : ∀ c ∈ (freeClusters fs bytes₁).head?, c < 0xFF8 := by
      intro c hc
      by_contra hle
      rw [Nat.not_lt] at hle
      have hin := hlayout.inside_of_isFree (hfree hc).2
      have hbyte : fs.EntryByte c (512 * fs.fatStart + 2 * c) := ⟨Nat.le_refl _, by omega⟩
      have hdata : 512 * fs.fatStart + 2 * c < 512 * fs.dataStart := by
        have haddr := hlayout.fatAddr_lt hin
        have hstart := hlayout.dataStart
        omega
      have htaken := h _ fun c' _ => fs.not_clusterByte_of_lt c' hdata
      rw [if_pos ⟨c, hc, hle, hbyte⟩, hsame _ (hlayout.inUse_of_entryByte hin hbyte)] at htaken
      rw [eq_zero_of_entryByte ((hhigh c hle hin).symm.trans (hfree hc).2.2.2) hbyte] at htaken
      exact absurd htaken (by decide)
    have hregion : ∀ x, 512 * fs.fatStart ≤ x → x < 512 * fs.dataStart → bytes₁ x = bytes x := by
      intro x hstart hend
      rw [← hback hlow fun c _ => fs.not_clusterByte_of_lt c hend]
      exact hsame x (Or.inl ⟨hstart, hend⟩)
    refine ⟨fun x hx => ?_, hlow⟩
    rw [← hback hlow fun c hc => not_clusterByte_of_inUse hlayout hregion
      (List.mem_of_mem_head? hc) hx]
    exact hsame x hx
  · rintro ⟨hsame, hlow⟩ x hx
    rw [hback hlow fun c hc => not_clusterByte_of_inUse hlayout
      (fun x hstart hend => hsame x (Or.inl ⟨hstart, hend⟩)) (List.mem_of_mem_head? hc) hx]
    exact hsame x hx

/-- A write of data always fails; it changes nothing if and only if there is
nothing to delete and the first free cluster, if any, lies below 0xFF8. -/
theorem fat16WriteFile_data {s : Fat16State} (hlayout : Layout s.fs) {data : List UInt8}
    (hdata : data ≠ []) (name : CString) {fuel : Nat} (hfuel : 4088 ≤ fuel) :
    ∃ s', fat16WriteFile Env.faultless fuel name data s = some (-1, s') ∧
      (Unchanged s s' ↔
        NothingToDelete name s ∧ ∀ c ∈ (freeClusters s.fs s.ata.bytes).head?, c < 0xFF8) := by
  obtain ⟨ret₁, files, bytes₁, clock₁, hdelete, hnothing, hhigh⟩ :=
    deletion_unchanged_iff hlayout name hfuel
  obtain ⟨bytes', clock, hstore, habandoned⟩ :=
    @storeFile_abandons ⟨{ s.fs with files }, ⟨bytes₁, clock₁⟩⟩ (hlayout.with_files files) data
      hdata name fuel (by omega)
  have habandoned : Abandoned s.fs bytes₁ bytes' := habandoned
  have hsame := habandoned.unchanged_iff hlayout hhigh
  refine ⟨_, (fat16WriteFile_eq data hlayout.mounted hdelete).trans hstore, ?_⟩
  have hunchanged : Unchanged s ⟨{ s.fs with files }, ⟨bytes', clock⟩⟩ ↔
      files = s.fs.files ∧ ∀ x, s.fs.InUse s.ata.bytes x → bytes' x = s.ata.bytes x := by
    constructor
    · rintro ⟨hfs, hbytes⟩
      exact ⟨congrArg Fat16Fs.files hfs, hbytes⟩
    · rintro ⟨rfl, hbytes⟩
      exact ⟨rfl, hbytes⟩
  rw [hunchanged, hsame, ← hnothing, and_assoc]
  refine and_congr_right fun _ => and_congr_right fun hsame => ?_
  rw [freeClusters_eq_of_unchanged hlayout fun x hlow hhigh => hsame x (Or.inl ⟨hlow, hhigh⟩)]

/-! ## Empty files -/

/-- Without data only a full directory makes the write fail, and it keeps the
cluster it took. -/
theorem storeFile_nil {s : Fat16State} (hlayout : Layout s.fs) (name : CString) (fuel : Nat) :
    ((∃ slot, s.fs.InRoot slot ∧ ¬ IsLive s.ata.bytes slot) ∧
      ∃ s', storeFile Env.faultless fuel name [] s = some (0, s')) ∨
    ((∀ slot, s.fs.InRoot slot → IsLive s.ata.bytes slot) ∧
      ∃ clock, storeFile Env.faultless fuel name [] s = some (-1, { s with ata :=
        ⟨(freeClusters s.fs s.ata.bytes).head?.elim s.ata.bytes
          fun c => setFat s.fs s.ata.bytes c 0xFFFF, clock⟩ })) := by
  have htotal := hlayout.totalClusters
  obtain ⟨clock, halloc⟩ := @fat16AllocateCluster_faultless s.fs (by omega) s.ata
  -- The write loop does nothing, but the first cluster was claimed all the same.
  obtain ⟨first, ata, hstore, hkept, hbytes⟩ : ∃ first ata,
      storeFile Env.faultless fuel name [] s =
        some (createEntry Env.faultless name 0 first { s with ata }) ∧
      (∀ slot, s.fs.InRoot slot → SameSlot ata.bytes s.ata.bytes slot) ∧
      ata.bytes = (freeClusters s.fs s.ata.bytes).head?.elim s.ata.bytes
        fun c => setFat s.fs s.ata.bytes c 0xFFFF := by
    cases hhead : (freeClusters s.fs s.ata.bytes).head? with
    | none =>
        rw [hhead] at halloc
        refine ⟨0, ⟨s.ata.bytes, clock⟩, ?_, fun slot _ x _ _ => rfl, rfl⟩
        rw [storeFile, halloc]
        simp [allocated, neededClusters_zero, writeFileLoop_empty]
    | some c =>
        rw [hhead] at halloc
        have hfree := (mem_freeClusters.mp (List.mem_of_head? hhead)).2
        have hin := hlayout.inside_of_isFree hfree
        refine ⟨c, ⟨setFat s.fs s.ata.bytes c 0xFFFF, clock⟩, ?_,
          fun slot hslot => sameSlot_setFat hlayout hin hslot, rfl⟩
        rw [storeFile, halloc]
        simp [allocated, neededClusters_zero, writeFileLoop_empty, Nat.not_lt.mpr hfree.1]
  -- What is left is the entry: it fails only when every slot of the root directory is live.
  rw [hstore, ← hbytes]
  have henters := @createEntry_enters Env.faultless name 0 first { s with ata }
  rcases hcreate : createEntry Env.faultless name 0 first { s with ata } with ⟨ret, s'⟩
  rw [hcreate] at henters
  cases henters with
  | filled slot clock hslot hvacant =>
      rw [(hkept slot hslot).isLive] at hvacant
      exact Or.inl ⟨⟨slot, hslot, hvacant⟩, _, rfl⟩
  | failed clock hfail =>
      refine Or.inr ⟨fun slot hslot => ?_, clock, rfl⟩
      by_contra hvacant
      rw [← (hkept slot hslot).isLive, ← isVacant_iff] at hvacant
      have hlow := hslot.1
      have hhigh := hslot.2
      rcases hfail with hnone | ⟨t, lba, hfault⟩
      · exact hnone slot (by change s.fs.rootStart ≤ _; omega)
          (by change _ < s.fs.rootStart + s.fs.rootSectors; omega) hvacant rfl
      · cases hfault

/-- A write of an empty file fails cleanly unless it fails in a full directory
while there is a free cluster. -/
theorem failsCleanly_nil_iff {s : Fat16State} (hlayout : Layout s.fs) (name : CString)
    {fuel : Nat} (hfuel : 4088 ≤ fuel) :
    FailsCleanly fuel name [] s ↔
      (∃ slot, s.fs.InRoot slot ∧
        (entryName s.ata.bytes slot = fat16ParseName name ∨ ¬ IsLive s.ata.bytes slot)) ∨
      freeClusters s.fs s.ata.bytes = [] := by
  rcases fat16DeleteFile_faultless hlayout.mounted name hfuel with
    ⟨hnone, clock₁, hdelete⟩ | ⟨slot, visited, clock₁, hnamed, hvisited, hdelete⟩
  · rw [FailsCleanly, fat16WriteFile_eq [] hlayout.mounted hdelete]
    rcases @storeFile_nil { s with ata := ⟨s.ata.bytes, clock₁⟩ } hlayout name fuel with
      ⟨⟨slot, hslot, hvacant⟩, s', hstore⟩ | ⟨hfull, clock, hstore⟩
    · rw [hstore]
      refine iff_of_true ⟨0, s', rfl, fun h => absurd h (by decide)⟩ (Or.inl ⟨slot, hslot, ?_⟩)
      exact Or.inr hvacant
    · rw [hstore, or_iff_right]
      · cases hfree : freeClusters s.fs s.ata.bytes with
        | nil => exact iff_of_true ⟨-1, _, rfl, fun _ => ⟨rfl, fun x _ => by simp⟩⟩ rfl
        | cons c rest =>
            -- the entry of the cluster it took stays marked
            refine iff_of_false ?_ (List.cons_ne_nil c rest)
            rintro ⟨ret, s', heq, hclean⟩
            obtain ⟨rfl, rfl⟩ := Prod.mk.inj (Option.some.inj heq)
            have hmem : c ∈ freeClusters s.fs s.ata.bytes := hfree ▸ List.mem_cons_self
            have hin := hlayout.inside_of_isFree (mem_freeClusters.mp hmem).2
            have hbyte : s.fs.EntryByte c (512 * s.fs.fatStart + 2 * c) :=
              ⟨Nat.le_refl _, by omega⟩
            have hsame := (hclean rfl).bytes _ (hlayout.inUse_of_entryByte hin hbyte)
            simp only [List.head?_cons, Option.elim_some, setFat_eof_apply, if_pos hbyte,
              eq_zero_of_entryByte (mem_freeClusters.mp hmem).2.2.2 hbyte] at hsame
            exact absurd hsame (by decide)
      · rintro ⟨slot, hslot, hnamed | hvacant⟩
        · exact hnone slot hslot hnamed
        · exact hvacant (hfull slot hslot)
  · -- the slot of the deleted entry takes the new one
    rw [FailsCleanly, fat16WriteFile_eq [] hlayout.mounted hdelete]
    refine iff_of_true ?_ (Or.inl ⟨slot, hnamed.inRoot, Or.inl hnamed.named⟩)
    rcases @storeFile_nil ⟨{ s.fs with files := dropFile name s.fs.files },
      ⟨deletedBytes s.fs s.ata.bytes slot visited, clock₁⟩⟩ (hlayout.with_files _) name fuel with
      ⟨-, s', hstore⟩ | ⟨hfull, -⟩
    · exact ⟨0, s', hstore, fun h => absurd h (by decide)⟩
    · exact absurd (deletedBytes_mark visited) (hfull slot hnamed.inRoot).2

/-- When a write that returns -1 changes nothing. -/
def FailureHarmless (name : CString) (data : List UInt8) (s : Fat16State) : Prop :=
  if data = [] then
    (∃ slot, s.fs.InRoot slot ∧
      (entryName s.ata.bytes slot = fat16ParseName name ∨ ¬ IsLive s.ata.bytes slot)) ∨
    freeClusters s.fs s.ata.bytes = []
  else NothingToDelete name s ∧ ∀ c ∈ (freeClusters s.fs s.ata.bytes).head?, c < 0xFF8

/-- On every volume and for every name and all data: the write returns, and
leaves the volume as it was if it fails, exactly in the cases listed. -/
theorem fat16_write_failsCleanly_iff {s : Fat16State} (hvolume : WellFormed s.fs s.ata.bytes)
    (name : CString) (data : List UInt8) {fuel : Nat} (hfuel : 4088 ≤ fuel) :
    FailsCleanly fuel name data s ↔ FailureHarmless name data s := by
  rw [FailureHarmless]
  split
  next hempty =>
    subst hempty
    exact failsCleanly_nil_iff hvolume.layout name hfuel
  next hdata =>
    obtain ⟨s', hwrite, hunchanged⟩ := fat16WriteFile_data hvolume.layout hdata name hfuel
    rw [← hunchanged, FailsCleanly, hwrite]
    constructor
    · rintro ⟨ret, s'', heq, hclean⟩
      obtain ⟨rfl, rfl⟩ := Prod.mk.inj (Option.some.inj heq)
      exact hclean rfl
    · exact fun hsame => ⟨-1, s', rfl, fun _ => hsame⟩

/-- A byte for a new file, beside a file that is there. -/
theorem fat16_write_failsCleanly_iff_scattered :
    FailsCleanly 65536 ⟨[0x42], by simp⟩ [0x2A] scatteredState ↔
      FailureHarmless ⟨[0x42], by simp⟩ [0x2A] scatteredState :=
  fat16_write_failsCleanly_iff scatteredState_wellFormed ⟨[0x42], by simp⟩ [0x2A] (by decide)

/-- Writing data to the file that is there fails and deletes it. -/
theorem failed_write_deletes_file :
    WellFormed (oneFileMount 2).2.fs (oneFileMount 2).2.ata.bytes ∧
      ∃ s', fat16WriteFile Env.faultless 65536 fileA [0x2A] (oneFileMount 2).2 = some (-1, s') ∧
        ¬ Unchanged (oneFileMount 2).2 s' := by
  have hvolume := oneFileChecks_2.wellFormed
  have hslot := oneFileChecks_2.isLiveIn
  obtain ⟨s', hwrite, hunchanged⟩ := fat16WriteFile_data hvolume.layout
    (List.cons_ne_nil 0x2A []) fileA (show 4088 ≤ 65536 by decide)
  refine ⟨hvolume, s', hwrite, fun hsame => ?_⟩
  have hfirst : FirstNamed (oneFileMount 2).2.fs (oneFileMount 2).2.ata.bytes fileA 288 := by
    refine ⟨hslot.1, oneFileMount_named 2, fun slot hroot hlt => ?_⟩
    have hlow := hroot.1
    rw [oneFileChecks_2.sectors.1] at hlow
    omega
  exact hslot.2.2 ((hunchanged.mp hsame).1 288 hfirst).1

end Dosfs.Fat16
