import Dosfs.Fs.Fat16.CorruptChains
import Dosfs.Fs.Fat16.Consistency

/-!
# Deleting on any volume

What `fat16_delete_file` does on a drive without errors, for every name and
whatever the FAT and the root directory hold: it takes the first slot of the
directory sectors that has the encoded name, clears the FAT entries that the
links from its first cluster reach, and writes the sector of the slot back as it
was read, with the mark of a deleted entry.
-/

namespace Dosfs.Fat16

open Foundation

variable {fs : Fat16Fs} {bytes : Memory} {name : CString} {slot : Nat}

/-- The first slot of the root directory with the encoded name. -/
structure FirstNamed (fs : Fat16Fs) (bytes : Memory) (name : CString) (slot : Nat) : Prop where
  inRoot : fs.InRoot slot
  named : entryName bytes slot = fat16ParseName name
  first : ∀ slot', fs.InRoot slot' → slot' < slot → entryName bytes slot' ≠ fat16ParseName name

theorem FirstNamed.unique {slot' : Nat} (h : FirstNamed fs bytes name slot)
    (h' : FirstNamed fs bytes name slot') : slot = slot' := by
  rcases Nat.lt_trichotomy slot slot' with hlt | heq | hgt
  · exact absurd h.named (h'.first slot h.inRoot hlt)
  · exact heq
  · exact absurd h'.named (h.first slot' h'.inRoot hgt)

/-- The drive after the entry in a slot was deleted and the listed clusters were
freed: the sector of the slot is the one that was read before. -/
def deletedBytes (fs : Fat16Fs) (bytes : Memory) (slot : Nat) (visited : List Nat) : Memory :=
  (zeroFat fs bytes visited).overwrite (512 * (slot / 16)) (512 * 1)
    ((bytes.window (512 * (slot / 16))).storeByte (32 * (slot % 16)) 0xE5)

theorem deletedBytes_mark (visited : List Nat) :
    deletedBytes fs bytes slot visited (32 * slot) = 0xE5 := by
  have hoffset : 32 * slot - 512 * (slot / 16) = 32 * (slot % 16) := by omega
  rw [deletedBytes, Memory.overwrite_of_mem (by omega) (by omega), hoffset]
  exact Memory.storeByte_same

theorem deletedBytes_of_sector {x : Nat} (hx : x / 512 = slot / 16) (hne : x ≠ 32 * slot)
    (visited : List Nat) : deletedBytes fs bytes slot visited x = bytes x := by
  rw [deletedBytes, Memory.overwrite_of_mem (by omega) (by omega),
    Memory.storeByte_of_ne (by omega), Memory.window]
  congr 1
  omega

theorem deletedBytes_of_outside {x : Nat} (hx : x / 512 ≠ slot / 16) (visited : List Nat) :
    deletedBytes fs bytes slot visited x = zeroFat fs bytes visited x := by
  rw [deletedBytes, Memory.overwrite_of_notMem (by omega)]

/-- The loop over the directory finds the first slot with the name. -/
theorem rootScan_hasName (fs : Fat16Fs) (name : CString) (ata : Ata) :
    ((∀ slot, fs.InRoot slot → entryName ata.bytes slot ≠ fat16ParseName name) ∧
      rootScan Env.faultless fs (hasName name) fs.rootSectors 0 ata =
        (none, { ata with clock := ata.clock + fs.rootSectors })) ∨
    ∃ slot, FirstNamed fs ata.bytes name slot ∧
      rootScan Env.faultless fs (hasName name) fs.rootSectors 0 ata =
        hitAt fs fs.rootStart slot ata := by
  have hsector {slot : Nat} (hslot : fs.InRoot slot) :
      fs.rootStart ≤ slot / 16 ∧ slot / 16 < fs.rootStart + fs.rootSectors := by
    unfold Fat16Fs.InRoot at hslot
    omega
  rcases rootScan_root (entryTest_hasName name) ata with ⟨hnone, hscan⟩ | ⟨slot, hstop, hscan⟩
  · refine Or.inl ⟨fun slot hslot hnamed => ?_, hscan⟩
    exact hnone slot (hsector hslot).1 (hsector hslot).2 (hasName_iff.mpr hnamed) rfl
  · refine Or.inr ⟨slot, ⟨hstop.inRoot, hasName_iff.mp hstop.passes, ?_⟩, hscan⟩
    intro slot' hslot' hlt hnamed
    exact hstop.first slot' (hsector hslot').1 hlt (hasName_iff.mpr hnamed) rfl

/-- A directory without the name is left alone; otherwise the first entry with
the name is deleted and what its first cluster reaches is freed. -/
theorem fat16DeleteFile_faultless {s : Fat16State} (hmounted : s.fs.mounted = true)
    (name : CString) {fuel : Nat} (hfuel : 4088 ≤ fuel) :
    ((∀ slot, s.fs.InRoot slot → entryName s.ata.bytes slot ≠ fat16ParseName name) ∧
      ∃ clock, fat16DeleteFile Env.faultless fuel name s =
        some (-1, { s with ata := ⟨s.ata.bytes, clock⟩ })) ∨
    ∃ slot visited clock, FirstNamed s.fs s.ata.bytes name slot ∧
      (∀ c, c ∈ visited ↔
        Reaches walkKind (fatEntry s.fs s.ata.bytes) (entryFirstCluster s.ata.bytes slot) c) ∧
      fat16DeleteFile Env.faultless fuel name s =
        some (0, ⟨{ s.fs with files := dropFile name s.fs.files },
          ⟨deletedBytes s.fs s.ata.bytes slot visited, clock⟩⟩) := by
  rcases rootScan_hasName s.fs name s.ata with ⟨hnone, hscan⟩ | ⟨slot, hnamed, hscan⟩
  · refine Or.inl ⟨hnone, s.ata.clock + s.fs.rootSectors, ?_⟩
    rw [fat16DeleteFile, hmounted, hscan]
    rfl
  · have hroot := hnamed.inRoot.1
    have hsector : s.fs.rootStart + (slot / 16 - s.fs.rootStart) = slot / 16 := by omega
    have hentry : 16 * (slot / 16) + slot % 16 = slot := by omega
    obtain ⟨visited, clock, hvisited, hfree⟩ : ∃ visited clock,
        (∀ c, c ∈ visited ↔
          Reaches walkKind (fatEntry s.fs s.ata.bytes) (entryFirstCluster s.ata.bytes slot) c) ∧
        freeEntryChain Env.faultless s.fs fuel (entryFirstCluster s.ata.bytes slot)
          { s.ata with clock := s.ata.clock + (slot / 16 - s.fs.rootStart) + 1 } =
            some ⟨zeroFat s.fs s.ata.bytes visited, clock⟩ := by
      unfold freeEntryChain
      split
      next =>
        obtain ⟨visited, clock, hvisited, hwalk⟩ := fat16FreeClusterChain_visits s.fs
          (entryFirstCluster s.ata.bytes slot)
          { s.ata with clock := s.ata.clock + (slot / 16 - s.fs.rootStart) + 1 }
        exact ⟨visited, clock, hvisited, hwalk fuel hfuel⟩
      next hvacant =>
        refine ⟨[], _, fun c => ?_, rfl⟩
        exact iff_of_false List.not_mem_nil fun hreach => hvacant hreach.head_inside.1
    refine Or.inr ⟨slot, visited, clock + 1, hnamed, hvisited, ?_⟩
    rw [fat16DeleteFile, hmounted, hscan]
    simp only [hitAt, entryFirstCluster_window, hentry, hfree, hsector, Bool.not_true,
      Bool.false_eq_true, if_false, Option.bind_eq_bind, Option.bind_some]
    rfl

/-! ## Freeing exactly one chain -/

/-- The part of a chain that the walk reaches. -/
theorem reaches_walkKind_iff {first : Nat} {cells : List Nat}
    (hchain : Chain fs.clusterKind (fatEntry fs bytes) first cells) (c : Nat) :
    Reaches walkKind (fatEntry fs bytes) first c ↔ c ∈ visited cells := by
  induction hchain with
  | @last first hin hend =>
      by_cases hlow : first < 0xFF8
      · have hwalk : walkKind.inside first := ⟨hin.1, hlow⟩
        have hend : 0xFFF8 ≤ fatEntry fs bytes first := hend
        have hout : ¬ Reaches walkKind (fatEntry fs bytes) (fatEntry fs bytes first) c := by
          intro hreach
          have hhigh := hreach.head_inside.2
          omega
        simp [Reaches.cons_iff hwalk, hout, visited, hlow]
      · have hout : ¬ Reaches walkKind (fatEntry fs bytes) first c := fun h => hlow h.head_inside.2
        simp [hout, visited, hlow]
  | @link first rest hin _ ih =>
      by_cases hlow : first < 0xFF8
      · have hwalk : walkKind.inside first := ⟨hin.1, hlow⟩
        simp [Reaches.cons_iff hwalk, ih, visited, hlow]
      · have hout : ¬ Reaches walkKind (fatEntry fs bytes) first c := fun h => hlow h.head_inside.2
        simp [hout, visited, hlow]

/-- On a well-formed volume the first slot with the name of a live entry is the
slot of that entry. -/
theorem FirstNamed.eq_of_isLive (hvolume : WellFormed fs bytes) {first : Nat}
    (h : FirstNamed fs bytes name first) (hslot : fs.IsLiveIn bytes slot)
    (hnamed : entryName bytes slot = fat16ParseName name) : first = slot := by
  have hsame : entryName bytes first = entryName bytes slot := h.named.trans hnamed.symm
  have hhead : entryHead bytes first = entryHead bytes slot := by
    have heq := congrArg List.head? hsame
    rw [entryName_head, entryName_head] at heq
    exact Option.some.inj heq
  refine hvolume.namesUnique first slot ⟨h.inRoot, ?_⟩ hslot hsame ?_
  · rw [IsLive, hhead]
    exact hslot.2
  · rw [h.named]
    exact fun hzero => fat16ParseName_ne_zero name 0 hzero rfl

/-- The clusters of one chain are freed and the entry is marked; every other FAT
entry and every other slot of the directory is as before. -/
structure FreesExactly (fs : Fat16Fs) (bytes bytes' : Memory) (slot : Nat) (cells : List Nat) :
    Prop where
  freed : ∀ c ∈ cells, fatEntry fs bytes' c = 0x0000
  kept : ∀ c, c < 256 * fs.bpb.fatSize16 → c ∉ cells → fatEntry fs bytes' c = fatEntry fs bytes c
  slots : ∀ slot', fs.InRoot slot' → slot' ≠ slot → SameSlot bytes' bytes slot'
  marked : entryHead bytes' slot = 0xE5

/-- Nothing else changes, and the chain is freed as far as the walk reaches. -/
theorem freesExactly_deletedBytes_iff (hlayout : Layout fs) (hslot : fs.InRoot slot) {first : Nat}
    {cells freed : List Nat} (hchain : Chain fs.clusterKind (fatEntry fs bytes) first cells)
    (hfreed : ∀ c, c ∈ freed ↔ c ∈ visited cells) :
    FreesExactly fs bytes (deletedBytes fs bytes slot freed) slot cells ↔
      ∀ c ∈ cells, c < 0xFF8 := by
  have hsub {c : Nat} (hc : c ∈ freed) : c ∈ cells :=
    (List.takeWhile_prefix _).subset ((hfreed c).mp hc)
  have hinside : ∀ c ∈ freed, fs.clusterKind.inside c := fun c hc => hchain.inside_of_mem (hsub hc)
  have hroot := hslot.1
  have hend := hlayout.fatEnd_le
  have hfat {c : Nat} (hc : c < 256 * fs.bpb.fatSize16) :
      fatEntry fs (deletedBytes fs bytes slot freed) c =
        if c ∈ freed then 0 else fatEntry fs bytes c := by
    rw [← fatEntry_zeroFat]
    exact Memory.loadLe_congr fun x _ hx => deletedBytes_of_outside (by omega) freed
  have hroom := hlayout.fatRoom
  constructor
  · intro h
    by_contra hhigh
    push Not at hhigh
    obtain ⟨c, hc, hhigh⟩ := hhigh
    -- a cluster from 0xFF8 on keeps its link, which is not zero
    have hnotFreed : c ∉ freed := by
      rw [hfreed]
      intro hmem
      have hlow : c < 0xFF8 := by simpa using List.mem_takeWhile_imp hmem
      omega
    have hlt := (hchain.inside_of_mem hc).2.1
    have hzero := h.freed c hc
    rw [hfat (by omega), if_neg hnotFreed] at hzero
    rcases hchain.next_inside_or_ended hc with hin | hended
    · have hlow : 2 ≤ fatEntry fs bytes c := hin.1
      omega
    · have hlow : 0xFFF8 ≤ fatEntry fs bytes c := hended
      omega
  · intro hlow
    have hall : visited cells = cells :=
      List.takeWhile_eq_self_iff.mpr fun c hc => by simpa using hlow c hc
    rw [hall] at hfreed
    refine ⟨fun c hc => ?_, fun c hc hout => ?_, fun slot' hslot' hne x hlo hhi => ?_, ?_⟩
    · have hlt := (hchain.inside_of_mem hc).2.1
      rw [hfat (by omega), if_pos ((hfreed c).mpr hc)]
    · rw [hfat hc, if_neg fun hmem => hout (hsub hmem)]
    · by_cases hsector : x / 512 = slot / 16
      · exact deletedBytes_of_sector hsector (by omega) freed
      · rw [deletedBytes_of_outside hsector]
        exact sameSlot_zeroFat hlayout hinside hslot' x hlo hhi
    · exact deletedBytes_mark freed

/-- Deleting a live file of a well-formed volume succeeds, and frees exactly its
chain if and only if the chain has no cluster from 0xFF8 on. -/
theorem fat16_delete_freesExactly_iff {s : Fat16State} (hvolume : WellFormed s.fs s.ata.bytes)
    {slot : Nat} (hslot : s.fs.IsLiveIn s.ata.bytes slot) {name : CString}
    (hnamed : entryName s.ata.bytes slot = fat16ParseName name) {cells : List Nat}
    (hchain : Chain s.fs.clusterKind (fatEntry s.fs s.ata.bytes)
      (entryFirstCluster s.ata.bytes slot) cells) {fuel : Nat} (hfuel : 4088 ≤ fuel) :
    ∃ s', fat16DeleteFile Env.faultless fuel name s = some (0, s') ∧
      (FreesExactly s.fs s.ata.bytes s'.ata.bytes slot cells ↔ ∀ c ∈ cells, c < 0xFF8) := by
  rcases fat16DeleteFile_faultless hvolume.layout.mounted name hfuel with
    ⟨hnone, -⟩ | ⟨first, freed, clock, hfirst, hfreed, hdelete⟩
  · exact absurd hnamed (hnone slot hslot.1)
  · obtain rfl := hfirst.eq_of_isLive hvolume hslot hnamed
    refine ⟨_, hdelete, freesExactly_deletedBytes_iff hvolume.layout hslot.1 hchain fun c => ?_⟩
    rw [hfreed, reaches_walkKind_iff hchain]

/-- A file in three clusters. -/
theorem fat16_delete_freesExactly_iff_scattered :
    ∃ s', fat16DeleteFile Env.faultless 65536 ⟨[0x41], by simp⟩ scatteredState = some (0, s') ∧
      (FreesExactly scatteredState.fs scatteredState.ata.bytes s'.ata.bytes 32 [2, 5, 3] ↔
        ∀ c ∈ [2, 5, 3], c < 0xFF8) :=
  fat16_delete_freesExactly_iff scatteredState_wellFormed scatteredState_isLiveIn
    (by rw [scatteredState_bytes]; decide) scatteredState_chain (by decide)

theorem oneFileMount_bytes (cluster : Nat) :
    (oneFileMount cluster).2.ata.bytes = oneFileDrive cluster :=
  (fat16Mount_state _ _).1

/-- What has to be looked up to see that the mounted drive with one file is well
formed. -/
structure OneFileChecks (cluster : Nat) : Prop where
  mounted : (oneFileMount cluster).2.fs =
    ⟨⟨512, 1, 1, 1, 16, 4200, 17, 0⟩, 1, 18, 19, 4181, true, [oneFile cluster]⟩
  head : entryFirstCluster (oneFileDrive cluster) 288 = cluster
  live : IsLive (oneFileDrive cluster) 288
  unused : ∀ slot < 304, 288 < slot → entryHead (oneFileDrive cluster) slot = 0x00
  inside : 2 ≤ cluster ∧ cluster < 4183
  ended : 0xFFF8 ≤ (oneFileDrive cluster).loadLe (512 + 2 * cluster) 2

theorem OneFileChecks.chain {cluster : Nat} (h : OneFileChecks cluster) :
    Chain (oneFileMount cluster).2.fs.clusterKind
      (fatEntry (oneFileMount cluster).2.fs (oneFileMount cluster).2.ata.bytes)
      (entryFirstCluster (oneFileMount cluster).2.ata.bytes 288) [cluster] := by
  rw [oneFileMount_bytes, h.head, h.mounted]
  exact .last ⟨h.inside.1, h.inside.2, h.inside.2.trans (by decide)⟩ h.ended

theorem OneFileChecks.sectors {cluster : Nat} (h : OneFileChecks cluster) :
    (oneFileMount cluster).2.fs.rootStart = 18 ∧ (oneFileMount cluster).2.fs.rootSectors = 1 := by
  rw [h.mounted]
  simp [Fat16Fs.rootSectors]

theorem OneFileChecks.isLiveIn {cluster : Nat} (h : OneFileChecks cluster) :
    (oneFileMount cluster).2.fs.IsLiveIn (oneFileMount cluster).2.ata.bytes 288 := by
  refine ⟨?_, (oneFileMount_bytes cluster).symm ▸ h.live⟩
  rw [Fat16Fs.InRoot, h.sectors.1, h.sectors.2]
  decide

theorem OneFileChecks.wellFormed {cluster : Nat} (h : OneFileChecks cluster) :
    WellFormed (oneFileMount cluster).2.fs (oneFileMount cluster).2.ata.bytes := by
  refine wellFormed_of_single ?_ h.isLiveIn.1 ?_ h.isLiveIn.2 (fun slot hslot hlt => ?_) h.chain
  · rw [h.mounted]
    refine ⟨rfl, le_refl 1, le_refl 1, show 4181 ≤ 65524 by decide,
      show 2 + 4181 ≤ 256 * 17 by decide, rfl, ?_⟩
    simp [Fat16Fs.rootSectors]
  · rw [h.sectors.1]
  · rw [Fat16Fs.InRoot, h.sectors.1, h.sectors.2] at hslot
    rw [oneFileMount_bytes]
    exact h.unused slot hslot.2 hlt

theorem oneFileMount_named (cluster : Nat) :
    entryName (oneFileMount cluster).2.ata.bytes 288 = fat16ParseName fileA := by
  rw [oneFileMount_bytes]
  exact entryName_putEntry (fat16ParseName_length fileA)

theorem oneFileChecks_2 : OneFileChecks 2 :=
  ⟨by decide +kernel, by decide +kernel, by decide +kernel, by decide +kernel, by decide,
    by decide +kernel⟩

theorem oneFileChecks_0xFF8 : OneFileChecks 0xFF8 :=
  ⟨by decide +kernel, by decide +kernel, by decide +kernel, by decide +kernel, by decide,
    by decide +kernel⟩

/-- The only cluster of the file is 0xFF8: it is not freed. -/
theorem delete_leaks_cluster_0xFF8 :
    WellFormed (oneFileMount 0xFF8).2.fs (oneFileMount 0xFF8).2.ata.bytes ∧
      (oneFileMount 0xFF8).2.fs.IsLiveIn (oneFileMount 0xFF8).2.ata.bytes 288 ∧
      entryName (oneFileMount 0xFF8).2.ata.bytes 288 = fat16ParseName fileA ∧
      ∃ s', fat16DeleteFile Env.faultless 65536 fileA (oneFileMount 0xFF8).2 = some (0, s') ∧
        ¬ FreesExactly (oneFileMount 0xFF8).2.fs (oneFileMount 0xFF8).2.ata.bytes s'.ata.bytes 288
          [0xFF8] := by
  have hvolume := oneFileChecks_0xFF8.wellFormed
  have hslot := oneFileChecks_0xFF8.isLiveIn
  refine ⟨hvolume, hslot, (oneFileMount_named 0xFF8), ?_⟩
  rcases fat16DeleteFile_faultless hvolume.layout.mounted fileA (show 4088 ≤ 65536 by decide) with
    ⟨hnone, -⟩ | ⟨first, freed, clock, hfirst, hfreed, hdelete⟩
  · exact absurd (oneFileMount_named 0xFF8) (hnone 288 hslot.1)
  · obtain rfl := hfirst.eq_of_isLive hvolume hslot (oneFileMount_named 0xFF8)
    refine ⟨_, hdelete, fun hexact => ?_⟩
    have hlow := (freesExactly_deletedBytes_iff hvolume.layout hslot.1 oneFileChecks_0xFF8.chain
      fun c => (hfreed c).trans (reaches_walkKind_iff oneFileChecks_0xFF8.chain c)).mp hexact
    exact absurd (hlow 0xFF8 (List.mem_singleton_self _)) (by decide)

end Dosfs.Fat16
