import Dosfs.Fs.Fat16.Deleting

/-!
# What deleting and scanning take for a file

`fat16_scan_root` stops at the first unused slot and skips deleted entries,
long-name fragments and volume labels; `fat16_delete_file` compares eleven bytes
in every slot of the directory sectors and looks at nothing else. The two agree
on a name as long as the first slot that carries it is one the scan takes.
-/

namespace Dosfs.Fat16

open Foundation

variable {fs : Fat16Fs} {bytes : Memory} {name : CString} {slot : Nat}

/-- Deleting the name changes the drive only if some scanned entry has the name,
and the entry that the search of `fat16_delete_file` finds is a scanned one. -/
structure DeleteAgrees (fuel : Nat) (name : CString) (s : Fat16State) : Prop where
  returns : ∃ ret s', fat16DeleteFile Env.faultless fuel name s = some (ret, s') ∧
    (s'.ata.bytes ≠ s.ata.bytes → ∃ slot, Scanned s.fs s.ata.bytes slot ∧
      entryName s.ata.bytes slot = fat16ParseName name)
  found : ∀ hit ata, rootScan Env.faultless s.fs (hasName name) s.fs.rootSectors 0 s.ata =
    (some hit, ata) → Scanned s.fs s.ata.bytes (16 * (s.fs.rootStart + hit.sectorIdx) + hit.i)

/-- What the search reports is the first slot with the name. -/
theorem firstNamed_iff_rootScan {ata : Ata} :
    FirstNamed fs ata.bytes name slot ↔
      ∃ hit ata', rootScan Env.faultless fs (hasName name) fs.rootSectors 0 ata = (some hit, ata') ∧
        16 * (fs.rootStart + hit.sectorIdx) + hit.i = slot := by
  have haddr {slot : Nat} (hslot : fs.InRoot slot) :
      16 * (fs.rootStart + (slot / 16 - fs.rootStart)) + slot % 16 = slot := by
    have hlow := hslot.1
    omega
  rcases rootScan_hasName fs name ata with ⟨hnone, hscan⟩ | ⟨first, hfirst, hscan⟩
  · constructor
    · exact fun h => absurd h.named (hnone slot h.inRoot)
    · rintro ⟨hit, ata', hhit, -⟩
      rw [hscan] at hhit
      cases hhit
  · rw [hscan, hitAt]
    constructor
    · intro h
      obtain rfl := h.unique hfirst
      exact ⟨_, _, rfl, haddr h.inRoot⟩
    · rintro ⟨hit, ata', hhit, rfl⟩
      obtain ⟨hsome, -⟩ := Prod.mk.inj hhit
      obtain rfl := Option.some.inj hsome
      rwa [haddr hfirst.inRoot]

/-- The search finds scanned entries only if the first slot with the name, if
there is one, is scanned. -/
theorem DeleteAgrees.scanned {fuel : Nat} {s : Fat16State} (h : DeleteAgrees fuel name s)
    (hslot : FirstNamed s.fs s.ata.bytes name slot) : Scanned s.fs s.ata.bytes slot := by
  obtain ⟨hit, ata, hhit, rfl⟩ := firstNamed_iff_rootScan.mp hslot
  exact h.found hit ata hhit

/-- Deleting agrees with scanning on a name if and only if the first slot of the
directory sectors with the encoded name, if there is one, is neither a long-name
fragment nor a volume label nor deleted, and no slot before it is unused. -/
theorem fat16_deleteAgrees_iff {s : Fat16State} (hmounted : s.fs.mounted = true)
    (name : CString) {fuel : Nat} (hfuel : 4088 ≤ fuel) :
    DeleteAgrees fuel name s ↔
      ∀ slot, FirstNamed s.fs s.ata.bytes name slot → Scanned s.fs s.ata.bytes slot := by
  constructor
  · exact fun h slot hslot => h.scanned hslot
  · intro hscanned
    refine ⟨?_, fun hit ata hhit => hscanned _ (firstNamed_iff_rootScan.mpr ⟨hit, ata, hhit, rfl⟩)⟩
    rcases fat16DeleteFile_faultless hmounted name hfuel with
      ⟨-, clock, hdelete⟩ | ⟨slot, visited, clock, hslot, -, hdelete⟩
    · exact ⟨_, _, hdelete, fun hchanged => absurd rfl hchanged⟩
    · exact ⟨_, _, hdelete, fun _ => ⟨slot, hscanned slot hslot, hslot.named⟩⟩

/-- Whatever the first slot with the name holds, its first cluster is freed. -/
theorem FirstNamed.frees {s : Fat16State} (hmounted : s.fs.mounted = true)
    (h : FirstNamed s.fs s.ata.bytes name slot)
    (hcluster : walkKind.inside (entryFirstCluster s.ata.bytes slot))
    (hsector : s.fs.fatSector (entryFirstCluster s.ata.bytes slot) ≠ slot / 16)
    {fuel : Nat} (hfuel : 4088 ≤ fuel) :
    ∃ s', fat16DeleteFile Env.faultless fuel name s = some (0, s') ∧
      fatEntry s'.fs s'.ata.bytes (entryFirstCluster s.ata.bytes slot) = 0x0000 := by
  rcases fat16DeleteFile_faultless hmounted name hfuel with
    ⟨hnone, -⟩ | ⟨first, visited, clock, hfirst, hvisited, hdelete⟩
  · exact absurd h.named (hnone slot h.inRoot)
  · obtain rfl := hfirst.unique h
    have hmem := (hvisited _).mpr (.start hcluster)
    have hfat : fatEntry s.fs (deletedBytes s.fs s.ata.bytes first visited)
          (entryFirstCluster s.ata.bytes first) =
        fatEntry s.fs (zeroFat s.fs s.ata.bytes visited) (entryFirstCluster s.ata.bytes first) := by
      -- the entry lies in another sector than the slot
      refine Memory.loadLe_congr fun x hlow hhigh => deletedBytes_of_outside ?_ visited
      rw [Fat16Fs.fatSector] at hsector
      omega
    refine ⟨_, hdelete, hfat.trans ?_⟩
    rw [fatEntry_zeroFat, if_pos hmem]

/-! ## A stale entry -/

def fileB : CString := ⟨[0x42], by simp⟩

/-- A small drive with the file B in cluster 2, an unused slot, and behind it an
old entry for A with the same cluster. -/
def staleDrive : Memory :=
  let linked := (formatted 16 7).storeLe (512 + 2 * 2) 2 0xFFFF
  putEntry (putEntry linked 32 (fat16ParseName fileB) 1 2) 34 (fat16ParseName fileA) 1 2

def staleMount : (Int × MountMessage) × Fat16State :=
  fat16Mount Env.faultless ⟨Fat16Fs.zero, ⟨staleDrive, 0⟩⟩

theorem staleMount_bytes : staleMount.2.ata.bytes = staleDrive := (fat16Mount_state _ _).1

theorem staleMount_fs : staleMount.2.fs =
    ⟨⟨512, 1, 1, 1, 16, 7, 1, 0⟩, 1, 2, 3, 4, true, [⟨fileB, 1, 2, 0x20, true⟩]⟩ := by
  decide +kernel

theorem staleMount_inRoot {slot : Nat} :
    staleMount.2.fs.InRoot slot ↔ 32 ≤ slot ∧ slot < 48 := by
  rw [staleMount_fs]
  exact Iff.rfl

theorem fat16_deleteAgrees_iff_stale :
    DeleteAgrees 65536 fileB staleMount.2 ↔
      ∀ slot, FirstNamed staleMount.2.fs staleMount.2.ata.bytes fileB slot →
        Scanned staleMount.2.fs staleMount.2.ata.bytes slot :=
  fat16_deleteAgrees_iff (by decide +kernel) fileB (by decide)

/-- The table lists B alone; deleting A succeeds and frees the cluster of B. -/
theorem delete_matches_stale_entry :
    staleMount.1.1 = 0 ∧ staleMount.2.fs.files = [⟨fileB, 1, 2, 0x20, true⟩] ∧
      fatEntry staleMount.2.fs staleMount.2.ata.bytes 2 = 0xFFFF ∧
      (∃ s', fat16DeleteFile Env.faultless 65536 fileA staleMount.2 = some (0, s') ∧
        fatEntry s'.fs s'.ata.bytes 2 = 0x0000) ∧
      ¬ DeleteAgrees 65536 fileA staleMount.2 := by
  have hnamed : ∀ slot < 48, 32 ≤ slot →
      (entryName staleDrive slot = fat16ParseName fileA ↔ slot = 34) := by
    decide +kernel
  have hfirst : FirstNamed staleMount.2.fs staleMount.2.ata.bytes fileA 34 := by
    rw [staleMount_bytes]
    refine ⟨staleMount_inRoot.mpr (by decide), (hnamed 34 (by decide) (by decide)).mpr rfl, ?_⟩
    intro slot hslot hlt heq
    have hin := staleMount_inRoot.mp hslot
    exact absurd ((hnamed slot hin.2 hin.1).mp heq) (by omega)
  have hlink : fatEntry staleMount.2.fs staleDrive 2 = 0xFFFF := by
    rw [staleMount_fs]
    decide +kernel
  refine ⟨by decide +kernel, by rw [staleMount_fs], by rw [staleMount_bytes, hlink], ?_, ?_⟩
  · have hcluster : entryFirstCluster staleMount.2.ata.bytes 34 = 2 := by
      rw [staleMount_bytes]
      decide +kernel
    have hsector : staleMount.2.fs.fatSector 2 = 1 := by
      rw [staleMount_fs]
      decide
    have hfrees := @FirstNamed.frees fileA 34 staleMount.2 (by rw [staleMount_fs]) hfirst
      (by rw [hcluster]; decide) (by rw [hcluster, hsector]; decide) 65536 (by decide)
    rwa [hcluster] at hfrees
  · intro hagrees
    have hscanned := hagrees.scanned hfirst
    have hmark : entryHead staleDrive 33 = 0x00 := by decide +kernel
    exact hscanned.unmarked 33 (staleMount_inRoot.mpr (by decide)) (by decide)
      (staleMount_bytes ▸ hmark)

end Dosfs.Fat16
