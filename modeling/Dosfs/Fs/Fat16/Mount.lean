import Dosfs.Fs.Fat16.Steps

/-!
# Mounting

Mounting writes nothing: it derives the geometry from the boot sector and
collects the plain entries of the root directory. With no unreadable sector and
no more plain entries than the table has room for, the table lists them all, in
the order of their slots.
-/

namespace Dosfs.Fat16

open Foundation

variable {env : Env} {fs : Fat16Fs} {bytes : Memory}

/-- The file that `fat16_scan_root` reads from a slot. -/
def fileAt (bytes : Memory) (slot : Nat) : Fat16File where
  name := fat16UnparseName (entryName bytes slot)
  size := entryFileSize bytes slot
  firstCluster := entryFirstCluster bytes slot
  attr := entryAttr bytes slot
  used := true

/-- The slots of `count` sectors from sector `lo` on. -/
def slotsFrom (lo count : Nat) : List Nat := List.range' (16 * lo) (16 * count)

/-- The slots of the root directory. -/
def Fat16Fs.rootSlots (fs : Fat16Fs) : List Nat := slotsFrom fs.rootStart fs.rootSectors

theorem Fat16Fs.mem_rootSlots {slot : Nat} : slot ∈ fs.rootSlots ↔ fs.InRoot slot := by
  simp only [Fat16Fs.rootSlots, slotsFrom, Fat16Fs.InRoot, List.mem_range'_1]
  omega

theorem Fat16Fs.rootSlots_nodup : fs.rootSlots.Nodup := List.nodup_range'

/-- The plain entries among the given slots. -/
def plainSlots (bytes : Memory) (slots : List Nat) : List Nat :=
  slots.filter fun slot => IsPlain bytes slot

theorem slotsFrom_succ (lo count : Nat) :
    slotsFrom lo (count + 1) = (List.range 16).map (16 * lo + ·) ++ slotsFrom (lo + 1) count := by
  have hsplit := @List.range'_append_1 (16 * lo) 16 (16 * count)
  rw [slotsFrom, slotsFrom, show 16 * (count + 1) = 16 + 16 * count by omega, ← hsplit,
    List.range'_eq_map_range]
  rfl

/-- The slots among the given ones that `fat16_scan_root` takes for files: the
plain entries in front of the first end marker. -/
def scannedSlots (bytes : Memory) (slots : List Nat) : List Nat :=
  plainSlots bytes (slots.takeWhile fun slot => entryHead bytes slot ≠ 0x00)

theorem scannedSlots_cons (slot : Nat) (slots : List Nat) :
    scannedSlots bytes (slot :: slots) =
      if entryHead bytes slot = 0x00 then []
      else if IsPlain bytes slot then slot :: scannedSlots bytes slots
      else scannedSlots bytes slots := by
  by_cases hmark : entryHead bytes slot = 0x00
  · simp [scannedSlots, plainSlots, hmark]
  · by_cases hplain : IsPlain bytes slot <;> simp [scannedSlots, plainSlots, hmark, hplain]

/-- The slot holds a file in the sense of `fat16_scan_root`. -/
structure Scanned (fs : Fat16Fs) (bytes : Memory) (slot : Nat) : Prop where
  inRoot : fs.InRoot slot
  plain : IsPlain bytes slot
  unmarked : ∀ slot', fs.InRoot slot' → slot' ≤ slot → entryHead bytes slot' ≠ 0x00

/-- One sector: the scan goes on with the slots behind it, unless an end marker
or the size of the table ends it. -/
private theorem fat16ScanSector_eq (lba : Nat) (is rest : List Nat) {files : List Fat16File}
    (hroom : files.length ≤ fat16MaxFiles) :
    ((fat16ScanSector (bytes.window (512 * lba)) is files).2 = true →
      (fat16ScanSector (bytes.window (512 * lba)) is files).1 =
        (files ++ (scannedSlots bytes (is.map (16 * lba + ·) ++ rest)).map (fileAt bytes)).take
          fat16MaxFiles) ∧
    ((fat16ScanSector (bytes.window (512 * lba)) is files).2 = false →
      (fat16ScanSector (bytes.window (512 * lba)) is files).1.length ≤ fat16MaxFiles ∧
      (fat16ScanSector (bytes.window (512 * lba)) is files).1 ++
          (scannedSlots bytes rest).map (fileAt bytes) =
        files ++ (scannedSlots bytes (is.map (16 * lba + ·) ++ rest)).map (fileAt bytes)) := by
  induction is generalizing files with
  | nil => exact ⟨fun h => Bool.noConfusion h, fun _ => ⟨hroom, rfl⟩⟩
  | cons i is ih =>
      rw [List.map_cons, List.cons_append, scannedSlots_cons]
      simp only [fat16ScanSector, entryHead_window, entryAttr_window, entryName_window,
        entryFileSize_window, entryFirstCluster_window]
      by_cases hmark : entryHead bytes (16 * lba + i) = 0x00
      · rw [if_pos hmark, if_pos hmark]
        refine ⟨fun _ => ?_, fun h => Bool.noConfusion h⟩
        rw [List.map_nil, List.append_nil, List.take_of_length_le hroom]
      · rw [if_neg hmark, if_neg hmark]
        by_cases hplain : IsPlain bytes (16 * lba + i)
        · rw [if_neg hplain.1.2, if_neg hplain.2.1, if_neg (not_not.mpr hplain.2.2),
            if_pos hplain]
          by_cases hfull : fat16MaxFiles ≤ files.length
          · rw [if_pos hfull]
            refine ⟨fun _ => ?_, fun h => Bool.noConfusion h⟩
            rw [List.take_append_of_le_length hfull, List.take_of_length_le hroom]
          · rw [if_neg hfull]
            have hmore := @ih (files ++ [fileAt bytes (16 * lba + i)]) (by simp; omega)
            rwa [List.append_assoc, List.singleton_append, ← List.map_cons] at hmore
        · rw [if_neg hplain]
          have hreason : entryHead bytes (16 * lba + i) = 0xE5 ∨
              entryAttr bytes (16 * lba + i) = 0x0F ∨
                entryAttr bytes (16 * lba + i) &&& 0x08 ≠ 0 := by
            simp only [IsPlain, IsLive] at hplain
            tauto
          -- each of the three reasons to skip an entry leads to the next one
          have hskip : (if entryHead bytes (16 * lba + i) = 0xE5 then
                fat16ScanSector (bytes.window (512 * lba)) is files
              else if entryAttr bytes (16 * lba + i) = 0x0F then
                fat16ScanSector (bytes.window (512 * lba)) is files
              else if entryAttr bytes (16 * lba + i) &&& 0x08 ≠ 0 then
                fat16ScanSector (bytes.window (512 * lba)) is files
              else if fat16MaxFiles ≤ files.length then (files, true)
              else fat16ScanSector (bytes.window (512 * lba)) is
                (files ++ [fileAt bytes (16 * lba + i)])) =
              fat16ScanSector (bytes.window (512 * lba)) is files := by
            split_ifs
            · rfl
            · rfl
            · rfl
            all_goals exact absurd hreason (by tauto)
          have hlater := ih hroom
          rw [← hskip] at hlater
          exact hlater

/-- The whole directory: the table gets the scanned entries, as far as it has
room for them. -/
theorem fat16ScanRoot_eq (hread : ∀ t req, env.fault t req = false) (todo s : Nat)
    {files : List Fat16File} (hroom : files.length ≤ fat16MaxFiles) (ata : Ata) :
    ∃ clock, fat16ScanRoot env fs todo s files ata =
      ((files ++ (scannedSlots ata.bytes (slotsFrom (fs.rootStart + s) todo)).map
        (fileAt ata.bytes)).take fat16MaxFiles, ⟨ata.bytes, clock⟩) := by
  induction todo generalizing s files ata with
  | zero =>
      refine ⟨ata.clock, ?_⟩
      have hnone : slotsFrom (fs.rootStart + s) 0 = [] := rfl
      rw [hnone, fat16ScanRoot]
      simp [scannedSlots, plainSlots, List.take_of_length_le hroom]
  | succ todo ih =>
      rw [slotsFrom_succ]
      unfold fat16ScanRoot
      rw [ataReadSectors_ok (hread _ _)]
      obtain ⟨hstop, hgo⟩ := @fat16ScanSector_eq ata.bytes (fs.rootStart + s) (List.range 16)
        (slotsFrom (fs.rootStart + s + 1) todo) files hroom
      rcases hsector : fat16ScanSector (ata.bytes.window (512 * (fs.rootStart + s)))
        (List.range 16) files with ⟨files', _ | _⟩
      · rw [hsector] at hgo
        obtain ⟨hroom', hfiles⟩ := hgo rfl
        obtain ⟨clock, hlater⟩ := ih (s + 1) hroom' { ata with clock := ata.clock + 1 }
        refine ⟨clock, ?_⟩
        simp only [hsector]
        rw [← hfiles]
        exact hlater
      · rw [hsector] at hstop
        refine ⟨ata.clock + 1, ?_⟩
        simp only [hsector]
        rw [← hstop rfl]

/-- Behind an end marker that is followed by end markers only there is no plain
entry. -/
theorem scannedSlots_eq_plainSlots {slots : List Nat}
    (hend : slots.Pairwise fun slot slot' =>
      entryHead bytes slot = 0x00 → entryHead bytes slot' = 0x00) :
    scannedSlots bytes slots = plainSlots bytes slots := by
  induction slots with
  | nil => rfl
  | cons slot slots ih =>
      rw [List.pairwise_cons] at hend
      rw [scannedSlots_cons, ih hend.2]
      split
      next hmark =>
        refine (List.filter_eq_nil_iff.mpr fun slot' hslot' => ?_).symm
        simp only [decide_eq_true_eq]
        rintro ⟨⟨hhead, -⟩, -⟩
        rcases List.mem_cons.mp hslot' with rfl | hrest
        · exact hhead hmark
        · exact hhead (hend.1 slot' hrest hmark)
      next => by_cases hplain : IsPlain bytes slot <;> simp [plainSlots, hplain]

theorem EndMarked.pairwise_rootSlots (hend : EndMarked fs bytes) :
    fs.rootSlots.Pairwise fun slot slot' =>
      entryHead bytes slot = 0x00 → entryHead bytes slot' = 0x00 := by
  have hsorted : fs.rootSlots.Pairwise (· < ·) := List.pairwise_lt_range'
  refine hsorted.imp_of_mem fun hslot hslot' hlt => ?_
  exact hend _ _ (fs.mem_rootSlots.mp hslot) (fs.mem_rootSlots.mp hslot') hlt.le

theorem countFreeClusters_bytes (todo si free : Nat) (ata : Ata) :
    (countFreeClusters env fs todo si free ata).2.bytes = ata.bytes := by
  induction todo generalizing si free ata with
  | zero => rfl
  | succ todo ih =>
      unfold countFreeClusters
      cases hread : env.fault ata.clock (.read (fs.fatStart + si) 1) with
      | true =>
          rw [ataReadSectors_fault hread]
          exact ih _ _ _
      | false =>
          rw [ataReadSectors_ok hread]
          exact ih _ _ _

theorem fat16ScanRoot_bytes (todo s : Nat) (files : List Fat16File) (ata : Ata) :
    (fat16ScanRoot env fs todo s files ata).2.bytes = ata.bytes := by
  induction todo generalizing s files ata with
  | zero => rfl
  | succ todo ih =>
      unfold fat16ScanRoot
      cases hread : env.fault ata.clock (.read (fs.rootStart + s) 1) with
      | true =>
          rw [ataReadSectors_fault hread]
          exact ih _ _ _
      | false =>
          rw [ataReadSectors_ok hread]
          dsimp only
          split
          next => rfl
          next => exact ih _ _ _

/-- The drive after a mount holds the same bytes, and the driver either refuses
every further call or has the geometry of the boot sector. -/
theorem fat16Mount_state (env : Env) (s : Fat16State) :
    (fat16Mount env s).2.ata.bytes = s.ata.bytes ∧
      ((fat16Mount env s).2.fs.mounted = false ∨
        ∃ files, (fat16Mount env s).2.fs =
          { (Fat16Bpb.decode s.ata.bytes).geometry with files }) := by
  have hsector : s.ata.bytes.window (512 * 0) = s.ata.bytes := by
    funext k
    simp [Memory.window]
  unfold fat16Mount
  cases hread : env.fault s.ata.clock (.read 0 1) with
  | true =>
      rw [ataReadSectors_fault hread]
      exact ⟨rfl, Or.inl rfl⟩
  | false =>
      rw [ataReadSectors_ok hread, hsector]
      dsimp only
      split_ifs
      · exact ⟨rfl, Or.inl rfl⟩
      · exact ⟨rfl, Or.inl rfl⟩
      · exact ⟨rfl, Or.inl rfl⟩
      · refine ⟨?_, Or.inr ⟨_, rfl⟩⟩
        rw [countFreeClusters_bytes, fat16ScanRoot_bytes]

/-- An accepted volume is mounted with the table of its scanned entries, as far
as they fit. -/
theorem fat16Mount_files {s : Fat16State} (hread : ∀ t req, env.fault t req = false)
    (hmount : (fat16Mount env s).1.1 = 0) :
    (fat16Mount env s).2.fs = { (Fat16Bpb.decode s.ata.bytes).geometry with
      files := ((scannedSlots s.ata.bytes
        (Fat16Bpb.decode s.ata.bytes).geometry.rootSlots).map (fileAt s.ata.bytes)).take
          fat16MaxFiles } := by
  have hsector : s.ata.bytes.window (512 * 0) = s.ata.bytes := by
    funext k
    simp [Memory.window]
  obtain ⟨clock, hscan⟩ := @fat16ScanRoot_eq env (Fat16Bpb.decode s.ata.bytes).geometry hread
    (Fat16Bpb.decode s.ata.bytes).geometry.rootSectors 0 [] (Nat.zero_le _)
    { s.ata with clock := s.ata.clock + 1 }
  unfold fat16Mount at hmount ⊢
  rw [ataReadSectors_ok (hread _ _), hsector] at hmount ⊢
  dsimp only at hmount ⊢
  split_ifs at hmount ⊢
  · simp at hmount
  · simp at hmount
  · simp at hmount
  · rw [hscan]
    rfl

/-- An accepted volume is mounted with the table of all its plain entries. -/
theorem fat16Mount_table {s : Fat16State} (hread : ∀ t req, env.fault t req = false)
    (hmount : (fat16Mount env s).1.1 = 0)
    (hend : EndMarked (Fat16Bpb.decode s.ata.bytes).geometry s.ata.bytes)
    (hroom : (plainSlots s.ata.bytes (Fat16Bpb.decode s.ata.bytes).geometry.rootSlots).length ≤
      fat16MaxFiles) :
    (fat16Mount env s).2.fs = { (Fat16Bpb.decode s.ata.bytes).geometry with
      files := (plainSlots s.ata.bytes
        (Fat16Bpb.decode s.ata.bytes).geometry.rootSlots).map (fileAt s.ata.bytes) } := by
  rw [fat16Mount_files hread hmount, scannedSlots_eq_plainSlots hend.pairwise_rootSlots,
    List.take_of_length_le (by rwa [List.length_map])]

/-! ## A formatted drive -/

/-- A freshly formatted drive: the boot sector, one FAT of one sector, the root
directory, and clusters of one sector. -/
def formatted (rootEntries totalSectors : Nat) : Memory :=
  Memory.storeLe (fun _ => 0) 11 2 512
    |>.storeLe 13 1 1
    |>.storeLe 14 2 1
    |>.storeLe 16 1 1
    |>.storeLe 17 2 rootEntries
    |>.storeLe 19 2 totalSectors
    |>.storeLe 22 2 1

theorem formatted_apply_of_le {rootEntries totalSectors x : Nat} (hx : 24 ≤ x) :
    formatted rootEntries totalSectors x = 0 := by
  simp only [formatted, Memory.storeLe]
  repeat rw [Memory.overwrite_of_notMem (by omega)]

theorem decode_formatted {rootEntries totalSectors : Nat} (hroot : rootEntries < 65536)
    (htotal : totalSectors < 65536) :
    Fat16Bpb.decode (formatted rootEntries totalSectors) =
      ⟨512, 1, 1, 1, rootEntries, totalSectors, 1, 0⟩ := by
  simp only [Fat16Bpb.decode, formatted, Fat16Bpb.mk.injEq]
  refine ⟨?_, ?_, ?_, ?_, ?_, ?_, ?_, ?_⟩
  on_goal 8 =>
    repeat rw [Memory.loadLe_storeLe_of_disjoint (by omega)]
    rfl
  all_goals
    repeat rw [Memory.loadLe_storeLe_of_disjoint (by omega)]
    rw [Memory.loadLe_storeLe_same]
    omega

/-- An empty root directory owns no clusters. -/
theorem chained_of_blank (hblank : ∀ x, 512 * fs.rootStart ≤ x → bytes x = 0) :
    Chained fs bytes fun _ => [] := by
  have hdead (slot : Nat) (hslot : fs.IsLiveIn bytes slot) : False := by
    have hlow := hslot.1.1
    exact hslot.2.1 (hblank _ (by omega))
  exact ⟨fun slot hslot => (hdead slot hslot).elim, fun slot _ hslot => (hdead slot hslot).elim⟩

/-- A volume with an empty root directory is well formed. -/
theorem wellFormed_of_blank (hlayout : Layout fs)
    (hblank : ∀ x, 512 * fs.rootStart ≤ x → bytes x = 0) : WellFormed fs bytes := by
  have hhead (slot : Nat) (hslot : fs.InRoot slot) : entryHead bytes slot = 0x00 := by
    have hlow := hslot.1
    exact hblank _ (by omega)
  exact {
    layout := hlayout
    endMarked := fun _ slot' _ hslot' _ _ => hhead slot' hslot'
    namesUnique := fun slot _ hslot => absurd (hhead slot hslot.1) hslot.2.1
    chained := ⟨_, chained_of_blank hblank⟩ }

/-- A volume whose only entry is in the first slot of the root directory and has
a chain is well formed. -/
theorem wellFormed_of_single (hlayout : Layout fs) {slot : Nat} (hslot : fs.InRoot slot)
    (hfirst : slot = 16 * fs.rootStart) (hlive : IsLive bytes slot)
    (hunused : ∀ slot', fs.InRoot slot' → slot < slot' → entryHead bytes slot' = 0x00)
    {cells : List Nat}
    (hchain : Chain fs.clusterKind (fatEntry fs bytes) (entryFirstCluster bytes slot) cells) :
    WellFormed fs bytes := by
  have honly {slot' : Nat} (hslot' : fs.IsLiveIn bytes slot') : slot' = slot := by
    have hlow := hslot'.1.1
    by_contra hne
    exact hslot'.2.1 (hunused slot' hslot'.1 (by omega))
  exact {
    layout := hlayout
    endMarked := by
      intro slot₁ slot₂ hslot₁ hslot₂ hle hmark
      have hlow := hslot₁.1
      have hne : slot₁ ≠ slot := by
        rintro rfl
        exact hlive.1 hmark
      exact hunused slot₂ hslot₂ (by omega)
    namesUnique := fun _ _ hslot₁ hslot₂ _ _ => (honly hslot₁).trans (honly hslot₂).symm
    chained := by
      refine ⟨fun _ => cells, fun slot' hslot' => ?_, fun _ _ hslot₁ hslot₂ hne => ?_⟩
      · rw [honly hslot']
        exact Or.inr hchain
      · exact absurd ((honly hslot₁).trans (honly hslot₂).symm) hne }

theorem layout_formatted {rootEntries totalSectors : Nat} (hroot : rootEntries < 65536)
    (htotal : totalSectors ≤ 254) :
    Layout (Fat16Bpb.decode (formatted rootEntries totalSectors)).geometry := by
  have hclusters : (Fat16Bpb.decode (formatted rootEntries totalSectors)).geometry.totalClusters ≤
      254 := by
    rw [decode_formatted hroot (by omega)]
    simp only [Fat16Bpb.geometry, if_true, Nat.div_one]
    split_ifs <;> omega
  have hfat :
      (Fat16Bpb.decode (formatted rootEntries totalSectors)).geometry.bpb.fatSize16 = 1 := by
    rw [decode_formatted hroot (by omega)]
    rfl
  refine ⟨rfl, ?_, ?_, by omega, by omega, rfl, rfl⟩
  all_goals
    rw [decode_formatted hroot (by omega)]
    exact le_refl 1

theorem formatted_blank {rootEntries totalSectors : Nat} (hroot : rootEntries < 65536)
    (htotal : totalSectors ≤ 254) {x : Nat}
    (hx : 512 * (Fat16Bpb.decode (formatted rootEntries totalSectors)).geometry.rootStart ≤ x) :
    formatted rootEntries totalSectors x = 0 := by
  apply formatted_apply_of_le
  rw [decode_formatted hroot (by omega)] at hx
  exact le_trans (show 24 ≤ 512 * (1 + 1 * 1) by decide) hx

theorem wellFormed_formatted {rootEntries totalSectors : Nat} (hroot : rootEntries < 65536)
    (htotal : totalSectors ≤ 254) :
    WellFormed (Fat16Bpb.decode (formatted rootEntries totalSectors)).geometry
      (formatted rootEntries totalSectors) :=
  wellFormed_of_blank (layout_formatted hroot htotal) fun _ => formatted_blank hroot htotal

end Dosfs.Fat16
