import Dosfs.Fs.Fat16.Table

/-!
# Writing and reading back

What it takes for a written file to be read back and for every other file to
stay as it was. The driver achieves it for empty files only, and only while the
table has a slot that was never used.
-/

namespace Dosfs.Fat16

open Foundation

variable {env : Env} {fs : Fat16Fs} {bytes bytes' : Memory} {chains : Nat → List Nat}

/-- What a caller of `fat16_read_file` sees: the returned value and the bytes in
the buffer. -/
def readResult (fuel : Nat) (name : CString) (maxSize : Nat) (s : Fat16State) :
    Option (Int × List UInt8) :=
  (fat16ReadFile Env.faultless fuel name maxSize s).map fun (ret, buf, _) => (ret, buf)

/-- The file is written, read back, and every other file reads as before. -/
def RoundTrip (fuel : Nat) (name : CString) (data : List UInt8) (s : Fat16State) : Prop :=
  ∃ s', fat16WriteFile Env.faultless fuel name data s = some ((data.length : Int), s') ∧
    (∀ m, readResult fuel name m s' = some (((min data.length m : Nat) : Int), data.take m)) ∧
    ∀ other, strcasecmp other name ≠ 0 → ∀ m,
      readResult fuel other m s' = readResult fuel other m s

/-- A mounted well-formed volume: the plain entries have names that the encoder
produces, and the used slots of the table stand for different plain entries. -/
structure Mounted (s : Fat16State) : Prop where
  wellFormed : WellFormed s.fs s.ata.bytes
  encoded : ∀ slot, s.fs.InRoot slot → IsPlain s.ata.bytes slot →
    fat16ParseName (fat16UnparseName (entryName s.ata.bytes slot)) = entryName s.ata.bytes slot
  table : tableRecords s.fs.files ≤ diskRecords s.fs s.ata.bytes

/-- Free clusters for the data, a free slot in the root directory, and a slot of
the table that is not in use. -/
structure HasRoom (data : List UInt8) (s : Fat16State) : Prop where
  clusters : data.length ≤ s.fs.clusterSize * ((Finset.Ico 2 (2 + s.fs.totalClusters)).filter
    fun c => fatEntry s.fs s.ata.bytes c = 0x0000).card
  slot : ∃ slot, s.fs.InRoot slot ∧ ¬ IsLive s.ata.bytes slot
  file : s.fs.files.length < fat16MaxFiles ∨ ∃ file ∈ s.fs.files, file.used = false

/-! ## Reading -/

theorem readFileLoop_with_files (files : List Fat16File) (size maxSize fuel cluster : Nat)
    (read : List UInt8) (ata : Ata) :
    readFileLoop env { fs with files } size maxSize fuel cluster read ata =
      readFileLoop env fs size maxSize fuel cluster read ata := by
  induction fuel generalizing cluster read ata with
  | zero => rfl
  | succ fuel ih =>
      simp only [readFileLoop, fat16ReadCluster, Fat16Fs.clusterSector, Fat16Fs.clusterSize,
        fat16GetNextCluster, Fat16Fs.fatSector, ih]
      rfl

/-- One turn of the read loop in which memory is found and both transfers
succeed. -/
theorem readFileLoop_turn {size maxSize fuel cluster t : Nat} {read : List UInt8}
    (hcluster : 2 ≤ cluster ∧ cluster < 0xFF8 ∧ read.length < maxSize)
    (hmemory : env.kmallocFails t = false)
    (hdata : env.fault t (.read (fs.clusterSector cluster) fs.bpb.sectorsPerCluster) = false)
    (hfat : env.fault (t + 1) (.read (fs.fatSector cluster) 1) = false) :
    readFileLoop env fs size maxSize (fuel + 1) cluster read ⟨bytes, t⟩ =
      readFileLoop env fs size maxSize fuel (fatEntry fs bytes cluster)
        (read ++ bytes.loadList (512 * fs.clusterSector cluster)
          (min (min (size - read.length) fs.clusterSize) (maxSize - read.length)))
        ⟨bytes, t + 2⟩ := by
  have hcopy (left : Nat) :
      (if maxSize < read.length + (if fs.clusterSize < left then fs.clusterSize else left) then
          maxSize - read.length
        else if fs.clusterSize < left then fs.clusterSize else left) =
        min (min left fs.clusterSize) (maxSize - read.length) := by
    split_ifs <;> omega
  rw [readFileLoop, if_pos hcluster, if_neg (by simp [hmemory]), fat16ReadCluster,
    ataReadSectors_ok hdata]
  simp only [fat16GetNextCluster_eq, hfat, Bool.false_eq_true, if_false, hcopy,
    Memory.loadList_window, Nat.add_zero]

/-- One turn of the read loop on a drive without errors. -/
theorem readFileLoop_succ {size maxSize fuel cluster : Nat} {read : List UInt8} {ata : Ata}
    (hcluster : 2 ≤ cluster ∧ cluster < 0xFF8 ∧ read.length < maxSize) :
    readFileLoop Env.faultless fs size maxSize (fuel + 1) cluster read ata =
      readFileLoop Env.faultless fs size maxSize fuel (fatEntry fs ata.bytes cluster)
        (read ++ ata.bytes.loadList (512 * fs.clusterSector cluster)
          (min (min (size - read.length) fs.clusterSize) (maxSize - read.length)))
        ⟨ata.bytes, ata.clock + 2⟩ :=
  readFileLoop_turn hcluster rfl rfl rfl

theorem readFileLoop_stop {size maxSize fuel cluster : Nat} {read : List UInt8} {ata : Ata}
    (hcluster : ¬ (2 ≤ cluster ∧ cluster < 0xFF8 ∧ read.length < maxSize)) :
    readFileLoop env fs size maxSize (fuel + 1) cluster read ata = some (read, ata) := by
  rw [readFileLoop, if_neg hcluster]

/-- Two drives with the same chain and the same data read alike. -/
theorem readFileLoop_congr {size maxSize fuel cluster t t' : Nat} {read : List UInt8}
    {cells : List Nat} (hchain : Chain fs.clusterKind (fatEntry fs bytes) cluster cells)
    (hchain' : Chain fs.clusterKind (fatEntry fs bytes') cluster cells)
    (hdata : ∀ x, 512 * fs.dataStart ≤ x → bytes' x = bytes x) :
    (readFileLoop Env.faultless fs size maxSize fuel cluster read ⟨bytes', t'⟩).map Prod.fst =
      (readFileLoop Env.faultless fs size maxSize fuel cluster read ⟨bytes, t⟩).map Prod.fst := by
  induction fuel generalizing cluster read cells t t' with
  | zero => rfl
  | succ fuel ih =>
      by_cases hcluster : 2 ≤ cluster ∧ cluster < 0xFF8 ∧ read.length < maxSize
      · have hload (count : Nat) : bytes'.loadList (512 * fs.clusterSector cluster) count =
            bytes.loadList (512 * fs.clusterSector cluster) count := by
          refine Memory.loadList_congr fun x hlow _ => hdata x ?_
          rw [Fat16Fs.clusterSector] at hlow
          omega
        rw [readFileLoop_succ hcluster, readFileLoop_succ hcluster]
        simp only [hload]
        -- the loop stops at any end mark
        have hstop (next t : Nat) (mem : Memory) (buf : List UInt8)
            (hend : fs.clusterKind.ended next) :
            (readFileLoop Env.faultless fs size maxSize fuel next buf ⟨mem, t⟩).map Prod.fst =
              if fuel = 0 then none else some buf := by
          cases fuel with
          | zero => rfl
          | succ fuel =>
              have hend : 0xFFF8 ≤ next := hend
              rw [readFileLoop_stop (by omega)]
              rfl
        cases hchain with
        | last _ hend =>
            cases hchain' with
            | last _ hend' => rw [hstop _ _ _ _ hend', hstop _ _ _ _ hend]
            | link _ htail' => cases htail'
        | link _ htail =>
            cases hchain' with
            | last => cases htail
            | link _ htail' =>
                have hnext : fatEntry fs bytes' cluster = fatEntry fs bytes cluster :=
                  Option.some.inj (htail'.head?_eq.symm.trans htail.head?_eq)
                rw [hnext] at htail' ⊢
                exact ih htail htail'
      · rw [readFileLoop_stop hcluster, readFileLoop_stop hcluster]
        rfl

theorem readResult_eq {fuel maxSize : Nat} {name : CString} {s : Fat16State}
    (hmounted : s.fs.mounted = true) :
    readResult fuel name maxSize s =
      match s.fs.files.find? (Fat16File.isNamed name) with
      | none => some (-1, [])
      | some file =>
          ((readFileLoop Env.faultless s.fs file.size maxSize fuel file.firstCluster []
            s.ata).map Prod.fst).map fun buf => (toInt buf.length, buf) := by
  rw [readResult, fat16ReadFile, hmounted]
  cases hfind : s.fs.files.find? (Fat16File.isNamed name) with
  | none => rfl
  | some file =>
      simp only [Bool.not_true, Bool.false_eq_true, if_false]
      cases readFileLoop Env.faultless s.fs file.size maxSize fuel file.firstCluster [] s.ata with
      | none => simp
      | some result => simp

/-- An empty file reads as empty. -/
theorem readFileLoop_empty {maxSize fuel cluster : Nat} {ata : Ata} (hfuel : 2 ≤ fuel)
    (hcluster : cluster < 2 ∨ fs.clusterKind.ended (fatEntry fs ata.bytes cluster)) :
    (readFileLoop Env.faultless fs 0 maxSize fuel cluster [] ata).map Prod.fst = some [] := by
  obtain ⟨fuel, rfl⟩ : ∃ k, fuel = k + 2 := ⟨fuel - 2, by omega⟩
  by_cases hloop : 2 ≤ cluster ∧ cluster < 0xFF8 ∧ ([] : List UInt8).length < maxSize
  · have hended : fs.clusterKind.ended (fatEntry fs ata.bytes cluster) :=
      hcluster.resolve_left (by omega)
    have hend : 0xFFF8 ≤ fatEntry fs ata.bytes cluster := hended
    rw [readFileLoop_succ hloop, readFileLoop_stop (by omega)]
    simp [Memory.loadList]
  · rw [readFileLoop_stop hloop]
    rfl

/-! ## Names in the table -/

theorem find?_dropFile {name other : CString} (hne : other.upper ≠ name.upper)
    (files : List Fat16File) :
    (dropFile name files).find? (Fat16File.isNamed other) =
      files.find? (Fat16File.isNamed other) := by
  induction files with
  | nil => rfl
  | cons file files ih =>
      unfold dropFile
      by_cases hnamed : file.isNamed name = true
      · have hother : file.isNamed other = false := by
          by_contra h
          have hupper := (isNamed_iff.mp (Bool.eq_true_of_not_eq_false h)).2
          exact hne (hupper.symm.trans (isNamed_iff.mp hnamed).2)
        rw [if_pos hnamed, List.find?_cons_of_neg (by simp [Fat16File.isNamed]),
          List.find?_cons_of_neg (by simp [hother])]
      · rw [if_neg hnamed, List.find?_cons, List.find?_cons, ih]

/-- On a mounted volume an entry with the decoded name has the encoded name. -/
theorem Mounted.entryName_eq {s : Fat16State} (h : Mounted s) {name : CString} {slot : Nat}
    (hslot : s.fs.InRoot slot) (hplain : IsPlain s.ata.bytes slot)
    (hname : (fat16UnparseName (entryName s.ata.bytes slot)).upper = name.upper) :
    entryName s.ata.bytes slot = fat16ParseName name := by
  rw [← h.encoded slot hslot hplain, ← fat16ParseName_upper, hname, fat16ParseName_upper]

theorem Mounted.onlyNamed {s : Fat16State} (h : Mounted s) {name : CString} {slot : Nat}
    (hslot : s.fs.IsLiveIn s.ata.bytes slot)
    (hname : entryName s.ata.bytes slot = fat16ParseName name) :
    OnlyNamed s.fs s.ata.bytes name slot := by
  intro slot' hslot' hplain hfold
  have hentry := h.entryName_eq hslot' hplain hfold
  refine h.wellFormed.namesUnique slot' slot ⟨hslot', hplain.1⟩ hslot (hentry.trans hname.symm) ?_
  rw [hentry]
  exact fun hzero => fat16ParseName_ne_zero name 0 hzero rfl

/-- A used file of the table stands for a plain entry. -/
theorem Mounted.exists_slot {s : Fat16State} (h : Mounted s) {file : Fat16File}
    (hfile : file ∈ s.fs.files) (hused : file.used = true) :
    ∃ slot, s.fs.InRoot slot ∧ IsPlain s.ata.bytes slot ∧
      (fileAt s.ata.bytes slot).record = file.record :=
  mem_diskRecords.mp (Multiset.mem_of_le h.table (mem_tableRecords.mpr ⟨file, hfile, hused, rfl⟩))

/-- Once the entry with the encoded name is gone, so is every file of that name. -/
theorem Mounted.not_isNamed_dropFile {s : Fat16State} (h : Mounted s) {name : CString} {slot : Nat}
    (hslot : s.fs.IsLiveIn s.ata.bytes slot)
    (hname : entryName s.ata.bytes slot = fat16ParseName name) :
    ∀ file ∈ dropFile name s.fs.files, file.isNamed name = false := by
  by_cases hany : ∃ file ∈ s.fs.files, file.isNamed name = true
  · obtain ⟨found, hfound, hnamed, hrecords⟩ := tableRecords_dropFile hany
    intro file hfile
    by_contra hfnamed
    have hfile' := isNamed_iff.mp (Bool.eq_true_of_not_eq_false hfnamed)
    -- two records with the name, but only one entry
    have htwo : 2 ≤ (tableRecords s.fs.files).countP (fun record => record.1 = name.upper) := by
      have hfirst : found.record.1 = name.upper := (isNamed_iff.mp hnamed).2
      rw [hrecords,
        Multiset.countP_cons_of_pos (p := fun record : Record => record.1 = name.upper) _ hfirst]
      have hpos : 0 < (tableRecords (dropFile name s.fs.files)).countP
          (fun record => record.1 = name.upper) :=
        Multiset.countP_pos.mpr
          ⟨file.record, mem_tableRecords.mpr ⟨file, hfile, hfile'.1, rfl⟩, hfile'.2⟩
      omega
    have hone :
        (diskRecords s.fs s.ata.bytes).countP (fun record => record.1 = name.upper) ≤ 1 := by
      have hrest : (slotRecords s.ata.bytes (s.fs.rootSlots.erase slot)).countP
          (fun record => record.1 = name.upper) = 0 := by
        refine Multiset.countP_eq_zero.mpr fun record hrecord hfold => ?_
        obtain ⟨slot', hslot', hplain, rfl⟩ := mem_slotRecords.mp hrecord
        rw [s.fs.rootSlots_nodup.mem_erase_iff] at hslot'
        exact hslot'.1 (h.onlyNamed hslot hname slot' (s.fs.mem_rootSlots.mp hslot'.2) hplain hfold)
      rw [diskRecords_eq hslot.1, Multiset.countP_add, hrest, add_zero]
      split_ifs
      · exact (Multiset.countP_le_card _ _).trans (by simp)
      · simp
    have hle := Multiset.countP_le_of_le (fun record : Record => record.1 = name.upper) h.table
    omega
  · have hnone : ∀ file ∈ s.fs.files, file.isNamed name = false := by
      intro file hfile
      by_contra hnamed
      exact hany ⟨file, hfile, Bool.eq_true_of_not_eq_false hnamed⟩
    rw [dropFile_eq_self hnone]
    exact hnone

/-! ## The deletion that starts a write -/

/-- What is left after the name was deleted from a mounted volume. -/
structure Erased (name : CString) (chains : Nat → List Nat) (s s₁ : Fat16State) : Prop where
  fs : ∃ files, s₁.fs = { s.fs with files }
  chained : Chained s₁.fs s₁.ata.bytes chains
  unnamed : ∀ file ∈ s₁.fs.files, file.isNamed name = false
  find : ∀ other : CString, other.upper ≠ name.upper →
    s₁.fs.files.find? (Fat16File.isNamed other) = s.fs.files.find? (Fat16File.isNamed other)
  length : s₁.fs.files.length = s.fs.files.length
  same : ∀ slot, s.fs.InRoot slot →
    (fat16UnparseName (entryName s.ata.bytes slot)).upper ≠ name.upper →
      SameSlot s₁.ata.bytes s.ata.bytes slot
  vacant : ∀ slot, s.fs.InRoot slot → ¬ IsLive s.ata.bytes slot → ¬ IsLive s₁.ata.bytes slot
  data : ∀ x, 512 * s.fs.dataStart ≤ x → s₁.ata.bytes x = s.ata.bytes x

theorem Mounted.erased {name : CString} {s s₁ : Fat16State} {ret : Int} (h : Mounted s)
    (hchained : Chained s.fs s.ata.bytes chains) (hvalid : ValidName name)
    (hdeletes : Deletes Env.faultless name chains s ret s₁) : Erased name chains s s₁ := by
  have hlayout := h.wellFormed.layout
  have hkept := hdeletes.chained hlayout hchained hvalid.head_ne (not_orphans_faultless _ _)
  cases hdeletes with
  | missing clock hnone =>
      refine ⟨⟨_, rfl⟩, hkept, ?_, fun _ _ => rfl, rfl, fun _ _ _ _ _ _ => rfl,
        fun _ _ hvacant => hvacant, fun _ _ => rfl⟩
      intro file hfile
      by_contra hnamed
      obtain ⟨hused, hupper⟩ := isNamed_iff.mp (Bool.eq_true_of_not_eq_false hnamed)
      obtain ⟨slot, hslot, hplain, hrecord⟩ := h.exists_slot hfile hused
      have hentry := h.entryName_eq hslot hplain ((congrArg Prod.fst hrecord).trans hupper)
      have hlow := hslot.1
      have hhigh := hslot.2
      exact hnone slot (by omega) (by omega) (hasName_iff.mpr hentry) rfl
  | unmarked slot clock hstop hfault => exact absurd hfault (by simp [Env.faultless])
  | marked slot clock hstop hok =>
      have hname := hasName_iff.mp hstop.passes
      have hslot : s.fs.IsLiveIn s.ata.bytes slot :=
        ⟨hstop.inRoot, isLive_of_hasName hvalid.head_ne hstop.passes⟩
      have hcells : ∀ c ∈ (deleteTrace Env.faultless s.fs chains s.ata.clock slot).1,
          s.fs.clusterKind.inside c := fun c hc => deleteTrace_inside hchained hslot hc
      refine ⟨⟨_, rfl⟩, hkept, h.not_isNamed_dropFile hslot hname,
        fun other hne => find?_dropFile hne _, dropFile_length _ _, ?_, ?_, ?_⟩
      · intro slot' hslot' hfold
        refine sameSlot_mark hlayout hcells hslot' ?_
        rintro rfl
        rw [hname, fat16UnparseName_parseName hvalid, CString.upper_upper] at hfold
        exact hfold rfl
      · intro slot' hslot' hvacant
        by_cases hne : slot' = slot
        · rw [hne]
          exact not_isLive_mark
        · rwa [(sameSlot_mark hlayout hcells hslot' hne).isLive]
      · intro x hx
        have haddr := hlayout.slotAddr_lt hslot.1
        have hdataStart := hlayout.dataStart
        change Memory.storeByte _ _ _ x = _
        rw [Memory.storeByte_of_ne (by omega)]
        exact zeroFat_apply_of_rootStart_le hlayout hcells (by omega)

theorem find?_addFile {name other : CString} (hvalid : ValidName name)
    (hne : other.upper ≠ name.upper) (size first : Nat) (files : List Fat16File) :
    (addFile name size first files).find? (Fat16File.isNamed other) =
      files.find? (Fat16File.isNamed other) := by
  unfold addFile
  split_ifs
  · rw [List.find?_append, List.find?_cons_of_neg, List.find?_nil, Option.or_none]
    rw [hvalid.ofBuffer_take]
    exact fun hnamed => hne (isNamed_iff.mp hnamed).2.symm
  · rfl

theorem Allocated.data {first x : Nat} (hlayout : Layout fs) (h : Allocated fs bytes first bytes')
    (hx : 512 * fs.rootStart ≤ x) : bytes' x = bytes x := by
  rcases h with ⟨-, rfl⟩ | ⟨hinside, -, rfl⟩
  · rfl
  · have haddr := hlayout.fatAddr_lt hinside
    exact setFat_apply_of_le (by omega)

/-- A file that is not of the given name reads as before when that name is
deleted and a new file is entered. -/
theorem Erased.read_other {name other : CString} {s s₁ : Fat16State} (h : Mounted s)
    (hchained : Chained s.fs s.ata.bytes chains) (herased : Erased name chains s s₁)
    (hvalid : ValidName name) (hother : other.upper ≠ name.upper) {first slot : Nat}
    {allocated : Memory} (hfirst : Allocated s₁.fs s₁.ata.bytes first allocated)
    (hslot : s₁.fs.InRoot slot) (t fuel m : Nat) :
    readResult fuel other m ⟨{ s₁.fs with files := addFile name 0 first s₁.fs.files },
        ⟨putEntry allocated slot (fat16ParseName name) 0 first, t⟩⟩ =
      readResult fuel other m s := by
  obtain ⟨files, hfs⟩ := herased.fs
  have hlayout := h.wellFormed.layout
  have hfind : s₁.fs.files.find? (Fat16File.isNamed other) = _ := herased.find other hother
  obtain ⟨fs₁, ata₁⟩ := s₁
  simp only at hfs
  subst hfs
  have hslot : s.fs.InRoot slot := hslot
  have hfirst : Allocated s.fs ata₁.bytes first allocated := hfirst
  have hlength := fat16ParseName_length name
  rw [readResult_eq, readResult_eq hlayout.mounted]
  swap
  · exact hlayout.mounted
  simp only [find?_addFile hvalid hother, readFileLoop_with_files]
  rw [hfind]
  cases hfile : s.fs.files.find? (Fat16File.isNamed other) with
  | none => rfl
  | some file =>
      simp only
      congr 1
      obtain ⟨hused, hupper⟩ := isNamed_iff.mp (List.find?_some hfile)
      obtain ⟨slot₀, hslot₀, hplain, hrecord⟩ :=
        h.exists_slot (List.mem_of_find?_eq_some hfile) hused
      have hcluster : file.firstCluster = entryFirstCluster s.ata.bytes slot₀ :=
        (congrArg (fun record : Record => record.2.2) hrecord).symm
      have hfold : (fat16UnparseName (entryName s.ata.bytes slot₀)).upper ≠ name.upper := by
        have hname : (fat16UnparseName (entryName s.ata.bytes slot₀)).upper = file.name.upper :=
          congrArg Prod.fst hrecord
        rw [hname, hupper]
        exact hother
      rw [hcluster]
      -- A file without a chain reads nothing. Else the chain, its table entries and its sectors
      -- are those of before.
      rcases hchained.chain slot₀ ⟨hslot₀, hplain.1⟩ with ⟨hvacant₀, -⟩ | hchain
      · have hlow : entryFirstCluster s.ata.bytes slot₀ < 2 := hvacant₀
        cases fuel with
        | zero => rfl
        | succ fuel => rw [readFileLoop_stop (by omega), readFileLoop_stop (by omega)]; rfl
      · have halloc : SameSlot allocated s.ata.bytes slot₀ :=
          (hfirst.sameSlot hlayout hslot₀).trans (herased.same slot₀ hslot₀ hfold)
        have hkept := (show Chained s.fs ata₁.bytes chains from herased.chained).put_others hlayout
          hfirst hslot hlength 0
        have hchain' := hkept.chain_of_mem ⟨hslot₀, halloc.isLive.mpr hplain.1⟩ hchain.head_mem
        rw [halloc.firstCluster] at hchain'
        refine readFileLoop_congr hchain hchain' fun x hx => ?_
        have haddr := hlayout.slotAddr_lt hslot
        have hdataStart := hlayout.dataStart
        rw [putEntry_apply_of_outside hlength (by omega), hfirst.data hlayout (by omega)]
        exact herased.data x hx

/-- The new file reads as empty. -/
theorem Erased.read_new {name : CString} {s s₁ : Fat16State} (h : Mounted s)
    (herased : Erased name chains s s₁) (hvalid : ValidName name)
    (hroom : s.fs.files.length < fat16MaxFiles) {first slot : Nat} {allocated : Memory}
    (hfirst : Allocated s₁.fs s₁.ata.bytes first allocated) (hslot : s₁.fs.InRoot slot)
    (t m : Nat) {fuel : Nat} (hfuel : 2 ≤ fuel) :
    readResult fuel name m ⟨{ s₁.fs with files := addFile name 0 first s₁.fs.files },
        ⟨putEntry allocated slot (fat16ParseName name) 0 first, t⟩⟩ = some (0, []) := by
  obtain ⟨files, hfs⟩ := herased.fs
  have hlayout : Layout s₁.fs := hfs ▸ h.wellFormed.layout.with_files files
  have hlength := fat16ParseName_length name
  have hnone : s₁.fs.files.find? (Fat16File.isNamed name) = none :=
    List.find?_eq_none.mpr fun file hfile => by simp [herased.unnamed file hfile]
  rw [readResult_eq]
  swap
  · exact hlayout.mounted
  simp only [addFile, herased.length, if_pos hroom, List.find?_append, hnone, hvalid.ofBuffer_take,
    readFileLoop_with_files, Option.none_or]
  rw [List.find?_cons_of_pos (by simp [isNamed_iff])]
  simp only
  rw [readFileLoop_empty hfuel]
  · rfl
  · rcases hfirst with ⟨rfl, -⟩ | ⟨hinside, -, rfl⟩
    · exact Or.inl (by decide)
    · have hhigh : first < 0xFFF8 := hinside.2.2
      have hroot := hslot.1
      rw [Nat.mod_eq_of_lt (by omega)]
      right
      change 0xFFF8 ≤ fatEntry s₁.fs (putEntry _ slot _ 0 first) first
      rw [fatEntry_putEntry hlayout hslot hlength hinside, fatEntry_setFat, if_pos rfl]
      decide

/-! ## The round trip -/

/-- A write that reports its whole length wrote nothing and entered the file. -/
theorem Stores.entered_of_ret {name : CString} {data : List UInt8} {s s' : Fat16State} {ret : Int}
    (h : Stores env name data s ret s') (hret : ret = data.length) :
    data = [] ∧ ∃ first slot t allocated, Allocated s.fs s.ata.bytes first allocated ∧
      s.fs.InRoot slot ∧ ¬ IsLive allocated slot ∧
      s' = ⟨{ s.fs with files := addFile name 0 first s.fs.files },
        ⟨putEntry allocated slot (fat16ParseName name) 0 first, t⟩⟩ := by
  cases h with
  | refused => omega
  | rolledBack => omega
  | entered first clock allocated ret s' hdata hfirst henters =>
      cases henters with
      | failed => omega
      | filled slot t hslot hvacant =>
          exact ⟨hdata, first, slot, t, allocated, hfirst, hslot, hvacant, rfl⟩

/-- Without faults, a free slot of the root directory is found. -/
theorem Stores.ret_of_empty {name : CString} {s s' : Fat16State} {ret : Int}
    (hlayout : Layout s.fs) (h : Stores Env.faultless name [] s ret s')
    (hslot : ∃ slot, s.fs.InRoot slot ∧ ¬ IsLive s.ata.bytes slot) : ret = 0 := by
  cases h with
  | refused _ hdata => exact absurd rfl hdata
  | rolledBack _ _ _ _ hdata => exact absurd rfl hdata
  | entered first clock allocated ret s' hdata hfirst henters =>
      cases henters with
      | filled => rfl
      | failed clock hfail =>
          rcases hfail with hnone | ⟨t, lba, hfault⟩
          · obtain ⟨slot, hslot, hvacant⟩ := hslot
            have hlow := hslot.1
            have hhigh := hslot.2
            rw [← (hfirst.sameSlot hlayout hslot).isLive] at hvacant
            have hdiv : s.fs.rootStart ≤ slot / 16 := by omega
            have hdiv' : slot / 16 < s.fs.rootStart + s.fs.rootSectors := by omega
            exact absurd rfl (hnone slot hdiv hdiv' (isVacant_iff.mpr hvacant))
          · exact absurd hfault (by simp [Env.faultless])

/-- The write and read round trip works exactly for empty files, while the table
has a slot that was never used. -/
theorem fat16_roundTrip_iff {s : Fat16State} (hmounted : Mounted s) {name : CString}
    (hvalid : ValidName name) {data : List UInt8} (hroom : HasRoom data s) {fuel : Nat}
    (hfuel : 65536 ≤ fuel) :
    RoundTrip fuel name data s ↔ data = [] ∧ s.fs.files.length < fat16MaxFiles := by
  have hlayout := hmounted.wellFormed.layout
  obtain ⟨chains, hchained⟩ := hmounted.wellFormed.chained
  obtain ⟨ret₁, s₁, ret, s', hdeletes, hstores, hwrite⟩ :=
    fat16WriteFile_stores Env.faultless hlayout hchained hvalid.head_ne data hfuel
  have herased := hmounted.erased hchained hvalid hdeletes
  constructor
  · rintro ⟨s'', hwrite', hread, -⟩
    obtain ⟨rfl, rfl⟩ : ret = data.length ∧ s' = s'' := by simpa [hwrite] using hwrite'
    obtain ⟨rfl, first, slot, t, allocated, -, -, -, rfl⟩ := hstores.entered_of_ret rfl
    refine ⟨rfl, ?_⟩
    by_contra hfull
    -- the table stays as it was and knows no file of that name
    have hfiles : addFile name 0 first s₁.fs.files = s₁.fs.files := by
      rw [addFile, herased.length, if_neg hfull]
    have hnone : s₁.fs.files.find? (Fat16File.isNamed name) = none :=
      List.find?_eq_none.mpr fun file hfile => by simp [herased.unnamed file hfile]
    have hmissing := hread 0
    rw [readResult_eq] at hmissing
    · simp [hfiles, hnone] at hmissing
    · exact (hdeletes.layout hlayout).mounted
  · rintro ⟨rfl, hfiles⟩
    obtain ⟨slot₀, hslot₀, hvacant₀⟩ := hroom.slot
    have hslot₁ : ∃ slot, s₁.fs.InRoot slot ∧ ¬ IsLive s₁.ata.bytes slot := by
      obtain ⟨files, hfs⟩ := herased.fs
      exact ⟨slot₀, hfs ▸ hslot₀, herased.vacant slot₀ hslot₀ hvacant₀⟩
    have hret := hstores.ret_of_empty (hdeletes.layout hlayout) hslot₁
    obtain ⟨-, first, slot, t, allocated, hfirst, hslot, -, rfl⟩ :=
      hstores.entered_of_ret (by simpa using hret)
    refine ⟨_, by rw [hwrite, hret]; rfl, fun m => ?_, fun other hother m => ?_⟩
    · rw [herased.read_new hmounted hvalid hfiles hfirst hslot t m (by omega)]
      simp
    · rw [Ne, strcasecmp_eq_zero_iff] at hother
      exact herased.read_other hmounted hchained hvalid hother hfirst hslot t fuel m

/-- A small formatted drive, mounted. -/
def blankState : Fat16State :=
  ⟨(Fat16Bpb.decode (formatted 16 7)).geometry, ⟨formatted 16 7, 0⟩⟩

theorem blankState_mounted : Mounted blankState where
  wellFormed := wellFormed_formatted (by decide) (by decide)
  encoded slot hslot hplain := by
    have hlow := hslot.1
    exact absurd (formatted_blank (by decide) (by decide)
      (show 512 * blankState.fs.rootStart ≤ 32 * slot by omega)) hplain.1.1
  table := Multiset.zero_le _

theorem blankState_hasRoom {data : List UInt8} (hdata : data.length ≤ 2048) :
    HasRoom data blankState where
  clusters := by
    have hfree : blankState.fs.clusterSize *
        ((Finset.Ico 2 (2 + blankState.fs.totalClusters)).filter
          fun c => fatEntry blankState.fs blankState.ata.bytes c = 0x0000).card = 2048 := by
      decide
    rwa [hfree]
  slot := ⟨32, by decide⟩
  file := Or.inl (by decide)

theorem validName_single : ValidName ⟨[0x41], by simp⟩ :=
  ⟨⟨[0x41], [], rfl, by simp⟩, by decide⟩

/-! A drive with one file, named A, of 1100 bytes in the clusters 2, 5 and 3. -/

def scatteredDrive : Memory :=
  let linked := ((formatted 16 12).storeLe (512 + 2 * 2) 2 5).storeLe (512 + 2 * 5) 2 3
  putEntry (linked.storeLe (512 + 2 * 3) 2 0xFFFF) 32 (fat16ParseName (.ofBuffer [0x41])) 1100 2

/-- What mounting it gives. -/
def scatteredState : Fat16State := (fat16Mount Env.faultless ⟨.zero, ⟨scatteredDrive, 0⟩⟩).2

theorem scatteredState_bytes : scatteredState.ata.bytes = scatteredDrive :=
  (fat16Mount_state Env.faultless ⟨.zero, ⟨scatteredDrive, 0⟩⟩).1

theorem scatteredState_fs : scatteredState.fs =
    ⟨⟨512, 1, 1, 1, 16, 12, 1, 0⟩, 1, 2, 3, 9, true,
      [⟨⟨[0x41], by simp⟩, 1100, 2, 0x20, true⟩]⟩ := by
  decide +kernel

theorem scatteredState_inRoot {slot : Nat} :
    scatteredState.fs.InRoot slot ↔ 32 ≤ slot ∧ slot < 48 := by
  rw [scatteredState_fs]
  rfl

theorem scatteredState_unused :
    ∀ slot < 48, 32 < slot → entryHead scatteredState.ata.bytes slot = 0x00 := by
  rw [scatteredState_bytes]
  decide

theorem scatteredState_isLiveIn : scatteredState.fs.IsLiveIn scatteredState.ata.bytes 32 := by
  refine ⟨scatteredState_inRoot.mpr (by decide), ?_⟩
  rw [scatteredState_bytes]
  decide

theorem scatteredState_chain : Chain scatteredState.fs.clusterKind
    (fatEntry scatteredState.fs scatteredState.ata.bytes)
    (entryFirstCluster scatteredState.ata.bytes 32) [2, 5, 3] := by
  have hinside (c : Nat) (hc : 2 ≤ c ∧ c < 11) : scatteredState.fs.clusterKind.inside c := by
    rw [scatteredState_fs]
    exact ⟨hc.1, hc.2, hc.2.trans (by decide)⟩
  have hfat (c : Nat) : fatEntry scatteredState.fs scatteredState.ata.bytes c =
      scatteredDrive.loadLe (512 + 2 * c) 2 := by
    rw [fatEntry, scatteredState_fs, scatteredState_bytes]
    rfl
  have hlink₂ : scatteredDrive.loadLe (512 + 2 * 2) 2 = 5 := by decide
  have hlink₅ : scatteredDrive.loadLe (512 + 2 * 5) 2 = 3 := by decide
  have hlink₃ : scatteredDrive.loadLe (512 + 2 * 3) 2 = 0xFFFF := by decide
  have hfirst : entryFirstCluster scatteredState.ata.bytes 32 = 2 := by
    rw [scatteredState_bytes]
    decide
  rw [hfirst]
  refine .link (hinside 2 (by decide)) ?_
  rw [hfat, hlink₂]
  refine .link (hinside 5 (by decide)) ?_
  rw [hfat, hlink₅]
  refine .last (hinside 3 (by decide)) ?_
  rw [hfat, hlink₃]
  exact (by decide : 0xFFF8 ≤ 0xFFFF)

theorem scatteredState_wellFormed : WellFormed scatteredState.fs scatteredState.ata.bytes := by
  refine wellFormed_of_single ?_ scatteredState_isLiveIn.1 ?_ scatteredState_isLiveIn.2
    (fun slot hslot hlt => ?_) scatteredState_chain
  · rw [scatteredState_fs]
    exact ⟨rfl, by decide, by decide, by decide, by decide, rfl, rfl⟩
  · rw [scatteredState_fs]
    rfl
  · exact scatteredState_unused slot (scatteredState_inRoot.mp hslot).2 hlt

theorem scatteredState_mounted : Mounted scatteredState where
  wellFormed := scatteredState_wellFormed
  encoded slot hslot hplain := by
    have hroot := scatteredState_inRoot.mp hslot
    obtain rfl : slot = 32 := by
      by_contra hne
      exact hplain.1.1 (scatteredState_unused slot hroot.2 (by omega))
    rw [scatteredState_bytes]
    decide
  table := by
    rw [scatteredState_fs, scatteredState_bytes]
    decide

theorem scatteredState_hasRoom {data : List UInt8} (hdata : data.length ≤ 3072) :
    HasRoom data scatteredState where
  clusters := by
    have hfree : scatteredState.fs.clusterSize *
        ((Finset.Ico 2 (2 + scatteredState.fs.totalClusters)).filter
          fun c => fatEntry scatteredState.fs scatteredState.ata.bytes c = 0x0000).card = 3072 := by
      decide
    rwa [hfree]
  slot := ⟨33, scatteredState_inRoot.mpr (by decide),
    fun hlive => hlive.1 (scatteredState_unused 33 (by decide) (by decide))⟩
  file := Or.inl (by rw [scatteredState_fs]; decide)

/-- Three bytes, beside a file that is there. -/
theorem fat16_roundTrip_iff_scattered :
    RoundTrip 65536 ⟨[0x42], by simp⟩ [1, 2, 3] scatteredState ↔
      ([1, 2, 3] : List UInt8) = [] ∧ scatteredState.fs.files.length < fat16MaxFiles :=
  fat16_roundTrip_iff scatteredState_mounted ⟨⟨[0x42], [], rfl, by simp⟩, by decide⟩
    (scatteredState_hasRoom (by decide)) (le_refl 65536)

/-- One byte cannot be written to an empty drive. -/
theorem not_roundTrip_one_byte :
    Mounted blankState ∧ ValidName ⟨[0x41], by simp⟩ ∧ HasRoom [1] blankState ∧
      (fat16WriteFile Env.faultless 65536 ⟨[0x41], by simp⟩ [1] blankState).map Prod.fst =
        some (-1) ∧
      ¬ RoundTrip 65536 ⟨[0x41], by simp⟩ [1] blankState := by
  have hret : (fat16WriteFile Env.faultless 65536 ⟨[0x41], by simp⟩ [1] blankState).map
      Prod.fst = some (-1) := by
    decide
  refine ⟨blankState_mounted, validName_single, blankState_hasRoom (by decide), hret, ?_⟩
  rintro ⟨s', hwrite, -⟩
  simp [hwrite] at hret

end Dosfs.Fat16
