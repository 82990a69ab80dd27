import Mathlib.Data.Multiset.Filter
import Mathlib.Data.Multiset.AddSub
import Dosfs.Fs.Fat16.Consistency

/-!
# The table of files and the directory

The driver keeps what it needs to know of each file twice: in the root directory
and in its table. Both are compared as multisets of records. Deletions keep them
in step when the string comparison on the table and the byte comparison on the
directory single out the same file. Creations keep them in step as long as the
table has a slot that was never used: slots of deleted files are not reused.
-/

namespace Dosfs.Fat16

open Foundation

variable {env : Env} {fs : Fat16Fs} {bytes bytes' : Memory} {chains : Nat → List Nat}

/-- What both representations say of a file: the upper-cased name, the size and
the first cluster. -/
abbrev Record := CString × Nat × Nat

def Fat16File.record (file : Fat16File) : Record :=
  (file.name.upper, file.size, file.firstCluster)

/-- The records of the used slots of the table. -/
def tableRecords (files : List Fat16File) : Multiset Record :=
  ((files.filter (·.used)).map Fat16File.record : List Record)

/-- The records of the plain entries of the given slots. -/
def slotRecords (bytes : Memory) (slots : List Nat) : Multiset Record :=
  ((plainSlots bytes slots).map fun slot => (fileAt bytes slot).record : List Record)

/-- The records of the plain entries of the root directory. -/
def diskRecords (fs : Fat16Fs) (bytes : Memory) : Multiset Record :=
  slotRecords bytes fs.rootSlots

/-! ## The directory -/

theorem SameSlot.fileAt {slot : Nat} (h : SameSlot bytes' bytes slot) :
    fileAt bytes' slot = fileAt bytes slot := by
  simp only [Fat16.fileAt, h.name, h.fileSize, h.firstCluster, h.attr]

theorem slotRecords_congr {slots : List Nat}
    (h : ∀ slot ∈ slots, SameSlot bytes' bytes slot) :
    slotRecords bytes' slots = slotRecords bytes slots := by
  have hplain : plainSlots bytes' slots = plainSlots bytes slots :=
    List.filter_congr fun slot hslot => by simp only [(h slot hslot).isPlain]
  rw [slotRecords, slotRecords, hplain]
  congr 1
  refine List.map_congr_left fun slot hslot => ?_
  rw [(h slot (List.mem_of_mem_filter hslot)).fileAt]

theorem slotRecords_cons (slot : Nat) (slots : List Nat) :
    slotRecords bytes (slot :: slots) =
      (if IsPlain bytes slot then {(fileAt bytes slot).record} else 0) +
        slotRecords bytes slots := by
  by_cases hplain : IsPlain bytes slot
  · simp [slotRecords, plainSlots, hplain]
  · simp [slotRecords, plainSlots, hplain]

/-- One slot of the directory singled out. -/
theorem diskRecords_eq {slot : Nat} (hslot : fs.InRoot slot) :
    diskRecords fs bytes =
      (if IsPlain bytes slot then {(fileAt bytes slot).record} else 0) +
        slotRecords bytes (fs.rootSlots.erase slot) := by
  have hperm := List.perm_cons_erase (fs.mem_rootSlots.mpr hslot)
  rw [← slotRecords_cons, diskRecords, slotRecords, slotRecords, Multiset.coe_eq_coe]
  exact (hperm.filter _).map _

/-- A change of one slot changes the records by what the slot says. -/
theorem slotRecords_erase_congr {slot : Nat}
    (h : ∀ slot', fs.InRoot slot' → slot' ≠ slot → SameSlot bytes' bytes slot') :
    slotRecords bytes' (fs.rootSlots.erase slot) = slotRecords bytes (fs.rootSlots.erase slot) := by
  refine slotRecords_congr fun slot' hslot' => ?_
  rw [fs.rootSlots_nodup.mem_erase_iff] at hslot'
  exact h slot' (fs.mem_rootSlots.mp hslot'.2) hslot'.1

theorem diskRecords_congr (h : ∀ slot, fs.InRoot slot → SameSlot bytes' bytes slot) :
    diskRecords fs bytes' = diskRecords fs bytes :=
  slotRecords_congr fun slot hslot => h slot (fs.mem_rootSlots.mp hslot)

theorem mem_slotRecords {record : Record} {slots : List Nat} :
    record ∈ slotRecords bytes slots ↔
      ∃ slot ∈ slots, IsPlain bytes slot ∧ (fileAt bytes slot).record = record := by
  simp [slotRecords, plainSlots, and_assoc]

theorem mem_diskRecords {record : Record} :
    record ∈ diskRecords fs bytes ↔
      ∃ slot, fs.InRoot slot ∧ IsPlain bytes slot ∧ (fileAt bytes slot).record = record := by
  simp only [diskRecords, mem_slotRecords, fs.mem_rootSlots]

/-! ## The table -/

theorem isNamed_iff {name : CString} {file : Fat16File} :
    file.isNamed name = true ↔ file.used = true ∧ file.name.upper = name.upper := by
  simp [Fat16File.isNamed, strcasecmp_eq_zero_iff]

theorem tableRecords_cons (file : Fat16File) (files : List Fat16File) :
    tableRecords (file :: files) = (if file.used then {file.record} else 0) +
      tableRecords files := by
  by_cases hused : file.used = true
  · simp [tableRecords, hused]
  · simp [tableRecords, hused]

theorem tableRecords_append (files files' : List Fat16File) :
    tableRecords (files ++ files') = tableRecords files + tableRecords files' := by
  simp [tableRecords]

theorem mem_tableRecords {record : Record} {files : List Fat16File} :
    record ∈ tableRecords files ↔
      ∃ file ∈ files, file.used = true ∧ file.record = record := by
  simp [tableRecords, and_assoc]

theorem dropFile_length (name : CString) (files : List Fat16File) :
    (dropFile name files).length = files.length := by
  induction files with
  | nil => rfl
  | cons file files ih =>
      unfold dropFile
      split_ifs <;> simp [ih]

/-- Without a file of that name, nothing is dropped. -/
theorem dropFile_eq_self {name : CString} {files : List Fat16File}
    (h : ∀ file ∈ files, file.isNamed name = false) : dropFile name files = files := by
  induction files with
  | nil => rfl
  | cons file files ih =>
      rw [dropFile, h file List.mem_cons_self, ih fun f hf => h f (List.mem_cons_of_mem _ hf)]
      simp

/-- Otherwise the record of one file with that name goes. -/
theorem tableRecords_dropFile {name : CString} {files : List Fat16File}
    (h : ∃ file ∈ files, file.isNamed name = true) :
    ∃ file ∈ files, file.isNamed name = true ∧
      tableRecords files = file.record ::ₘ tableRecords (dropFile name files) := by
  induction files with
  | nil => simp at h
  | cons file files ih =>
      unfold dropFile
      by_cases hnamed : file.isNamed name = true
      · have hused := (isNamed_iff.mp hnamed).1
        refine ⟨file, List.mem_cons_self, hnamed, ?_⟩
        rw [if_pos hnamed, tableRecords_cons, tableRecords_cons]
        simp [hused]
      · obtain ⟨f, hf, hfnamed⟩ := h
        have hrest : f ∈ files :=
          (List.mem_cons.mp hf).resolve_left fun heq => hnamed (heq ▸ hfnamed)
        obtain ⟨found, hfound, hname, hrecords⟩ := ih ⟨f, hrest, hfnamed⟩
        refine ⟨found, List.mem_cons_of_mem _ hfound, hname, ?_⟩
        rw [if_neg hnamed, tableRecords_cons, tableRecords_cons, hrecords, Multiset.add_cons]

/-! ## Keeping both in step -/

/-- The two representations agree. -/
def Agrees (s : Fat16State) : Prop :=
  tableRecords s.fs.files = diskRecords s.fs s.ata.bytes

/-- Only the given slot has a plain entry whose decoded name equals the name up
to letter case. -/
def OnlyNamed (fs : Fat16Fs) (bytes : Memory) (name : CString) (slot : Nat) : Prop :=
  ∀ slot', fs.InRoot slot' → IsPlain bytes slot' →
    (fat16UnparseName (entryName bytes slot')).upper = name.upper → slot' = slot

/-- The record of an entry with the encoded form of a valid name. -/
theorem fileAt_name {name : CString} (hvalid : ValidName name) {slot : Nat}
    (hname : entryName bytes slot = fat16ParseName name) :
    (fileAt bytes slot).name = name.upper := by
  rw [fileAt, hname, fat16UnparseName_parseName hvalid]

/-- Deleting the entry in a slot from the directory and the file from the table. -/
theorem agrees_dropFile {files : List Fat16File} {name : CString} {slot : Nat}
    (hvalid : ValidName name) (hagrees : tableRecords files = diskRecords fs bytes)
    (hslot : fs.InRoot slot) (hname : entryName bytes slot = fat16ParseName name)
    (honly : OnlyNamed fs bytes name slot) (hdead : ¬ IsLive bytes' slot)
    (hsame : ∀ slot', fs.InRoot slot' → slot' ≠ slot → SameSlot bytes' bytes slot') :
    tableRecords (dropFile name files) = diskRecords fs bytes' := by
  have hrest := slotRecords_erase_congr hsame
  have hafter := @diskRecords_eq fs bytes' slot hslot
  rw [if_neg fun hplain => hdead hplain.1, zero_add, hrest] at hafter
  have hbefore := @diskRecords_eq fs bytes slot hslot
  -- a named file of the table has the record of the slot
  have hfile (file : Fat16File) (hmem : file ∈ files) (hnamed : file.isNamed name = true) :
      IsPlain bytes slot ∧ file.record = (fileAt bytes slot).record := by
    obtain ⟨hused, hupper⟩ := isNamed_iff.mp hnamed
    have hrecord : file.record ∈ diskRecords fs bytes :=
      hagrees ▸ mem_tableRecords.mpr ⟨file, hmem, hused, rfl⟩
    obtain ⟨slot', hslot', hplain, heq⟩ := mem_diskRecords.mp hrecord
    have hfold : (fat16UnparseName (entryName bytes slot')).upper = name.upper :=
      (congrArg Prod.fst heq).trans hupper
    obtain rfl := honly slot' hslot' hplain hfold
    exact ⟨hplain, heq.symm⟩
  by_cases hplain : IsPlain bytes slot
  · have hmem : (fileAt bytes slot).record ∈ tableRecords files :=
      hagrees ▸ mem_diskRecords.mpr ⟨slot, hslot, hplain, rfl⟩
    obtain ⟨file, hfiles, hused, hrecord⟩ := mem_tableRecords.mp hmem
    have hupper : file.name.upper = name.upper := by
      have hfst : file.name.upper = (fileAt bytes slot).name.upper := congrArg Prod.fst hrecord
      rw [hfst, fileAt_name hvalid hname, CString.upper_upper]
    obtain ⟨found, hfound, hnamed, hrecords⟩ :=
      tableRecords_dropFile ⟨file, hfiles, isNamed_iff.mpr ⟨hused, hupper⟩⟩
    rw [if_pos hplain, ← hagrees, hrecords, (hfile found hfound hnamed).2,
      Multiset.singleton_add] at hbefore
    rw [hafter]
    exact (Multiset.cons_inj_right _).mp hbefore
  · have hnone : ∀ file ∈ files, file.isNamed name = false := by
      intro file hmem
      by_contra hnamed
      exact hplain (hfile file hmem (by simpa using hnamed)).1
    rw [if_neg hplain, zero_add] at hbefore
    rw [dropFile_eq_self hnone, hagrees, hbefore, hafter]

theorem ValidName.length_le {name : CString} (h : ValidName name) : name.bytes.length ≤ 12 := by
  obtain ⟨base, ext, hbytes, -, hbase, hext, -⟩ := h.exists_parts
  rw [hbytes, List.length_append]
  split_ifs
  · simp only [List.length_nil]
    omega
  · simp only [List.length_cons]
    omega

/-- The table stores a valid name unchanged. -/
theorem ValidName.ofBuffer_take {name : CString} (h : ValidName name) :
    CString.ofBuffer (name.bytes.take 12) = name := by
  rw [List.take_of_length_le h.length_le]
  exact CString.ext (CString.ofBuffer_bytes _ name.noNul)

/-- Entering a file in a vacant slot of the directory and in the table. -/
theorem agrees_addFile {files : List Fat16File} {name : CString} {slot size first : Nat}
    (hvalid : ValidName name) (hagrees : tableRecords files = diskRecords fs bytes)
    (hroom : files.length < fat16MaxFiles) (hsize : size < 2 ^ 32)
    (hslot : fs.InRoot slot) (hvacant : ¬ IsLive bytes slot) :
    tableRecords (addFile name size first files) =
      diskRecords fs (putEntry bytes slot (fat16ParseName name) size first) := by
  have hlength := fat16ParseName_length name
  have hname := @entryName_putEntry bytes slot size first _ hlength
  have hplain : IsPlain (putEntry bytes slot (fat16ParseName name) size first) slot := by
    refine ⟨isLive_of_hasName hvalid.head_ne (hasName_iff.mpr hname), ?_, ?_⟩
    · rw [entryAttr_putEntry]
      decide
    · rw [entryAttr_putEntry]
      decide
  have hrest := @slotRecords_erase_congr fs bytes
    (putEntry bytes slot (fat16ParseName name) size first) slot fun slot' _ hne =>
      sameSlot_putEntry hlength hne
  have hrecord : (fileAt (putEntry bytes slot (fat16ParseName name) size first) slot).record =
      (name.upper, size, first % 65536) := by
    rw [Fat16File.record, fileAt_name hvalid hname, CString.upper_upper]
    simp only [fileAt, entryFileSize_putEntry, entryFirstCluster_putEntry, Nat.mod_eq_of_lt hsize]
  rw [diskRecords_eq hslot, if_pos hplain, hrest, hrecord, addFile, if_pos hroom,
    tableRecords_append, hagrees, diskRecords_eq hslot, if_neg fun h => hvacant h.1, zero_add,
    add_comm, hvalid.ofBuffer_take]
  simp [tableRecords, Fat16File.record]

/-! ## Commands and runs -/

/-- The table can follow the command: an entry with the encoded name is the only
one that has the name up to letter case, and a new file finds a slot of the table
that was never used. -/
structure Trackable (cmd : Command) (s : Fat16State) : Prop where
  only : ∀ slot, s.fs.IsLiveIn s.ata.bytes slot →
    entryName s.ata.bytes slot = fat16ParseName cmd.name →
      OnlyNamed s.fs s.ata.bytes cmd.name slot
  room : cmd ≠ .delete cmd.name → s.fs.files.length < fat16MaxFiles

instance (name : CString) (slot : Nat) : Decidable (OnlyNamed fs bytes name slot) :=
  decidable_of_iff (∀ slot' ∈ fs.rootSlots, IsPlain bytes slot' →
    (fat16UnparseName (entryName bytes slot')).upper = name.upper → slot' = slot)
    (by simp only [OnlyNamed, fs.mem_rootSlots])

instance (cmd : Command) (s : Fat16State) : Decidable (Trackable cmd s) :=
  decidable_of_iff ((∀ slot ∈ s.fs.rootSlots, IsLive s.ata.bytes slot →
      entryName s.ata.bytes slot = fat16ParseName cmd.name →
        OnlyNamed s.fs s.ata.bytes cmd.name slot) ∧
      (cmd ≠ .delete cmd.name → s.fs.files.length < fat16MaxFiles))
    ⟨fun h => ⟨fun slot hslot => h.1 slot (s.fs.mem_rootSlots.mpr hslot.1) hslot.2, h.2⟩,
      fun h => ⟨fun slot hslot hlive => h.only slot ⟨s.fs.mem_rootSlots.mp hslot, hlive⟩, h.room⟩⟩

theorem Agrees.delete {name : CString} {s s' : Fat16State} {ret : Int} (hlayout : Layout s.fs)
    (hchained : Chained s.fs s.ata.bytes chains) (hvalid : ValidName name)
    (honly : ∀ slot, s.fs.IsLiveIn s.ata.bytes slot →
      entryName s.ata.bytes slot = fat16ParseName name → OnlyNamed s.fs s.ata.bytes name slot)
    (hagrees : Agrees s) (h : Deletes Env.faultless name chains s ret s') :
    Agrees s' ∧ s'.fs.files.length = s.fs.files.length := by
  cases h with
  | missing => exact ⟨hagrees, rfl⟩
  | unmarked slot clock hstop hfault => exact absurd hfault (by simp [Env.faultless])
  | marked slot clock hstop hok =>
      have hname := hasName_iff.mp hstop.passes
      have hslot : s.fs.IsLiveIn s.ata.bytes slot :=
        ⟨hstop.inRoot, isLive_of_hasName hvalid.head_ne hstop.passes⟩
      refine ⟨?_, dropFile_length name s.fs.files⟩
      exact agrees_dropFile hvalid hagrees hslot.1 hname (honly slot hslot hname) not_isLive_mark
        fun slot' hslot' hne =>
          sameSlot_mark hlayout (fun c hc => deleteTrace_inside hchained hslot hc) hslot' hne

theorem Agrees.store {name : CString} {data : List UInt8} {s s' : Fat16State} {ret : Int}
    (hlayout : Layout s.fs) (hvalid : ValidName name) (hroom : s.fs.files.length < fat16MaxFiles)
    (hagrees : Agrees s) (h : Stores env name data s ret s') (hret : ret ≠ -1) : Agrees s' := by
  cases h with
  | refused => exact absurd rfl hret
  | rolledBack => exact absurd rfl hret
  | entered first clock allocated ret s' hdata hfirst henters =>
      have hsame (slot : Nat) (hslot : s.fs.InRoot slot) :
          SameSlot allocated s.ata.bytes slot := hfirst.sameSlot hlayout hslot
      cases henters with
      | failed => exact absurd rfl hret
      | filled slot clock hslot hvacant =>
          exact agrees_addFile hvalid (hagrees.trans (diskRecords_congr hsame).symm) hroom
            (by decide) hslot hvacant

/-- A successful command that the table can follow keeps both in step. -/
theorem Agrees.exec {cmd : Command} {s s' : Fat16State} {ret : Int} (hlayout : Layout s.fs)
    (hchained : Chained s.fs s.ata.bytes chains) (hvalid : ValidName cmd.name)
    (htrack : Trackable cmd s) (hagrees : Agrees s) {fuel : Nat} (hfuel : 65536 ≤ fuel)
    (heq : cmd.exec Env.faultless fuel s = some (ret, s')) (hret : ret ≠ -1) : Agrees s' := by
  obtain ⟨ret', s'', heq', hcases⟩ :=
    cmd.exec_cases Env.faultless hlayout hchained hvalid.head_ne hfuel
  obtain ⟨rfl, rfl⟩ : ret' = ret ∧ s'' = s' := by simpa [heq'] using heq
  rcases hcases with ⟨-, hdeletes⟩ | ⟨hnot, data, ret₁, s₁, hdeletes, hstores⟩
  · exact (hagrees.delete hlayout hchained hvalid htrack.only hdeletes).1
  · obtain ⟨hagrees₁, hlength⟩ := hagrees.delete hlayout hchained hvalid htrack.only hdeletes
    exact hagrees₁.store (hdeletes.layout hlayout) hvalid (hlength ▸ htrack.room hnot) hstores hret

/-- The table that mounting builds. -/
theorem Agrees.mount (hread : ∀ t req, env.fault t req = false) {s : Fat16State}
    (hmount : (fat16Mount env s).1.1 = 0)
    (hend : EndMarked (Fat16Bpb.decode s.ata.bytes).geometry s.ata.bytes)
    (hroom : (plainSlots s.ata.bytes (Fat16Bpb.decode s.ata.bytes).geometry.rootSlots).length ≤
      fat16MaxFiles) : Agrees (fat16Mount env s).2 := by
  rw [Agrees, (fat16Mount_state env s).1, fat16Mount_table hread hmount hend hroom]
  change tableRecords ((plainSlots s.ata.bytes _).map (fileAt s.ata.bytes)) = slotRecords _ _
  rw [tableRecords, List.filter_eq_self.mpr]
  · rw [List.map_map]
    rfl
  · intro file hfile
    obtain ⟨slot, -, rfl⟩ := List.mem_map.mp hfile
    rfl

/-- The file is in the directory, under its decoded name. -/
def OnDisk (fs : Fat16Fs) (bytes : Memory) (name : CString) : Prop :=
  ∃ slot, fs.InRoot slot ∧ IsPlain bytes slot ∧
    (fat16UnparseName (entryName bytes slot)).upper = name.upper

instance (name : CString) : Decidable (OnDisk fs bytes name) :=
  decidable_of_iff (∃ slot ∈ fs.rootSlots, IsPlain bytes slot ∧
    (fat16UnparseName (entryName bytes slot)).upper = name.upper)
    (by simp only [OnDisk, fs.mem_rootSlots])

theorem Agrees.fileExists_iff {s : Fat16State} (hagrees : Agrees s) (name : CString) :
    fat16FileExists s.fs name = true ↔ OnDisk s.fs s.ata.bytes name := by
  simp only [fat16FileExists, List.any_eq_true, isNamed_iff]
  constructor
  · rintro ⟨file, hfile, hused, hupper⟩
    have hmem : file.record ∈ tableRecords s.fs.files :=
      mem_tableRecords.mpr ⟨file, hfile, hused, rfl⟩
    rw [hagrees] at hmem
    obtain ⟨slot, hslot, hplain, hrecord⟩ := mem_diskRecords.mp hmem
    exact ⟨slot, hslot, hplain, (congrArg Prod.fst hrecord).trans hupper⟩
  · rintro ⟨slot, hslot, hplain, hupper⟩
    have hmem : (fileAt s.ata.bytes slot).record ∈ diskRecords s.fs s.ata.bytes :=
      mem_diskRecords.mpr ⟨slot, hslot, hplain, rfl⟩
    rw [← hagrees] at hmem
    obtain ⟨file, hfile, hused, hrecord⟩ := mem_tableRecords.mp hmem
    exact ⟨file, hfile, hused, (congrArg Prod.fst hrecord).trans hupper⟩

/-- After mounting a well-formed volume and any run of successful commands that
the table can follow, the table agrees with the directory. -/
theorem fat16_table_agrees {s s' : Fat16State}
    (hvolume : WellFormed (Fat16Bpb.decode s.ata.bytes).geometry s.ata.bytes)
    (hcount : (plainSlots s.ata.bytes (Fat16Bpb.decode s.ata.bytes).geometry.rootSlots).length ≤
      fat16MaxFiles)
    (hmount : (fat16Mount Env.faultless s).1.1 = 0) {fuel : Nat} (hfuel : 65536 ≤ fuel)
    {cmds : List Command} (hnames : ∀ cmd ∈ cmds, ValidName cmd.name)
    (htrack : Throughout (Command.exec Env.faultless fuel) Trackable cmds
      (fat16Mount Env.faultless s).2)
    {rets : List Int}
    (hrun : runAll (Command.exec Env.faultless fuel) cmds (fat16Mount Env.faultless s).2 =
      some (rets, s'))
    (hrets : ∀ ret ∈ rets, ret ≠ -1) :
    tableRecords s'.fs.files = diskRecords s'.fs s'.ata.bytes ∧
      ∀ name, fat16FileExists s'.fs name = true ↔ OnDisk s'.fs s'.ata.bytes name := by
  let inv (cmds : List Command) (s₁ : Fat16State) : Prop :=
    (Sound (Fat16Bpb.decode s.ata.bytes).geometry s₁ ∧ s₁.fs.mounted = true) ∧ Agrees s₁ ∧
      (∀ cmd ∈ cmds, ValidName cmd.name) ∧
      Throughout (Command.exec Env.faultless fuel) Trackable cmds s₁
  have hstep (cmd : Command) (cmds : List Command) (s₁ : Fat16State) (ret : Int) (s₂ : Fat16State)
      (hinv : inv (cmd :: cmds) s₁) (heq : cmd.exec Env.faultless fuel s₁ = some (ret, s₂))
      (hret : ret ≠ -1) : inv cmds s₂ := by
    obtain ⟨⟨hsound, hmounted⟩, hagrees, hvalid, htrack, hlater⟩ := hinv
    have hname := hvalid cmd List.mem_cons_self
    obtain ⟨ret', s₂', heq', hsound', hmounted'⟩ :=
      hsound.exec hvolume.layout cmd hname.head_ne hfuel
    obtain ⟨rfl, rfl⟩ : ret' = ret ∧ s₂' = s₂ := by simpa [heq'] using heq
    refine ⟨⟨hsound', hmounted'.trans hmounted⟩, ?_,
      fun c hc => hvalid c (List.mem_cons_of_mem _ hc), hlater _ _ heq'⟩
    obtain ⟨hunmounted | ⟨files, hfs⟩, chains, hchained⟩ := hsound
    · rw [hmounted] at hunmounted
      cases hunmounted
    · exact hagrees.exec (hfs ▸ hvolume.layout.with_files files)
        (hfs ▸ hchained.with_files files) hname htrack hfuel heq' hret
  have hstart : inv cmds (fat16Mount Env.faultless s).2 := by
    have htable := fat16Mount_table (fun _ _ => rfl) hmount hvolume.endMarked hcount
    refine ⟨⟨Sound.mount hvolume.chained, by rw [htable]; rfl⟩, ?_, hnames, htrack⟩
    exact Agrees.mount (fun _ _ => rfl) hmount hvolume.endMarked hcount
  obtain ⟨-, hagrees, -⟩ := runAll_preserves inv hstep hrun hrets hstart
  exact ⟨hagrees, hagrees.fileExists_iff⟩

/-- Two files are created, one is deleted and created again. -/
theorem fat16_table_agrees_recreated :
    let cmds := [.create ⟨[0x41], by simp⟩, .create ⟨[0x42], by simp⟩, .delete ⟨[0x41], by simp⟩,
      .create ⟨[0x41], by simp⟩]
    ∃ s', runAll (Command.exec Env.faultless 65536) cmds
        (fat16Mount Env.faultless ⟨.zero, ⟨formatted 16 7, 0⟩⟩).2 = some ([0, 0, 0, 0], s') ∧
      tableRecords s'.fs.files = diskRecords s'.fs s'.ata.bytes ∧
      ∀ name, fat16FileExists s'.fs name = true ↔ OnDisk s'.fs s'.ata.bytes name := by
  intro cmds
  have hreturns : ((runAll (Command.exec Env.faultless 65536) cmds
      (fat16Mount Env.faultless ⟨.zero, ⟨formatted 16 7, 0⟩⟩).2).map Prod.fst) =
        some [0, 0, 0, 0] := by
    decide
  obtain ⟨⟨rets, s'⟩, hrun, rfl⟩ := Option.map_eq_some_iff.mp hreturns
  have hA : ValidName ⟨[0x41], by simp⟩ := ⟨⟨[0x41], [], rfl, by simp⟩, by decide⟩
  have hB : ValidName ⟨[0x42], by simp⟩ := ⟨⟨[0x42], [], rfl, by simp⟩, by decide⟩
  have hnames : ∀ cmd ∈ cmds, ValidName cmd.name :=
    List.forall_mem_cons.mpr ⟨hA, List.forall_mem_cons.mpr ⟨hB, List.forall_mem_cons.mpr ⟨hA,
      List.forall_mem_cons.mpr ⟨hA, nofun⟩⟩⟩⟩
  have hsteps : Throughout (Command.exec Env.faultless 65536) Trackable cmds
      (fat16Mount Env.faultless ⟨.zero, ⟨formatted 16 7, 0⟩⟩).2 := by
    decide
  exact ⟨s', hrun, fat16_table_agrees (s := ⟨.zero, ⟨formatted 16 7, 0⟩⟩)
    (wellFormed_formatted (by decide) (by decide)) (by decide) (by decide) (le_refl 65536) hnames
    hsteps hrun (by decide)⟩

/-- A drive whose root directory holds 64 empty files, `AA` to `HH`. -/
def fullDisk : Memory := fun x =>
  if 1024 ≤ x ∧ x < 1024 + 64 * 32 then
    match x % 32 with
    | 0 => UInt8.ofNat (0x41 + (x - 1024) / 32 / 8)
    | 1 => UInt8.ofNat (0x41 + (x - 1024) / 32 % 8)
    | k => if k < 12 then 0x20 else 0x00
  else formatted 64 10 x

theorem fullDisk_wellFormed :
    WellFormed (Fat16Bpb.decode fullDisk).geometry fullDisk := by
  have hhead : ∀ slot ∈ (Fat16Bpb.decode fullDisk).geometry.rootSlots,
      entryHead fullDisk slot ≠ 0x00 := by
    decide
  have hfirst : ∀ slot ∈ (Fat16Bpb.decode fullDisk).geometry.rootSlots,
      entryFirstCluster fullDisk slot < 2 := by
    decide
  -- the two letters of a name give its slot
  have hnames : ∀ slot ∈ (Fat16Bpb.decode fullDisk).geometry.rootSlots,
      slot = 8 * ((entryName fullDisk slot).getD 0 0).toNat +
        ((entryName fullDisk slot).getD 1 0).toNat - 553 := by
    decide
  exact {
    layout := by
      refine ⟨rfl, ?_, ?_, ?_, ?_, ?_, ?_⟩ <;> decide
    endMarked := fun slot _ hslot _ _ hmark =>
      absurd hmark (hhead slot (Fat16Fs.mem_rootSlots.mpr hslot))
    namesUnique := fun slot slot' hslot hslot' heq _ => by
      rw [hnames slot (Fat16Fs.mem_rootSlots.mpr hslot.1), heq,
        ← hnames slot' (Fat16Fs.mem_rootSlots.mpr hslot'.1)]
    chained := ⟨fun _ => [], fun slot hslot => Or.inl
      ⟨hfirst slot (Fat16Fs.mem_rootSlots.mpr hslot.1), rfl⟩,
      fun _ _ _ _ _ => List.disjoint_nil_left _⟩ }

/-- With the table full, a deletion followed by a creation leaves a file on the
drive that the table does not know. -/
theorem fat16_table_drifts :
    WellFormed (Fat16Bpb.decode fullDisk).geometry fullDisk ∧
      (plainSlots fullDisk (Fat16Bpb.decode fullDisk).geometry.rootSlots).length ≤ fat16MaxFiles ∧
      (fat16Mount Env.faultless ⟨.zero, ⟨fullDisk, 0⟩⟩).1.1 = 0 ∧
      ValidName ⟨[0x41, 0x41], by simp⟩ ∧ ValidName ⟨[0x5A], by simp⟩ ∧
      ∃ rets s', runAll (Command.exec Env.faultless 65536)
          [.delete ⟨[0x41, 0x41], by simp⟩, .create ⟨[0x5A], by simp⟩]
          (fat16Mount Env.faultless ⟨.zero, ⟨fullDisk, 0⟩⟩).2 = some (rets, s') ∧
        (∀ ret ∈ rets, ret ≠ -1) ∧
        (plainSlots s'.ata.bytes s'.fs.rootSlots).length ≤ fat16MaxFiles ∧
        tableRecords s'.fs.files ≠ diskRecords s'.fs s'.ata.bytes ∧
        fat16FileExists s'.fs ⟨[0x5A], by simp⟩ = false ∧
        OnDisk s'.fs s'.ata.bytes ⟨[0x5A], by simp⟩ := by
  refine ⟨fullDisk_wellFormed, by decide, by decide,
    ⟨⟨[0x41, 0x41], [], rfl, by simp⟩, by decide⟩, ⟨⟨[0x5A], [], rfl, by simp⟩, by decide⟩, ?_⟩
  have hrun : (runAll (Command.exec Env.faultless 65536)
      [.delete ⟨[0x41, 0x41], by simp⟩, .create ⟨[0x5A], by simp⟩]
      (fat16Mount Env.faultless ⟨.zero, ⟨fullDisk, 0⟩⟩).2).any (fun (rets, s') =>
        decide ((∀ ret ∈ rets, ret ≠ -1) ∧
          (plainSlots s'.ata.bytes s'.fs.rootSlots).length ≤ fat16MaxFiles ∧
          fat16FileExists s'.fs ⟨[0x5A], by simp⟩ = false ∧
          OnDisk s'.fs s'.ata.bytes ⟨[0x5A], by simp⟩)) = true := by
    decide
  obtain ⟨⟨rets, s'⟩, hrun, hfacts⟩ := (Option.any_eq_true _ _).mp hrun
  obtain ⟨hrets, hplain, hmissing, hdisk⟩ := of_decide_eq_true hfacts
  refine ⟨rets, s', hrun, hrets, hplain, fun hagrees => ?_, hmissing, hdisk⟩
  have hexists := (Agrees.fileExists_iff hagrees ⟨[0x5A], by simp⟩).mpr hdisk
  rw [hmissing] at hexists
  cases hexists

end Dosfs.Fat16
