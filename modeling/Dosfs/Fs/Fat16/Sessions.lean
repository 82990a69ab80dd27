import Dosfs.Foundation.Run
import Dosfs.Fs.Fat16.FailedWrite
import Dosfs.Fs.Fat16.RoundTrip

/-!
# Sessions

What a program sees of a mounted volume over any run of calls: a directory of files, which
are byte strings. Files are read, looked for and deleted; a file that is created is empty; and
a write of data is never more than a deletion.
-/

namespace Dosfs.Fat16

open Foundation

variable {fs : Fat16Fs} {bytes bytes' : Memory} {chains : Nat → List Nat}

/-! ## The directory -/

/-- The files, by their names in upper case, and the number of files that can still be
entered. -/
structure Directory where
  files : CString → Option (List UInt8)
  room : Nat

namespace Directory

/-- Delete the file of that name, if there is one. -/
def erase (d : Directory) (name : CString) : Directory :=
  if (d.files name.upper).isSome then ⟨Function.update d.files name.upper none, d.room + 1⟩ else d

/-- Enter a file. -/
def insert (d : Directory) (name : CString) (content : List UInt8) : Directory :=
  ⟨Function.update d.files name.upper (some content), d.room - 1⟩

/-- Only an empty file can be stored. Whatever was there before is gone in any case. -/
def store (d : Directory) (name : CString) (data : List UInt8) : Int × Directory :=
  if data = [] ∧ 0 < (d.erase name).room then (0, (d.erase name).insert name [])
  else (-1, d.erase name)

end Directory

/-- The calls of a program. -/
inductive FileCall
  | read (name : CString) (maxSize : Nat)
  | exists (name : CString)
  | command (cmd : Command)

inductive FileAnswer
  | bytes (ret : Int) (read : List UInt8)
  | found (there : Bool)
  | code (ret : Int)
  deriving DecidableEq

namespace FileCall

def name : FileCall → CString
  | .read name _ => name
  | .exists name => name
  | .command cmd => cmd.name

/-- The call may take a slot of the table. -/
def enters : FileCall → Bool
  | .command (.create _) => true
  | .command (.write _ data) => data.isEmpty
  | _ => false

/-- The call of the driver. -/
def run (fuel : Nat) : FileCall → Fat16State → Option (FileAnswer × Fat16State)
  | .read name maxSize, s =>
      (fat16ReadFile Env.faultless fuel name maxSize s).map fun (ret, buf, ata) =>
        (.bytes ret buf, { s with ata })
  | .exists name, s => some (.found (fat16FileExists s.fs name), s)
  | .command cmd, s =>
      (cmd.exec Env.faultless fuel s).map fun (ret, s) => (.code ret, s)

/-- What the call is for. -/
def spec : FileCall → Directory → FileAnswer × Directory
  | .read name maxSize, d =>
      match d.files name.upper with
      | some content =>
          (.bytes (toInt (content.take maxSize).length) (content.take maxSize), d)
      | none => (.bytes (-1) [], d)
  | .exists name, d => (.found (d.files name.upper).isSome, d)
  | .command (.delete name), d =>
      (.code (if (d.files name.upper).isSome then 0 else -1), d.erase name)
  | .command (.create name), d => ((d.store name []).map .code id)
  | .command (.write name data), d => ((d.store name data).map .code id)

end FileCall

/-! ## What the driver serves -/

/-- The bytes that reading the file of a slot returns: those of the clusters that are visited,
up to the size. -/
def contentAt (fs : Fat16Fs) (bytes : Memory) (chains : Nat → List Nat) (slot : Nat) :
    List UInt8 :=
  (clusterData fs bytes (visited (chains slot))).take (entryFileSize bytes slot)

/-- The number of slots of the root directory that are free. -/
def vacantSlots (fs : Fat16Fs) (bytes : Memory) : Nat :=
  fs.rootSlots.countP fun slot => ¬ IsLive bytes slot

/-- The decoded name of an entry. -/
def nameAt (bytes : Memory) (slot : Nat) : CString :=
  (fat16UnparseName (entryName bytes slot)).upper

/-- The state of the driver stands for the directory. The names are those in use: no volume
label and no fragment of a long name is called like that. -/
structure Serves (names : Set CString) (chains : Nat → List Nat) (s : Fat16State)
    (d : Directory) : Prop where
  volume : WellFormed s.fs s.ata.bytes
  encoded : ∀ slot, s.fs.InRoot slot → IsPlain s.ata.bytes slot →
    fat16ParseName (fat16UnparseName (entryName s.ata.bytes slot)) = entryName s.ata.bytes slot
  agrees : Agrees s
  chained : Chained s.fs s.ata.bytes chains
  plain : ∀ slot, s.fs.IsLiveIn s.ata.bytes slot → ∀ name ∈ names,
    entryName s.ata.bytes slot = fat16ParseName name → IsPlain s.ata.bytes slot
  present : ∀ slot, s.fs.InRoot slot → IsPlain s.ata.bytes slot →
    d.files (nameAt s.ata.bytes slot) = some (contentAt s.fs s.ata.bytes chains slot)
  absent : ∀ name : CString, ¬ OnDisk s.fs s.ata.bytes name → d.files name.upper = none
  room : d.room = vacantSlots s.fs s.ata.bytes

namespace Serves

variable {names : Set CString} {s s' : Fat16State} {d : Directory}

theorem mounted (h : Serves names chains s d) : Mounted s :=
  ⟨h.volume, h.encoded, le_of_eq h.agrees⟩

/-- A name is in the directory exactly when it is on the drive. -/
theorem isSome_iff (h : Serves names chains s d) (name : CString) :
    (d.files name.upper).isSome ↔ OnDisk s.fs s.ata.bytes name := by
  constructor
  · intro hsome
    by_contra hnot
    rw [h.absent name hnot] at hsome
    cases hsome
  · rintro ⟨slot, hslot, hplain, hname⟩
    have hpresent := h.present slot hslot hplain
    rw [nameAt, hname] at hpresent
    rw [hpresent]
    rfl

/-- What a slot holds is read back through the table. -/
theorem read (h : Serves names chains s d) {fuel : Nat} (hfuel : 65536 ≤ fuel) (name : CString)
    (maxSize : Nat) :
    ∃ answer clock, FileCall.run fuel (.read name maxSize) s =
        some (answer, { s with ata := ⟨s.ata.bytes, clock⟩ }) ∧
      FileCall.spec (.read name maxSize) d = (answer, d) := by
  have hlayout := h.volume.layout
  have htotal := hlayout.totalClusters
  have hexists := h.agrees.fileExists_iff name
  rw [FileCall.run, FileCall.spec, fat16ReadFile, hlayout.mounted]
  cases hfind : s.fs.files.find? (Fat16File.isNamed name) with
  | none =>
      have hnone : fat16FileExists s.fs name = false := by
        rw [fat16FileExists, ← Bool.not_eq_true, List.any_eq_true]
        rintro ⟨file, hfile, hnamed⟩
        exact List.find?_eq_none.mp hfind file hfile hnamed
      rw [h.absent name fun hdisk => by simp [hexists.mpr hdisk] at hnone]
      exact ⟨_, s.ata.clock, rfl, rfl⟩
  | some file =>
      obtain ⟨hused, hupper⟩ := isNamed_iff.mp (List.find?_some hfind)
      obtain ⟨slot, hslot, hplain, hrecord⟩ :=
        h.mounted.exists_slot (List.mem_of_find?_eq_some hfind) hused
      have hname : nameAt s.ata.bytes slot = name.upper := (congrArg Prod.fst hrecord).trans hupper
      have hsize : entryFileSize s.ata.bytes slot = file.size :=
        congrArg (fun record : Record => record.2.1) hrecord
      have hfirst : entryFirstCluster s.ata.bytes slot = file.firstCluster :=
        congrArg (fun record : Record => record.2.2) hrecord
      have hcontent := h.present slot hslot hplain
      rw [hname, contentAt, hsize] at hcontent
      have hlength := h.chained.length_le ⟨hslot, hplain.1⟩
      rw [hcontent]
      dsimp only
      -- the loop reads up to the smaller of both sizes
      obtain ⟨clock, hrun⟩ : ∃ clock,
          readFileLoop Env.faultless s.fs file.size maxSize fuel file.firstCluster [] s.ata =
            some (((clusterData s.fs s.ata.bytes (visited (chains slot))).take file.size).take
              maxSize, ⟨s.ata.bytes, clock⟩) := by
        rw [List.take_take]
        rcases h.chained.chain slot ⟨hslot, hplain.1⟩ with ⟨hvacant, hnil⟩ | hchain
        · -- a file without a first cluster is empty
          have hlow : file.firstCluster < 2 := hfirst ▸ hvacant
          obtain ⟨fuel, rfl⟩ : ∃ k, fuel = k + 1 := ⟨fuel - 1, by omega⟩
          rw [readFileLoop_stop (by omega), hnil]
          exact ⟨s.ata.clock, by simp [visited, clusterData]⟩
        · rw [hfirst] at hchain
          obtain ⟨clock, hrun⟩ := @readFileLoop_run s.fs file.size maxSize fuel file.firstCluster []
            s.ata _ (.inl hchain) (Nat.zero_le _) (by omega)
          rw [hrun, List.nil_append, List.length_nil, Nat.sub_zero, Nat.min_comm]
          exact ⟨clock, rfl⟩
      rw [hrun]
      refine ⟨_, clock, ?_, rfl⟩
      simp only [Bool.not_true, Bool.false_eq_true, if_false, Option.bind_eq_bind,
        Option.bind_some, Option.pure_def, Option.map_some]

end Serves

/-! ## Frames -/

theorem clusterData_congr {cells : List Nat}
    (h : ∀ c ∈ cells, ∀ x, fs.ClusterByte c x → bytes' x = bytes x) :
    clusterData fs bytes' cells = clusterData fs bytes cells := by
  refine List.flatMap_congr fun c hc => ?_
  refine Memory.loadList_congr fun x hlow hhigh => h c hc x ⟨hlow, ?_⟩
  rw [Fat16Fs.clusterSize] at hhigh
  omega

/-- A slot that stays as it is, with its chain and its clusters, holds the same file. -/
theorem SameSlot.contentAt {slot : Nat} {chains' : Nat → List Nat}
    (h : SameSlot bytes' bytes slot) (hchains : chains' slot = chains slot)
    (hdata : ∀ c ∈ chains slot, ∀ x, fs.ClusterByte c x → bytes' x = bytes x) :
    contentAt fs bytes' chains' slot = contentAt fs bytes chains slot := by
  have hvisited : clusterData fs bytes' (visited (chains slot)) =
      clusterData fs bytes (visited (chains slot)) :=
    clusterData_congr fun c hc => hdata c ((List.takeWhile_prefix _).subset hc)
  rw [Fat16.contentAt, Fat16.contentAt, hchains, h.fileSize, hvisited]

theorem SameSlot.nameAt {slot : Nat} (h : SameSlot bytes' bytes slot) :
    nameAt bytes' slot = nameAt bytes slot := by
  rw [Fat16.nameAt, Fat16.nameAt, h.name]

/-- One slot of the root directory singled out. -/
theorem vacantSlots_eq {slot : Nat} (hslot : fs.InRoot slot) :
    vacantSlots fs bytes = (fs.rootSlots.erase slot).countP (fun slot => ¬ IsLive bytes slot) +
      if IsLive bytes slot then 0 else 1 := by
  rw [vacantSlots, (List.perm_cons_erase (fs.mem_rootSlots.mpr hslot)).countP_eq, List.countP_cons]
  simp

theorem vacantSlots_congr (h : ∀ slot, fs.InRoot slot → SameSlot bytes' bytes slot) :
    vacantSlots fs bytes' = vacantSlots fs bytes := by
  refine List.countP_congr fun slot hslot => ?_
  simp [(h slot (fs.mem_rootSlots.mp hslot)).isLive]

theorem vacantSlots_erase_congr {slot : Nat}
    (h : ∀ slot', fs.InRoot slot' → slot' ≠ slot → SameSlot bytes' bytes slot') :
    (fs.rootSlots.erase slot).countP (fun slot => ¬ IsLive bytes' slot) =
      (fs.rootSlots.erase slot).countP fun slot => ¬ IsLive bytes slot := by
  refine List.countP_congr fun slot' hslot' => ?_
  rw [fs.rootSlots_nodup.mem_erase_iff] at hslot'
  simp [(h slot' (fs.mem_rootSlots.mp hslot'.2) hslot'.1).isLive]

/-- There is room exactly if some slot is free. -/
theorem vacantSlots_pos_iff :
    0 < vacantSlots fs bytes ↔ ∃ slot, fs.InRoot slot ∧ ¬ IsLive bytes slot := by
  simp [vacantSlots, List.countP_pos_iff, fs.mem_rootSlots]

/-! ## One slot changes -/

/-- One slot of the root directory changes: before and after, it holds the only entry with the
encoded name or none. -/
structure ChangesSlot (name : CString) (slot : Nat) (chains chains' : Nat → List Nat)
    (s s' : Fat16State) : Prop where
  fs : ∃ files, s'.fs = { s.fs with files }
  inRoot : s.fs.InRoot slot
  same : ∀ slot', s.fs.InRoot slot' → slot' ≠ slot → SameSlot s'.ata.bytes s.ata.bytes slot'
  alone : ∀ slot', s.fs.IsLiveIn s.ata.bytes slot' → slot' ≠ slot →
    entryName s.ata.bytes slot' ≠ fat16ParseName name
  before : IsLive s.ata.bytes slot → entryName s.ata.bytes slot = fat16ParseName name
  after : IsLive s'.ata.bytes slot →
    entryName s'.ata.bytes slot = fat16ParseName name ∧ IsPlain s'.ata.bytes slot
  marked : entryHead s'.ata.bytes slot ≠ 0x00 ∧
    ∀ slot', s.fs.InRoot slot' → slot' < slot → entryHead s.ata.bytes slot' ≠ 0x00
  kept : ∀ slot', s.fs.IsLiveIn s.ata.bytes slot' → slot' ≠ slot → chains' slot' = chains slot' ∧
    ∀ c ∈ chains slot', ∀ x, s.fs.ClusterByte c x → s'.ata.bytes x = s.ata.bytes x
  chained : Chained s'.fs s'.ata.bytes chains'
  agrees : Agrees s'

namespace ChangesSlot

variable {chains' : Nat → List Nat} {s s' : Fat16State} {name : CString} {slot slot' : Nat}

theorem other (h : ChangesSlot name slot chains chains' s s')
    (hslot' : s.fs.IsLiveIn s'.ata.bytes slot') (hne : slot' ≠ slot) :
    SameSlot s'.ata.bytes s.ata.bytes slot' ∧ s.fs.IsLiveIn s.ata.bytes slot' := by
  have hsame := h.same slot' hslot'.1 hne
  exact ⟨hsame, hslot'.1, hsame.isLive.mp hslot'.2⟩

/-- Afterwards as before, no other live slot has the encoded name. -/
theorem alone_after (h : ChangesSlot name slot chains chains' s s')
    (hslot' : s.fs.IsLiveIn s'.ata.bytes slot') (hne : slot' ≠ slot) :
    entryName s'.ata.bytes slot' ≠ fat16ParseName name := by
  obtain ⟨hsame, hlive⟩ := h.other hslot' hne
  rw [hsame.name]
  exact h.alone slot' hlive hne

theorem endMarked (h : ChangesSlot name slot chains chains' s s')
    (hend : EndMarked s.fs s.ata.bytes) : EndMarked s.fs s'.ata.bytes := by
  intro slot₁ slot₂ hslot₁ hslot₂ hle hzero
  have hne₁ : slot₁ ≠ slot := by
    rintro rfl
    exact h.marked.1 hzero
  rw [(h.same slot₁ hslot₁ hne₁).head] at hzero
  have hlow : slot < slot₁ := by
    by_contra hnot
    exact h.marked.2 slot₁ hslot₁ (by omega) hzero
  rw [(h.same slot₂ hslot₂ (by omega)).head]
  exact hend slot₁ slot₂ hslot₁ hslot₂ hle hzero

theorem namesUnique (h : ChangesSlot name slot chains chains' s s')
    (hunique : NamesUnique s.fs s.ata.bytes) : NamesUnique s.fs s'.ata.bytes := by
  intro slot₁ slot₂ hslot₁ hslot₂ heq hnul
  by_cases hne₁ : slot₁ = slot
  · subst hne₁
    rw [(h.after hslot₁.2).1] at heq
    by_contra hne
    exact h.alone_after hslot₂ (Ne.symm hne) heq.symm
  · by_cases hne₂ : slot₂ = slot
    · subst hne₂
      rw [(h.after hslot₂.2).1] at heq
      exact absurd heq (h.alone_after hslot₁ hne₁)
    · obtain ⟨hsame₁, hlive₁⟩ := h.other hslot₁ hne₁
      obtain ⟨hsame₂, hlive₂⟩ := h.other hslot₂ hne₂
      rw [hsame₁.name, hsame₂.name] at heq
      exact hunique slot₁ slot₂ hlive₁ hlive₂ heq (hsame₁.name ▸ hnul)

theorem wellFormed (h : ChangesSlot name slot chains chains' s s')
    (hvolume : WellFormed s.fs s.ata.bytes) : WellFormed s'.fs s'.ata.bytes := by
  have hchained := h.chained
  have hend := h.endMarked hvolume.endMarked
  have hunique := h.namesUnique hvolume.namesUnique
  obtain ⟨files, hfs⟩ := h.fs
  rw [hfs] at hchained ⊢
  exact ⟨hvolume.layout.with_files files, hend, hunique, chains', hchained⟩

/-- The number of free slots changes by what the slot says. -/
theorem vacantSlots (h : ChangesSlot name slot chains chains' s s') :
    vacantSlots s'.fs s'.ata.bytes + (if IsLive s.ata.bytes slot then 0 else 1) =
      vacantSlots s.fs s.ata.bytes + if IsLive s'.ata.bytes slot then 0 else 1 := by
  obtain ⟨files, hfs⟩ := h.fs
  have hrest := vacantSlots_erase_congr h.same
  rw [hfs, show Fat16.vacantSlots { s.fs with files } s'.ata.bytes =
    Fat16.vacantSlots s.fs s'.ata.bytes from rfl, vacantSlots_eq h.inRoot, vacantSlots_eq h.inRoot,
    hrest]
  omega

end ChangesSlot

/-- A file takes at most one slot of the table. -/
theorem Stores.length_le {env : Env} {name : CString} {data : List UInt8} {s s' : Fat16State}
    {ret : Int} (h : Stores env name data s ret s') :
    s'.fs.files.length ≤ s.fs.files.length + 1 := by
  cases h with
  | refused => exact Nat.le_succ _
  | rolledBack => exact Nat.le_succ _
  | entered first clock allocated ret s' hdata hfirst henters =>
      cases henters with
      | failed => exact Nat.le_succ _
      | filled =>
          dsimp only
          rw [addFile]
          split_ifs
          · simp
          · exact Nat.le_succ _

namespace Serves

variable {names : Set CString} {s s' : Fat16State} {d : Directory} {name : CString} {ret : Int}

/-- The clock of the drive is no part of what is served. -/
theorem with_clock (h : Serves names chains s d) (clock : Nat) :
    Serves names chains { s with ata := ⟨s.ata.bytes, clock⟩ } d :=
  ⟨h.volume, h.encoded, h.agrees, h.chained, h.plain, h.present, h.absent, h.room⟩

/-- A live slot with the encoded name holds the file. -/
theorem nameAt_eq (h : Serves names chains s d) {slot : Nat}
    (hslot : s.fs.IsLiveIn s.ata.bytes slot) (hname : name ∈ names) (hvalid : ValidName name)
    (hentry : entryName s.ata.bytes slot = fat16ParseName name) :
    IsPlain s.ata.bytes slot ∧ nameAt s.ata.bytes slot = name.upper := by
  refine ⟨h.plain slot hslot name hname hentry, ?_⟩
  rw [nameAt, hentry, fat16UnparseName_parseName hvalid, CString.upper_upper]

/-- After a change of one slot, the directory is the one with the file that is in the slot, or
without. -/
theorem change (h : Serves names chains s d) {slot room : Nat} {chains' : Nat → List Nat}
    {content : Option (List UInt8)} (hname : name ∈ names) (hvalid : ValidName name)
    (hchange : ChangesSlot name slot chains chains' s s')
    (hcontent : content = if IsLive s'.ata.bytes slot then
      some (contentAt s'.fs s'.ata.bytes chains' slot) else none)
    (hroom : room = vacantSlots s'.fs s'.ata.bytes) :
    Serves names chains' s' ⟨Function.update d.files name.upper content, room⟩ := by
  obtain ⟨files, hfs⟩ := hchange.fs
  have hslots (slot : Nat) : s'.fs.InRoot slot ↔ s.fs.InRoot slot := by rw [hfs]; rfl
  have hcontents (slot : Nat) : contentAt s'.fs s'.ata.bytes chains' slot =
      contentAt s.fs s'.ata.bytes chains' slot := by rw [hfs]; rfl
  -- a plain entry of another slot is one from before, with another name
  have hother (slot' : Nat) (hslot' : s.fs.InRoot slot') (hplain : IsPlain s'.ata.bytes slot')
      (hne : slot' ≠ slot) : SameSlot s'.ata.bytes s.ata.bytes slot' ∧
        IsPlain s.ata.bytes slot' ∧ nameAt s.ata.bytes slot' ≠ name.upper := by
    obtain ⟨hsame, hlive⟩ := hchange.other ⟨hslot', hplain.1⟩ hne
    have hplain' := hsame.isPlain.mp hplain
    exact ⟨hsame, hplain', fun hfold => hchange.alone slot' hlive hne
      (h.mounted.entryName_eq hslot' hplain' hfold)⟩
  -- the entry of the slot is called by the name
  have hself (hlive : IsLive s'.ata.bytes slot) : nameAt s'.ata.bytes slot = name.upper := by
    rw [nameAt, (hchange.after hlive).1, fat16UnparseName_parseName hvalid, CString.upper_upper]
  refine ⟨hchange.wellFormed h.volume, ?_, hchange.agrees, hchange.chained, ?_, ?_, ?_, hroom⟩
  · intro slot' hslot' hplain
    rw [hslots] at hslot'
    by_cases hne : slot' = slot
    · subst hne
      rw [(hchange.after hplain.1).1, fat16UnparseName_parseName hvalid, fat16ParseName_upper]
    · obtain ⟨hsame, hplain', -⟩ := hother slot' hslot' hplain hne
      rw [hsame.name]
      exact h.encoded slot' hslot' hplain'
  · rintro slot' ⟨hslot', hlive⟩ other hother' hentry
    rw [hslots] at hslot'
    by_cases hne : slot' = slot
    · subst hne
      exact (hchange.after hlive).2
    · obtain ⟨hsame, hlive'⟩ := hchange.other ⟨hslot', hlive⟩ hne
      exact hsame.isPlain.mpr (h.plain slot' hlive' other hother' (hsame.name ▸ hentry))
  · intro slot' hslot' hplain
    dsimp only
    rw [hslots] at hslot'
    by_cases hne : slot' = slot
    · subst hne
      rw [hself hplain.1, Function.update_self, hcontent, if_pos hplain.1]
    · obtain ⟨hsame, hplain', hfold⟩ := hother slot' hslot' hplain hne
      obtain ⟨hchains, hdata⟩ := hchange.kept slot' ⟨hslot', hplain'.1⟩ hne
      rw [hsame.nameAt, Function.update_of_ne hfold, hcontents,
        hsame.contentAt hchains hdata]
      exact h.present slot' hslot' hplain'
  · intro other hdisk
    dsimp only
    by_cases hfold : other.upper = name.upper
    · have hdead : ¬ IsLive s'.ata.bytes slot := fun hlive =>
        hdisk ⟨slot, (hslots slot).mpr hchange.inRoot, (hchange.after hlive).2,
          (hself hlive).trans hfold.symm⟩
      rw [hfold, Function.update_self, hcontent, if_neg hdead]
    · rw [Function.update_of_ne hfold]
      refine h.absent other ?_
      rintro ⟨slot', hslot', hplain, heq⟩
      have hne : slot' ≠ slot := by
        rintro rfl
        refine hfold (heq.symm.trans ?_)
        exact (h.nameAt_eq ⟨hslot', hplain.1⟩ hname hvalid (hchange.before hplain.1)).2
      have hsame := hchange.same slot' hslot' hne
      refine hdisk ⟨slot', (hslots slot').mpr hslot', hsame.isPlain.mpr hplain, ?_⟩
      rw [hsame.name]
      exact heq

/-! ## Deleting -/

theorem erase_of_none (hnone : (d.files name.upper).isSome = false) : d.erase name = d := by
  rw [Directory.erase, hnone, if_neg Bool.false_ne_true]

/-- Deleting marks the slot and frees its chain, and nothing else. -/
theorem erased (h : Serves names chains s d) (hname : name ∈ names) (hvalid : ValidName name)
    (hdeletes : Deletes Env.faultless name chains s ret s') :
    ret = (if (d.files name.upper).isSome then 0 else -1) ∧
      Serves names chains s' (d.erase name) ∧
      (∀ slot, s'.fs.IsLiveIn s'.ata.bytes slot →
        entryName s'.ata.bytes slot ≠ fat16ParseName name) := by
  have hlayout := h.volume.layout
  have herased := h.mounted.erased h.chained hvalid hdeletes
  have hagrees := (h.agrees.delete hlayout h.chained hvalid
    (fun slot hslot hentry => h.mounted.onlyNamed hslot hentry) hdeletes).1
  have hsome := h.isSome_iff name
  cases hdeletes with
  | missing clock hnone =>
      have habsent (slot : Nat) (hslot : s.fs.InRoot slot) :
          entryName s.ata.bytes slot ≠ fat16ParseName name := by
        intro hentry
        have hlow := hslot.1
        have hhigh := hslot.2
        exact hnone slot (by omega) (by omega) (hasName_iff.mpr hentry) rfl
      have hfalse : (d.files name.upper).isSome = false := by
        rw [← Bool.not_eq_true, hsome]
        rintro ⟨slot, hslot, hplain, hfold⟩
        exact habsent slot hslot (h.mounted.entryName_eq hslot hplain hfold)
      rw [hfalse, erase_of_none hfalse]
      exact ⟨rfl, h.with_clock clock, fun slot hslot => habsent slot hslot.1⟩
  | unmarked slot clock hstop hfault => exact absurd hfault (by simp [Env.faultless])
  | marked slot clock hstop hok =>
      have hentry := hasName_iff.mp hstop.passes
      have hslot : s.fs.IsLiveIn s.ata.bytes slot :=
        ⟨hstop.inRoot, isLive_of_hasName hvalid.head_ne hstop.passes⟩
      obtain ⟨hplain, hnameAt⟩ := h.nameAt_eq hslot hname hvalid hentry
      have hsome' : (d.files name.upper).isSome = true :=
        hsome.mpr ⟨slot, hslot.1, hplain, hnameAt⟩
      have hchange : ChangesSlot name slot chains chains s
          ⟨{ s.fs with files := dropFile name s.fs.files },
            ⟨(zeroFat s.fs s.ata.bytes (deleteTrace Env.faultless s.fs chains s.ata.clock
              slot).1).storeByte (32 * slot) 0xE5, clock⟩⟩ := {
        fs := ⟨_, rfl⟩
        inRoot := hslot.1
        same := fun slot' hslot' hne =>
          sameSlot_mark hlayout (fun c hc => deleteTrace_inside h.chained hslot hc) hslot' hne
        alone := fun slot' hslot' hne hentry' => hne (h.mounted.onlyNamed hslot hentry slot'
          hslot'.1 (h.plain slot' hslot' name hname hentry')
          (h.nameAt_eq hslot' hname hvalid hentry').2)
        before := fun _ => hentry
        after := fun hlive => absurd hlive not_isLive_mark
        marked := by
          refine ⟨?_, fun slot' hslot' hlt hzero => ?_⟩
          · change Memory.storeByte _ (32 * slot) 0xE5 (32 * slot) ≠ 0
            rw [Memory.storeByte_same]
            decide
          · exact hslot.2.1 (h.volume.endMarked slot' slot hslot' hslot.1 hlt.le hzero)
        kept := fun slot' hslot' hne => ⟨rfl, fun c hc x hx => herased.data x
          (Nat.le_of_not_lt fun hlt => s.fs.not_clusterByte_of_lt c hlt hx)⟩
        chained := herased.chained
        agrees := hagrees }
      refine ⟨by rw [hsome', if_pos rfl], ?_, fun slot' hslot' => ?_⟩
      · rw [Directory.erase, if_pos hsome']
        refine h.change hname hvalid hchange ?_ ?_
        · exact (if_neg not_isLive_mark).symm
        · have hroom := hchange.vacantSlots
          rw [if_pos hslot.2, if_neg not_isLive_mark, ← h.room] at hroom
          exact hroom.symm
      · refine hchange.alone_after hslot' ?_
        rintro rfl
        exact not_isLive_mark hslot'.2

/-! ## Storing -/

/-- A change that leaves the root directory, the chains and their clusters alone. -/
theorem frame (h : Serves names chains s d) {clock : Nat}
    (hslots : ∀ slot, s.fs.InRoot slot → SameSlot bytes' s.ata.bytes slot)
    (hfat : ∀ slot, s.fs.IsLiveIn s.ata.bytes slot → ∀ c ∈ chains slot,
      fatEntry s.fs bytes' c = fatEntry s.fs s.ata.bytes c)
    (hdata : ∀ slot, s.fs.IsLiveIn s.ata.bytes slot → ∀ c ∈ chains slot, ∀ x,
      s.fs.ClusterByte c x → bytes' x = s.ata.bytes x) :
    Serves names chains { s with ata := ⟨bytes', clock⟩ } d := by
  have hchained := h.chained.frame hslots hfat
  have hlive (slot : Nat) (hslot : s.fs.IsLiveIn bytes' slot) : s.fs.IsLiveIn s.ata.bytes slot :=
    ⟨hslot.1, (hslots slot hslot.1).isLive.mp hslot.2⟩
  have hplain (slot : Nat) (hslot : s.fs.InRoot slot) (hplain : IsPlain bytes' slot) :
      IsPlain s.ata.bytes slot := (hslots slot hslot).isPlain.mp hplain
  refine ⟨⟨h.volume.layout, ?_, ?_, chains, hchained⟩, ?_, ?_, hchained, ?_, ?_, ?_, ?_⟩
  · intro slot slot' hslot hslot' hle hzero
    rw [(hslots slot hslot).head] at hzero
    exact (hslots slot' hslot').head.trans
      (h.volume.endMarked slot slot' hslot hslot' hle hzero)
  · intro slot slot' hslot hslot' heq hnul
    rw [(hslots slot hslot.1).name] at heq hnul
    rw [(hslots slot' hslot'.1).name] at heq
    exact h.volume.namesUnique slot slot' (hlive slot hslot) (hlive slot' hslot') heq hnul
  · intro slot hslot hplain'
    rw [(hslots slot hslot).name]
    exact h.encoded slot hslot (hplain slot hslot hplain')
  · exact h.agrees.trans (diskRecords_congr hslots).symm
  · intro slot hslot name hname hentry
    rw [(hslots slot hslot.1).name] at hentry
    exact (hslots slot hslot.1).isPlain.mpr (h.plain slot (hlive slot hslot) name hname hentry)
  · intro slot hslot hplain'
    have hbefore := hplain slot hslot hplain'
    rw [(hslots slot hslot).nameAt,
      (hslots slot hslot).contentAt rfl (hdata slot ⟨hslot, hbefore.1⟩)]
    exact h.present slot hslot hbefore
  · intro other hdisk
    refine h.absent other ?_
    rintro ⟨slot, hslot, hbefore, hfold⟩
    refine hdisk ⟨slot, hslot, (hslots slot hslot).isPlain.mpr hbefore, ?_⟩
    rw [(hslots slot hslot).name]
    exact hfold
  · exact h.room.trans (vacantSlots_congr hslots).symm

/-- A write that is given up leaves the files alone. -/
theorem abandoned (h : Serves names chains s d) {clock : Nat}
    (habandoned : Abandoned s.fs s.ata.bytes bytes') :
    Serves names chains { s with ata := ⟨bytes', clock⟩ } d := by
  have hlayout := h.volume.layout
  have hstart := hlayout.dataStart
  have hfree {c : Nat} (hc : c ∈ (freeClusters s.fs s.ata.bytes).head?) :
      s.fs.clusterKind.inside c ∧ fatEntry s.fs s.ata.bytes c = 0x0000 := by
    have hfree := (mem_freeClusters.mp (List.mem_of_mem_head? hc)).2
    exact ⟨hlayout.inside_of_isFree hfree, hfree.2.2⟩
  -- what is neither a byte of the cluster taken nor of its entry is as before
  have hkept (x : Nat) (hx : ∀ c ∈ (freeClusters s.fs s.ata.bytes).head?,
      ¬ s.fs.ClusterByte c x ∧ ¬ s.fs.EntryByte c x) : bytes' x = s.ata.bytes x := by
    rw [habandoned x fun c hc => (hx c hc).1, if_neg]
    rintro ⟨c, hc, -, hbyte⟩
    exact (hx c hc).2 hbyte
  have hne {slot c c' : Nat} (hslot : s.fs.IsLiveIn s.ata.bytes slot) (hc : c ∈ chains slot)
      (hc' : c' ∈ (freeClusters s.fs s.ata.bytes).head?) : c ≠ c' := by
    rintro rfl
    exact h.chained.notMem_of_free hslot (hfree hc').2 hc
  have hinside {slot c : Nat} (hslot : s.fs.IsLiveIn s.ata.bytes slot) (hc : c ∈ chains slot) :
      s.fs.clusterKind.inside c := (h.chained.chain_of_mem hslot hc).inside_of_mem hc
  refine h.frame (fun slot hslot x hlow hhigh => hkept x fun c hc => ⟨?_, ?_⟩)
    (fun slot hslot c hc => Memory.loadLe_congr fun x hlow hhigh => hkept x fun c' hc' => ⟨?_, ?_⟩)
    fun slot hslot c hc x hx => hkept x fun c' hc' => ⟨fun hx' => ?_, ?_⟩
  · have haddr := hlayout.slotAddr_lt hslot
    exact s.fs.not_clusterByte_of_lt c (by omega)
  · have haddr := hlayout.fatAddr_lt (hfree hc).1
    have hroot := hslot.1
    rintro ⟨-, hhigh'⟩
    omega
  · have haddr := hlayout.fatAddr_lt (hinside hslot hc)
    exact s.fs.not_clusterByte_of_lt c' (by omega)
  · have hdiff := hne hslot hc hc'
    rintro ⟨hlow', hhigh'⟩
    omega
  · exact hne hslot hc hc' (hx.unique (hinside hslot hc).1 (hfree hc').1.1 hx')
  · have haddr := hlayout.fatAddr_lt (hfree hc').1
    have hdata := s.fs.not_clusterByte_of_lt c (x := x)
    rintro ⟨-, hhigh'⟩
    exact hdata (by omega) hx

/-- Taking a cluster leaves the files alone. -/
theorem allocated (h : Serves names chains s d) {first clock : Nat}
    (hfirst : Allocated s.fs s.ata.bytes first bytes') :
    Serves names chains { s with ata := ⟨bytes', clock⟩ } d := by
  have hlayout := h.volume.layout
  have hstart := hlayout.dataStart
  refine h.frame (fun slot hslot => hfirst.sameSlot hlayout hslot)
    (fun slot hslot c hc => ?_) fun slot hslot c hc x hx => hfirst.data hlayout ?_
  · rcases hfirst with ⟨-, rfl⟩ | ⟨-, hfree, rfl⟩
    · rfl
    · rw [fatEntry_setFat, if_neg]
      rintro rfl
      exact h.chained.notMem_of_free hslot hfree hc
  · by_contra hlt
    exact s.fs.not_clusterByte_of_lt c (by omega) hx

/-- Entering an empty file in the first free slot. -/
theorem entered (h : Serves names chains s d) (hname : name ∈ names) (hvalid : ValidName name)
    (halone : ∀ slot, s.fs.IsLiveIn s.ata.bytes slot →
      entryName s.ata.bytes slot ≠ fat16ParseName name)
    (hroom : s.fs.files.length < fat16MaxFiles) (hstores : Stores Env.faultless name [] s ret s') :
    ret = (if 0 < d.room then 0 else -1) ∧
      ∃ chains', Serves names chains' s' (if 0 < d.room then d.insert name [] else d) := by
  have hlayout := h.volume.layout
  have hstart := hlayout.dataStart
  have hlength := fat16ParseName_length name
  have hpos : 0 < d.room ↔ ∃ slot, s.fs.InRoot slot ∧ ¬ IsLive s.ata.bytes slot := by
    rw [h.room, vacantSlots_pos_iff]
  have hagrees (hret : ret ≠ -1) := h.agrees.store hlayout hvalid hroom hstores hret
  cases hstores with
  | refused _ hdata => exact absurd rfl hdata
  | rolledBack _ _ _ _ hdata => exact absurd rfl hdata
  | entered first clock allocated ret s' hdata hfirst henters =>
      have hsame (slot : Nat) (hslot : s.fs.InRoot slot) :
          SameSlot allocated s.ata.bytes slot := hfirst.sameSlot hlayout hslot
      cases henters with
      | failed clock hfail =>
          have hfull : ¬ 0 < d.room := by
            rw [hpos]
            rintro ⟨slot, hslot, hvacant⟩
            rw [← (hsame slot hslot).isLive] at hvacant
            have hlow := hslot.1
            have hhigh := hslot.2
            rcases hfail with hnone | ⟨t, lba, hfault⟩
            · exact hnone slot (by change s.fs.rootStart ≤ _; omega)
                (by change _ < s.fs.rootStart + s.fs.rootSectors; omega)
                (isVacant_iff.mpr hvacant) rfl
            · cases hfault
          rw [if_neg hfull, if_neg hfull]
          exact ⟨rfl, chains, h.allocated hfirst⟩
      | filled slot clock hslot hvacant hbefore =>
          have hslot : s.fs.InRoot slot := hslot
          have hvacant : ¬ IsLive s.ata.bytes slot := fun hlive =>
            hvacant ((hsame slot hslot).isLive.mpr hlive)
          have hsome : 0 < d.room := hpos.mpr ⟨slot, hslot, hvacant⟩
          have hentry := @entryName_putEntry allocated slot 0 first _ hlength
          have hplain : IsPlain (putEntry allocated slot (fat16ParseName name) 0 first) slot := by
            refine ⟨isLive_of_hasName hvalid.head_ne (hasName_iff.mpr hentry), ?_, ?_⟩
            · rw [entryAttr_putEntry]
              decide
            · rw [entryAttr_putEntry]
              decide
          have hchange : ChangesSlot name slot chains
              (Function.update chains slot (if first < 2 then [] else [first])) s
              ⟨{ s.fs with files := addFile name 0 first s.fs.files },
                ⟨putEntry allocated slot (fat16ParseName name) 0 first, clock⟩⟩ := {
            fs := ⟨_, rfl⟩
            inRoot := hslot
            same := fun slot' hslot' hne =>
              (sameSlot_putEntry hlength hne).trans (hsame slot' hslot')
            alone := fun slot' hslot' _ => halone slot' hslot'
            before := fun hlive => absurd hlive hvacant
            after := fun _ => ⟨hentry, hplain⟩
            marked := by
              refine ⟨hplain.1.1, fun slot' hslot' hlt hzero => ?_⟩
              refine hbefore slot' hslot' hlt (fun hlive => ?_) rfl
              exact hlive.1 ((hsame slot' hslot').head.trans hzero)
            kept := fun slot' hslot' hne => by
              refine ⟨Function.update_of_ne hne _ _, fun c hc x hx => ?_⟩
              have haddr := hlayout.slotAddr_lt hslot
              have hdata : 512 * s.fs.dataStart ≤ x :=
                Nat.le_of_not_lt fun hlt => s.fs.not_clusterByte_of_lt c hlt hx
              exact (putEntry_apply_of_outside hlength (by omega)).trans
                (hfirst.data hlayout (by omega))
            chained := h.chained.put hlayout hfirst hslot hlength 0
            agrees := hagrees (by decide) }
          rw [if_pos hsome, if_pos hsome]
          refine ⟨rfl, _, h.change hname hvalid hchange ?_ ?_⟩
          · rw [if_pos hplain.1, contentAt]
            simp [entryFileSize_putEntry]
          · have hcount := hchange.vacantSlots
            rw [if_neg hvacant, if_pos hplain.1, ← h.room] at hcount
            rw [← Nat.add_sub_cancel (vacantSlots _ _) 1, hcount]
            rfl

/-! ## Calls -/

theorem fileExists_eq (h : Serves names chains s d) (name : CString) :
    fat16FileExists s.fs name = (d.files name.upper).isSome := by
  rw [Bool.eq_iff_iff, h.agrees.fileExists_iff name, h.isSome_iff name]

/-- A command does to the directory what it is for. -/
theorem command (h : Serves names chains s d) (cmd : Command) (hname : cmd.name ∈ names)
    (hvalid : ValidName cmd.name)
    (hroom : FileCall.enters (.command cmd) = true → s.fs.files.length < fat16MaxFiles)
    {fuel : Nat} (hfuel : 65536 ≤ fuel) :
    ∃ ret s' d' chains', cmd.exec Env.faultless fuel s = some (ret, s') ∧
      FileCall.spec (.command cmd) d = (.code ret, d') ∧ Serves names chains' s' d' ∧
      s'.fs.files.length ≤
        s.fs.files.length + if FileCall.enters (.command cmd) then 1 else 0 := by
  have hlayout := h.volume.layout
  -- an empty file, however it is asked for
  have hempty (hroom : s.fs.files.length < fat16MaxFiles) : ∃ ret s' d' chains',
      fat16WriteFile Env.faultless fuel cmd.name [] s = some (ret, s') ∧
        (d.store cmd.name []).map FileAnswer.code id = (.code ret, d') ∧
        Serves names chains' s' d' ∧ s'.fs.files.length ≤ s.fs.files.length + 1 := by
    obtain ⟨ret₁, s₁, ret, s', hdeletes, hstores, hwrite⟩ :=
      fat16WriteFile_stores Env.faultless hlayout h.chained hvalid.head_ne [] hfuel
    obtain ⟨-, hserves, halone⟩ := h.erased hname hvalid hdeletes
    have hlength := (h.mounted.erased h.chained hvalid hdeletes).length
    obtain ⟨hret, chains', hserves'⟩ :=
      hserves.entered hname hvalid halone (hlength ▸ hroom) hstores
    refine ⟨ret, s', _, chains', hwrite, ?_, hserves', ?_⟩
    · rw [Directory.store, hret]
      split_ifs <;> simp_all
    · exact hstores.length_le.trans (by omega)
  cases cmd with
  | delete name =>
      obtain ⟨ret, s', hdelete, hdeletes⟩ :=
        fat16DeleteFile_deletes Env.faultless hlayout h.chained hvalid.head_ne hfuel
      obtain ⟨hret, hserves, -⟩ := h.erased hname hvalid hdeletes
      have hlength := (h.mounted.erased h.chained hvalid hdeletes).length
      refine ⟨ret, s', d.erase name, chains, hdelete, ?_, hserves, by simp [hlength]⟩
      rw [FileCall.spec, hret]
      rfl
  | create name => exact hempty (hroom rfl)
  | write name data =>
      rcases eq_or_ne data [] with rfl | hdata
      · exact hempty (hroom rfl)
      · obtain ⟨ret₁, s₁, hdelete, hdeletes⟩ :=
          fat16DeleteFile_deletes Env.faultless hlayout h.chained hvalid.head_ne hfuel
        obtain ⟨-, hserves, -⟩ := h.erased hname hvalid hdeletes
        have hlength := (h.mounted.erased h.chained hvalid hdeletes).length
        obtain ⟨bytes', clock, hstore, habandoned⟩ := @storeFile_abandons s₁
          (hdeletes.layout hlayout) data hdata name fuel (by omega)
        refine ⟨-1, _, d.erase name, chains,
          (fat16WriteFile_eq data hlayout.mounted hdelete).trans hstore, ?_,
          hserves.abandoned habandoned, ?_⟩
        · rw [FileCall.spec, Directory.store, if_neg fun hnil => hdata hnil.1]
          rfl
        · exact le_of_eq_of_le hlength (Nat.le_add_right _ _)

/-- Every call answers as the directory does and leaves a state that serves the directory after
it. -/
theorem step (h : Serves names chains s d) (call : FileCall)
    (hnames : ∀ cmd, call = .command cmd → cmd.name ∈ names ∧ ValidName cmd.name)
    (hroom : call.enters = true → s.fs.files.length < fat16MaxFiles)
    {fuel : Nat} (hfuel : 65536 ≤ fuel) :
    ∃ answer s' d' chains', call.run fuel s = some (answer, s') ∧ call.spec d = (answer, d') ∧
      Serves names chains' s' d' ∧
      s'.fs.files.length ≤ s.fs.files.length + if call.enters then 1 else 0 := by
  cases call with
  | read name maxSize =>
      obtain ⟨answer, clock, hrun, hspec⟩ := h.read hfuel name maxSize
      exact ⟨answer, _, d, chains, hrun, hspec, h.with_clock clock, Nat.le_add_right _ _⟩
  | «exists» name =>
      refine ⟨.found (fat16FileExists s.fs name), s, d, chains, rfl, ?_, h, Nat.le_add_right _ _⟩
      rw [FileCall.spec, h.fileExists_eq]
  | command cmd =>
      obtain ⟨hname, hvalid⟩ := hnames cmd rfl
      obtain ⟨ret, s', d', chains', hexec, hspec, hserves, hlength⟩ :=
        h.command cmd hname hvalid hroom hfuel
      exact ⟨.code ret, s', d', chains', by rw [FileCall.run, hexec]; rfl, hspec, hserves, hlength⟩

end Serves

/-! ## Sessions -/

end Dosfs.Fat16
