import Mathlib.Algebra.BigOperators.Group.Finset.Piecewise
import Dosfs.Foundation.SlotSearch
import Dosfs.Fs.Tmpfs

/-!
# The slots of the temporary file system under any names

With a name of more than 63 bytes `tmpfs_create` stores less than `find_file`
looks for, and a stored name can come more than once. What holds of the slots in
every state, and what each call does to the contents stored under a name.
-/

namespace Dosfs

open Foundation

/-- The number of slots in use. -/
def Tmpfs.usedCount (t : Tmpfs) : Nat :=
  (Finset.univ.filter fun i => (t.files i).used = true).card

/-- What every call keeps, whatever the names: the counter is the number of used
slots, no file is too large, and no stored name is too long. -/
structure TmpfsSound (t : Tmpfs) : Prop where
  count : t.fileCount = t.usedCount
  size : ∀ i, (t.files i).size ≤ tmpfsDataSize
  short : ∀ i, (t.files i).used = true → (t.files i).string.bytes.length ≤ 63

/-- The contents of all files stored under the name, in the order of the slots. -/
def Tmpfs.contents (t : Tmpfs) (name : CString) : List (List UInt8) :=
  SlotTable.values t.entries name

variable {t t' : Tmpfs} {name : CString} {i : Fin tmpfsMaxFiles} {file : TmpfsFile}

theorem tmpfsInit_sound : TmpfsSound tmpfsInit where
  count := by simp [Tmpfs.usedCount, tmpfsInit]
  size _ := Nat.zero_le _
  short _ h := absurd h Bool.false_ne_true

theorem usedCount_store (t : Tmpfs) (i : Fin tmpfsMaxFiles) (file : TmpfsFile) :
    (t.store i file).usedCount + (if (t.files i).used then 1 else 0) =
      t.usedCount + (if file.used then 1 else 0) := by
  have hothers : ∑ j ∈ Finset.univ.erase i, (if ((t.store i file).files j).used then 1 else 0) =
      ∑ j ∈ Finset.univ.erase i, (if (t.files j).used then 1 else 0) := by
    refine Finset.sum_congr rfl fun j hj => ?_
    rw [Tmpfs.store_of_ne file (Finset.ne_of_mem_erase hj)]
  rw [Tmpfs.usedCount, Finset.card_filter, ← Finset.add_sum_erase _ _ (Finset.mem_univ i),
    Tmpfs.usedCount, Finset.card_filter, ← Finset.add_sum_erase _ _ (Finset.mem_univ i), hothers,
    Tmpfs.store_same]
  omega

namespace TmpfsSound

/-- Storing a file and setting the counter. -/
theorem store (h : TmpfsSound t) (hsize : file.size ≤ tmpfsDataSize)
    (hshort : file.used = true → file.string.bytes.length ≤ 63) {count : Int}
    (hcount : count + (if (t.files i).used then 1 else 0) =
      t.fileCount + (if file.used then 1 else 0)) :
    TmpfsSound { t.store i file with fileCount := count } where
  count := by
    have hold := h.count
    have hstore := usedCount_store t i file
    change count = (t.store i file).usedCount
    split_ifs at hcount hstore <;> omega
  size := size_store h.size hsize
  short j hj := by
    by_cases hji : j = i
    · subst hji
      simp only [Tmpfs.store_same] at hj ⊢
      exact hshort hj
    · simp only [Tmpfs.store_of_ne file hji] at hj ⊢
      exact h.short j hj

theorem fileCount_le (h : TmpfsSound t) : t.fileCount ≤ 32 := by
  have hle : t.usedCount ≤ 32 := (Finset.card_le_univ _).trans_eq (Fintype.card_fin 32)
  rw [h.count]
  omega

theorem not_all_used (h : TmpfsSound t) (hroom : t.fileCount < 32) :
    ¬ ∀ i, (t.files i).used = true := by
  intro hall
  have hcard : t.usedCount = 32 := by
    rw [Tmpfs.usedCount, Finset.filter_true_of_mem fun i _ => hall i, Finset.card_univ]
    exact Fintype.card_fin 32
  rw [h.count] at hroom
  omega

end TmpfsSound

/-! ## Looking for a name -/

theorem valueUnder_entry (name : CString) (file : TmpfsFile) :
    (SlotTable.valueUnder name file.entry).isSome =
      (file.used && decide (strcmp file.string name = 0)) := by
  rw [TmpfsFile.entry]
  by_cases hused : file.used = true
  · by_cases hname : file.string = name
    · simp [hused, hname, strcmp_eq_zero_iff]
    · rw [if_pos hused, SlotTable.valueUnder_of_ne hname]
      simp [hname, strcmp_eq_zero_iff]
  · simp [hused]

theorem findFile_eq_first (name : CString) (t : Tmpfs) :
    findFile name t = SlotTable.first t.entries name := by
  rw [findFile, SlotTable.first]
  congr 1
  funext i
  exact (valueUnder_entry name (t.files i)).symm

theorem findFile_eq_none_iff : findFile name t = none ↔ t.contents name = [] := by
  rw [findFile_eq_first, Tmpfs.contents, SlotTable.values_eq_nil_iff]

theorem entries_of_findFile (hfind : findFile name t = some i) :
    t.entries i = some (name, (t.files i).data.loadList 0 (t.files i).size) := by
  rw [findFile_eq_first] at hfind
  obtain ⟨content, hentry⟩ := SlotTable.exists_of_first hfind
  obtain ⟨hused, hname, rfl⟩ := entries_eq_some.1 hentry
  exact entries_eq_some.2 ⟨hused, hname, rfl⟩

/-- The file found is the first one with the name. -/
theorem content_eq_head? (t : Tmpfs) (name : CString) :
    t.content name = (t.contents name).head? := by
  cases hfind : findFile name t with
  | none => rw [Tmpfs.content, hfind, findFile_eq_none_iff.1 hfind]; rfl
  | some i =>
      have hentry := entries_of_findFile hfind
      rw [Tmpfs.content, hfind, Tmpfs.contents,
        SlotTable.values_eq_cons (findFile_eq_first name t ▸ hfind) hentry]
      rfl

theorem content_eq_none_iff : t.content name = none ↔ t.contents name = [] := by
  rw [content_eq_head?, List.head?_eq_none_iff]

theorem content_length_le (hsound : TmpfsSound t) {content : List UInt8}
    (hcontent : t.content name = some content) : content.length ≤ 4096 := by
  obtain ⟨i, -, rfl⟩ := Option.map_eq_some_iff.1 hcontent
  rw [Memory.loadList_length]
  exact hsound.size i

theorem tmpfsRead_eq (name : CString) (maxSize : Nat) (t : Tmpfs) :
    tmpfsRead name maxSize t = match t.content name with
      | none => (-1, [])
      | some content => ((min content.length maxSize : Nat), content.take maxSize) := by
  rw [tmpfsRead, Tmpfs.content]
  cases findFile name t with
  | none => rfl
  | some i =>
      have hlen : (if (t.files i).size > maxSize then maxSize else (t.files i).size) =
          min maxSize (t.files i).size := (min_def_lt _ _).symm
      simp only [Option.map_some, hlen, Memory.loadList_length, Memory.loadList_take, Nat.min_comm]

/-- A name that is too long is never found. -/
theorem findFile_of_long (hsound : TmpfsSound t) (hlong : 63 < name.bytes.length) :
    findFile name t = none := by
  refine Option.eq_none_iff_forall_ne_some.2 fun i hfind => ?_
  obtain ⟨hused, hname, -⟩ := entries_eq_some.1 (entries_of_findFile hfind)
  have hshort := hsound.short i hused
  rw [hname] at hshort
  omega

theorem short_of_content (hsound : TmpfsSound t) {content : List UInt8}
    (hcontent : t.content name = some content) : name.bytes.length ≤ 63 := by
  by_contra hlong
  rw [Tmpfs.content, findFile_of_long hsound (not_le.1 hlong)] at hcontent
  exact absurd hcontent (Option.some_ne_none content).symm

/-! ## What a call changes -/

/-- The contents under the name become the given ones, and nothing else changes. -/
structure Replaces (t t' : Tmpfs) (name : CString) (contents : List (List UInt8)) : Prop where
  sound : TmpfsSound t'
  same : t'.contents name = contents
  other : ∀ other ≠ name, t'.contents other = t.contents other

theorem Replaces.refl (hsound : TmpfsSound t) : Replaces t t name (t.contents name) :=
  ⟨hsound, rfl, fun _ _ => rfl⟩

theorem Replaces.trans {t'' : Tmpfs} {contents contents' : List (List UInt8)}
    (h : Replaces t t' name contents) (h' : Replaces t' t'' name contents') :
    Replaces t t'' name contents' :=
  ⟨h'.sound, h'.same, fun other hother => (h'.other other hother).trans (h.other other hother)⟩

theorem entries_store_count (count : Int) :
    Tmpfs.entries { t.store i file with fileCount := count } =
      Function.update t.entries i file.entry :=
  entries_store i file

/-- A slot that has another name, or none, before and after. -/
theorem contents_store_of_ne (count : Int) {other : CString}
    (hold : SlotTable.valueUnder other (t.entries i) = none)
    (hnew : SlotTable.valueUnder other file.entry = none) :
    Tmpfs.contents { t.store i file with fileCount := count } other = t.contents other := by
  rw [Tmpfs.contents, entries_store_count]
  exact SlotTable.values_update_of_none hold hnew

theorem storeData_replaces (hsound : TmpfsSound t) (hfind : findFile name t = some i)
    (data : Memory) (size : Nat) :
    Replaces t (storeData data size i t).2 name
      (data.loadList 0 (min size 4096) :: (t.contents name).tail) := by
  have hentry := entries_of_findFile hfind
  obtain ⟨hused, hname, -⟩ := entries_eq_some.1 hentry
  have hnew := entry_stored hused data (min size 4096)
  rw [hname] at hnew
  rw [storeData_eq]
  generalize hfile : TmpfsFile.mk (t.files i).name (min size 4096) (t.files i).used
    ((t.files i).data.overwrite 0 (min size 4096) data) = file at hnew ⊢
  have hused' : file.used = true := by rw [← hfile, hused]
  refine ⟨@TmpfsSound.store t i file hsound ?_ (fun _ => ?_) _ ?_, ?_, ?_⟩
  · rw [← hfile]
    exact Nat.min_le_right _ _
  · rw [← hfile]
    exact hsound.short i hused
  · rw [hused, hused']
  · rw [Tmpfs.contents, entries_store, hnew]
    exact SlotTable.values_replace (findFile_eq_first name t ▸ hfind) _
  · intro other hother
    refine contents_store_of_ne t.fileCount ?_ ?_
    · rw [hentry, SlotTable.valueUnder_of_ne hother.symm]
    · rw [hnew, SlotTable.valueUnder_of_ne hother.symm]

theorem created_sound (hsound : TmpfsSound t) (hfree : (t.files i).used = false)
    (name : CString) :
    TmpfsSound { t.store i (createdFile name (t.files i)) with
      fileCount := t.fileCount + 1 } := by
  refine hsound.store (Nat.zero_le _) (fun _ => ?_) ?_
  · rw [createdFile_string]
    exact List.length_take_le _ _
  · rw [hfree]
    exact add_zero _

theorem created_replaces (hsound : TmpfsSound t) (hfree : (t.files i).used = false)
    (hshort : name.bytes.length ≤ 63) (habsent : t.contents name = []) :
    Replaces t { t.store i (createdFile name (t.files i)) with
      fileCount := t.fileCount + 1 } name [[]] := by
  have hentry : t.entries i = none := by simp [Tmpfs.entries, TmpfsFile.entry, hfree]
  have hnew := entry_created hshort (t.files i)
  refine ⟨created_sound hsound hfree name, ?_, fun other hother => ?_⟩
  · rw [Tmpfs.contents, entries_store_count, hnew]
    exact SlotTable.values_add hentry habsent []
  · refine contents_store_of_ne _ ?_ ?_
    · rw [hentry, SlotTable.valueUnder_none]
    · rw [hnew, SlotTable.valueUnder_of_ne hother.symm]

/-- A name that fits is found after it was created. -/
theorem tmpfsCreate_found (hsound : TmpfsSound t) (hshort : name.bytes.length ≤ 63)
    (hret : (tmpfsCreate name t).1 = 0) : findFile name (tmpfsCreate name t).2 ≠ none := by
  rcases tmpfsCreate_cases name t with ⟨hfound, heq⟩ | ⟨-, -, heq⟩ | ⟨hfind, -, i, hfree, heq⟩
  · rw [heq]
    exact hfound
  · rw [heq] at hret
    exact absurd hret (by simp)
  · have hcreated := created_replaces hsound hfree hshort (findFile_eq_none_iff.1 hfind)
    rw [heq]
    exact mt findFile_eq_none_iff.1 (by simp [hcreated.same])

/-- `tmpfs_delete` drops the first file with the name. -/
theorem tmpfsDelete_replaces (hsound : TmpfsSound t) (name : CString) :
    Replaces t (tmpfsDelete name t).2 name (t.contents name).tail := by
  cases hfind : findFile name t with
  | none =>
      have habsent := findFile_eq_none_iff.1 hfind
      have hsame := @Replaces.refl t name hsound
      rw [habsent] at hsame
      rw [tmpfsDelete, hfind, habsent]
      exact hsame
  | some i =>
      have hentry := entries_of_findFile hfind
      obtain ⟨hused, -, -⟩ := entries_eq_some.1 hentry
      have hnew : TmpfsFile.entry { t.files i with used := false } = none := rfl
      rw [tmpfsDelete, hfind]
      refine ⟨@TmpfsSound.store t i { t.files i with used := false } hsound (hsound.size i)
        (fun h => absurd h Bool.false_ne_true) _ ?_, ?_, ?_⟩
      · rw [hused]
        exact (sub_add_cancel _ _).trans (add_zero _).symm
      · rw [Tmpfs.contents, entries_store_count, hnew]
        exact SlotTable.values_clear (findFile_eq_first name t ▸ hfind)
      · intro other hother
        refine contents_store_of_ne _ ?_ (by rw [hnew, SlotTable.valueUnder_none])
        rw [hentry, SlotTable.valueUnder_of_ne hother.symm]

theorem tmpfsDelete_absent (habsent : t.contents name = []) : tmpfsDelete name t = (-1, t) := by
  rw [tmpfsDelete, findFile_eq_none_iff.2 habsent]

/-- After a file was deleted there is room. -/
theorem tmpfsDelete_room (hsound : TmpfsSound t) (hexists : t.contents name ≠ []) :
    (tmpfsDelete name t).2.fileCount < 32 := by
  obtain ⟨i, hfind⟩ := Option.ne_none_iff_exists'.1 (mt findFile_eq_none_iff.1 hexists)
  have hle := hsound.fileCount_le
  rw [tmpfsDelete, hfind]
  dsimp only
  omega

/-- With a name that fits, `tmpfs_write` replaces the first file with the name or
adds one. -/
theorem tmpfsWrite_replaces (hsound : TmpfsSound t) (hshort : name.bytes.length ≤ 63)
    (hroom : t.contents name ≠ [] ∨ t.fileCount < 32) (data : Memory) (size : Nat) :
    ∃ t', tmpfsWrite name data size t = some (((min size 4096 : Nat) : Int), t') ∧
      Replaces t t' name (data.loadList 0 (min size 4096) :: (t.contents name).tail) := by
  rw [tmpfsWrite]
  cases hfind : findFile name t with
  | some i =>
      refine ⟨(storeData data size i t).2, ?_, storeData_replaces hsound hfind data size⟩
      dsimp only
      rw [storeData_eq]
  | none =>
      have habsent := findFile_eq_none_iff.1 hfind
      have hcount : t.fileCount < 32 := hroom.resolve_left (not_not.2 habsent)
      rcases tmpfsCreate_cases name t with ⟨hfound, -⟩ | ⟨-, hfull, -⟩ | ⟨-, -, i, hfree, heq⟩
      · exact absurd hfind hfound
      · rcases hfull with hfull | hall
        · exact absurd hcount (not_lt.2 hfull)
        · exact absurd hall (hsound.not_all_used hcount)
      · have hcreated := created_replaces hsound hfree hshort habsent
        dsimp only
        rw [heq]
        generalize { t.store i (createdFile name (t.files i)) with
          fileCount := t.fileCount + 1 } = created at hcreated ⊢
        obtain ⟨j, hfound⟩ : ∃ j, findFile name created = some j :=
          Option.ne_none_iff_exists'.1 (mt findFile_eq_none_iff.1 (by simp [hcreated.same]))
        have hreplaces := storeData_replaces hcreated.sound hfound data size
        rw [hcreated.same] at hreplaces
        rw [if_neg (by simp), hfound, Option.map_some]
        rw [storeData_eq] at hreplaces ⊢
        refine ⟨_, rfl, ?_⟩
        rw [habsent]
        exact hcreated.trans hreplaces

theorem tmpfsCreate_full (hfind : findFile name t = none) (hfull : 32 ≤ t.fileCount) :
    tmpfsCreate name t = (-1, t) := by
  rw [tmpfsCreate, hfind, if_neg (by simp)]
  exact if_pos hfull

theorem tmpfsWrite_full (habsent : t.contents name = []) (hfull : 32 ≤ t.fileCount)
    (data : Memory) (size : Nat) : tmpfsWrite name data size t = some (-1, t) := by
  have hfind := findFile_eq_none_iff.2 habsent
  rw [tmpfsWrite, hfind]
  dsimp only
  rw [tmpfsCreate_full hfind hfull]
  rfl

/-! ## Every state -/

theorem tmpfsCreate_sound (hsound : TmpfsSound t) (name : CString) :
    TmpfsSound (tmpfsCreate name t).2 := by
  rcases tmpfsCreate_cases name t with ⟨-, heq⟩ | ⟨-, -, heq⟩ | ⟨-, -, i, hfree, heq⟩
  · rw [heq]
    exact hsound
  · rw [heq]
    exact hsound
  · rw [heq]
    exact created_sound hsound hfree name

theorem tmpfsWrite_sound {data : Memory} {size : Nat} {ret : Int} (hsound : TmpfsSound t)
    (hwrite : tmpfsWrite name data size t = some (ret, t')) : TmpfsSound t' := by
  have hstored {t i} (hsound : TmpfsSound t) (hfind : findFile name t = some i)
      (heq : storeData data size i t = (ret, t')) : TmpfsSound t' := by
    have hreplaces := storeData_replaces hsound hfind data size
    rw [heq] at hreplaces
    exact hreplaces.sound
  rw [tmpfsWrite] at hwrite
  cases hfind : findFile name t with
  | some i =>
      rw [hfind] at hwrite
      exact hstored hsound hfind (Option.some.inj hwrite)
  | none =>
      rw [hfind] at hwrite
      have hcreated := tmpfsCreate_sound hsound name
      dsimp only at hwrite
      split_ifs at hwrite with hret
      · obtain ⟨-, rfl⟩ := Prod.mk.inj (Option.some.inj hwrite)
        exact hcreated
      · obtain ⟨i, hfound, heq⟩ := Option.map_eq_some_iff.1 hwrite
        exact hstored hcreated hfound heq

/-- Every call keeps the slots sound, with names of any length. -/
theorem stepTmpfs_sound {op : TmpfsOp} {answer : Int × List UInt8} (hsound : TmpfsSound t)
    (hstep : stepTmpfs op t = some (answer, t')) : TmpfsSound t' := by
  cases op with
  | create name =>
      obtain ⟨-, rfl⟩ := Prod.mk.inj (Option.some.inj hstep)
      exact tmpfsCreate_sound hsound name
  | write name data size =>
      obtain ⟨⟨ret, written⟩, hwrite, heq⟩ := Option.map_eq_some_iff.1 hstep
      obtain ⟨-, rfl⟩ := Prod.mk.inj heq
      exact tmpfsWrite_sound hsound hwrite
  | read name maxSize =>
      obtain ⟨-, rfl⟩ := Prod.mk.inj (Option.some.inj hstep)
      exact hsound
  | delete name =>
      obtain ⟨-, rfl⟩ := Prod.mk.inj (Option.some.inj hstep)
      exact (tmpfsDelete_replaces hsound name).sound
  | queryExists name =>
      obtain ⟨-, rfl⟩ := Prod.mk.inj (Option.some.inj hstep)
      exact hsound

theorem TmpfsSound.of_runsTo (hreach : RunsTo stepTmpfs tmpfsInit t) : TmpfsSound t := by
  obtain ⟨ops, answers, hrun⟩ := hreach
  exact runAll_preserves (fun _ t => TmpfsSound t)
    (fun _ _ _ _ _ hsound hstep _ => stepTmpfs_sound hsound hstep) hrun (fun _ _ => trivial)
    tmpfsInit_sound

/-- A state with a file of the given name and text. -/
theorem exists_file (hshort : name.bytes.length ≤ 63) {text : List UInt8}
    (hfits : text.length ≤ 4096) :
    ∃ t, RunsTo stepTmpfs tmpfsInit t ∧ t.contents name = [text] := by
  obtain ⟨t, hwrite, hreplaces⟩ := tmpfsWrite_replaces tmpfsInit_sound hshort (.inr (by decide))
    (Memory.storeList (fun _ => 0) 0 text) text.length
  have hstep : stepTmpfs (.write name (Memory.storeList (fun _ => 0) 0 text) text.length)
      tmpfsInit = some ((((min text.length 4096 : Nat) : Int), []), t) :=
    congrArg (Option.map _) hwrite
  have hnone : tmpfsInit.contents name = [] :=
    List.filterMap_eq_nil_iff.2 fun _ _ => rfl
  refine ⟨t, RunsTo.single hstep, ?_⟩
  rw [hreplaces.same, hnone, Nat.min_eq_left hfits, Memory.loadList_storeList_same]
  rfl

/-- A state with one file, named `a`, of one byte. -/
theorem exists_one_file :
    ∃ t, RunsTo stepTmpfs tmpfsInit t ∧ t.fileCount < 32 ∧
      t.contents ⟨[0x61], by simp⟩ = [[7]] := by
  obtain ⟨t, hwrite, hcount, hcontents⟩ : ∃ t,
      stepTmpfs (.write ⟨[0x61], by simp⟩ (fun _ => 7) 1) tmpfsInit = some ((1, []), t) ∧
      t.fileCount < 32 ∧ t.contents ⟨[0x61], by simp⟩ = [[7]] :=
    ⟨_, rfl, by decide, by decide⟩
  exact ⟨t, RunsTo.single hwrite, hcount, hcontents⟩

end Dosfs
