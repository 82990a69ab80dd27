import Mathlib.Data.List.FinRange
import Dosfs.Foundation.Run
import Dosfs.Foundation.SlotTable
import Dosfs.Libc.String

/-!
# The temporary file system

A translation of `fs/tmpfs.c`: 32 slots with a name, a size and 4096 bytes of
data, and a counter beside them. With names of at most 63 bytes it is a finite
map from names to contents.
-/

namespace Dosfs

open Foundation

def tmpfsMaxFiles : Nat := 32

def tmpfsNameLen : Nat := 64

def tmpfsDataSize : Nat := 4096

/-- A slot; `name` and `data` are its buffers. -/
structure TmpfsFile where
  name : Memory
  size : Nat
  used : Bool
  data : Memory

structure Tmpfs where
  files : Fin tmpfsMaxFiles → TmpfsFile
  fileCount : Int

def tmpfsInit : Tmpfs where
  files := fun _ => ⟨fun _ => 0, 0, false, fun _ => 0⟩
  fileCount := 0

/-- The string in the buffer `name`. -/
def TmpfsFile.string (file : TmpfsFile) : CString :=
  CString.ofBuffer (file.name.loadList 0 tmpfsNameLen)

def findFile (name : CString) (t : Tmpfs) : Option (Fin tmpfsMaxFiles) :=
  (List.finRange tmpfsMaxFiles).find? fun i =>
    (t.files i).used && decide (strcmp (t.files i).string name = 0)

def Tmpfs.store (t : Tmpfs) (i : Fin tmpfsMaxFiles) (file : TmpfsFile) : Tmpfs :=
  { t with files := Function.update t.files i file }

def tmpfsCreate (name : CString) (t : Tmpfs) : Int × Tmpfs :=
  if (findFile name t).isSome then (0, t)
  else if tmpfsMaxFiles ≤ t.fileCount then (-1, t)
  else
    match (List.finRange tmpfsMaxFiles).find? fun i => !(t.files i).used with
    | some i =>
        let file : TmpfsFile := {
          name := (strncpy (t.files i).name name (tmpfsNameLen - 1)).storeByte (tmpfsNameLen - 1) 0
          size := 0
          used := true
          data := memset (t.files i).data 0 0 tmpfsDataSize }
        (0, { t.store i file with fileCount := t.fileCount + 1 })
    | none => (-1, t)

/-- The end of `tmpfs_write`, with the file found. -/
def storeData (data : Memory) (size : Nat) (i : Fin tmpfsMaxFiles) (t : Tmpfs) : Int × Tmpfs :=
  let size := if size > tmpfsDataSize then tmpfsDataSize else size
  (size, t.store i { t.files i with data := (t.files i).data.overwrite 0 size data, size })

/-- `none` when the file is not found after it was created: the code then goes
on with a null pointer. -/
def tmpfsWrite (name : CString) (data : Memory) (size : Nat) (t : Tmpfs) : Option (Int × Tmpfs) :=
  match findFile name t with
  | some i => some (storeData data size i t)
  | none =>
      let (ret, t) := tmpfsCreate name t
      if ret ≠ 0 then some (-1, t)
      else (findFile name t).map fun i => storeData data size i t

/-- The return value and the bytes written to the buffer. -/
def tmpfsRead (name : CString) (maxSize : Nat) (t : Tmpfs) : Int × List UInt8 :=
  match findFile name t with
  | none => (-1, [])
  | some i =>
      let len := (t.files i).size
      let len := if len > maxSize then maxSize else len
      (len, (t.files i).data.loadList 0 len)

def tmpfsDelete (name : CString) (t : Tmpfs) : Int × Tmpfs :=
  match findFile name t with
  | some i =>
      (0, { t.store i { t.files i with used := false } with fileCount := t.fileCount - 1 })
  | none => (-1, t)

def tmpfsExists (name : CString) (t : Tmpfs) : Int := if (findFile name t).isSome then 1 else 0

/-! ## The finite map -/

inductive TmpfsOp
  | create (name : CString)
  | write (name : CString) (data : Memory) (size : Nat)
  | read (name : CString) (maxSize : Nat)
  | delete (name : CString)
  | queryExists (name : CString)

def TmpfsOp.name : TmpfsOp → CString
  | .create name | .write name _ _ | .read name _ | .delete name | .queryExists name => name

def stepTmpfs : TmpfsOp → Tmpfs → Option ((Int × List UInt8) × Tmpfs)
  | .create name, t =>
      let (ret, t) := tmpfsCreate name t
      some ((ret, []), t)
  | .write name data size, t =>
      (tmpfsWrite name data size t).map fun (ret, t) => ((ret, []), t)
  | .read name maxSize, t => some (tmpfsRead name maxSize t, t)
  | .delete name, t =>
      let (ret, t) := tmpfsDelete name t
      some ((ret, []), t)
  | .queryExists name, t => some ((tmpfsExists name t, []), t)

/-- The files by name. -/
abbrev FileMap := Finmap fun _ : CString => List UInt8

/-- What the calls are for. -/
def stepFiles : TmpfsOp → FileMap → Option ((Int × List UInt8) × FileMap)
  | .create name, m =>
      if name ∈ m then some ((0, []), m)
      else if m.keys.card < 32 then some ((0, []), m.insert name [])
      else some ((-1, []), m)
  | .write name data size, m =>
      if name ∈ m ∨ m.keys.card < 32 then
        some (((min size 4096 : Nat), []), m.insert name (data.loadList 0 (min size 4096)))
      else some ((-1, []), m)
  | .read name maxSize, m =>
      match m.lookup name with
      | none => some ((-1, []), m)
      | some content => some (((min content.length maxSize : Nat), content.take maxSize), m)
  | .delete name, m => if name ∈ m then some ((0, []), m.erase name) else some ((-1, []), m)
  | .queryExists name, m => some ((if name ∈ m then 1 else 0, []), m)

/-! ## The invariant -/

/-- The name and the contents of a used slot. -/
def TmpfsFile.entry (file : TmpfsFile) : Option (CString × List UInt8) :=
  if file.used then some (file.string, file.data.loadList 0 file.size) else none

def Tmpfs.entries (t : Tmpfs) (i : Fin tmpfsMaxFiles) : Option (CString × List UInt8) :=
  (t.files i).entry

/-- The slots hold the files of the map, and the counter is their number. -/
structure TmpfsInv (t : Tmpfs) (m : FileMap) : Prop where
  represents : SlotTable.Represents t.entries m
  count : t.fileCount = m.keys.card
  size : ∀ i, (t.files i).size ≤ tmpfsDataSize

variable {t : Tmpfs} {m : FileMap} {name : CString}

theorem tmpfsInit_inv : TmpfsInv tmpfsInit ∅ where
  represents := SlotTable.represents_empty fun _ => rfl
  count := rfl
  size _ := Nat.zero_le _

theorem entries_eq_some {i : Fin tmpfsMaxFiles} {content : List UInt8} :
    t.entries i = some (name, content) ↔ (t.files i).used = true ∧ (t.files i).string = name ∧
      (t.files i).data.loadList 0 (t.files i).size = content := by
  rw [Tmpfs.entries, TmpfsFile.entry]
  split
  next hused => simp [hused]
  next hused => simp [hused]

theorem findFile_cases (hinv : TmpfsInv t m) (name : CString) :
    (∃ i, findFile name t = some i ∧
      t.entries i = some (name, (t.files i).data.loadList 0 (t.files i).size) ∧
      m.lookup name = some ((t.files i).data.loadList 0 (t.files i).size)) ∨
    findFile name t = none ∧ m.lookup name = none := by
  cases hfind : findFile name t with
  | some i =>
      have htest := List.find?_some hfind
      simp only [Bool.and_eq_true, decide_eq_true_eq, strcmp_eq_zero_iff] at htest
      have hentry := entries_eq_some.2 ⟨htest.1, htest.2, rfl⟩
      exact Or.inl ⟨i, rfl, hentry, (hinv.represents.lookup _ _).2 ⟨i, hentry⟩⟩
  | none =>
      refine Or.inr ⟨rfl, Option.eq_none_iff_forall_ne_some.2 fun content hlookup => ?_⟩
      obtain ⟨i, hentry⟩ := (hinv.represents.lookup name content).1 hlookup
      obtain ⟨hused, hname, -⟩ := entries_eq_some.1 hentry
      have htest := List.find?_eq_none.1 hfind i (List.mem_finRange i)
      simp [hused, hname, strcmp_eq_zero_iff] at htest

theorem isSome_findFile (hinv : TmpfsInv t m) : (findFile name t).isSome ↔ name ∈ m := by
  rw [← Finmap.lookup_isSome]
  rcases findFile_cases hinv name with ⟨i, hfind, -, hlookup⟩ | ⟨hfind, hlookup⟩
  · simp [hfind, hlookup]
  · simp [hfind, hlookup]

@[simp] theorem Tmpfs.store_same (i : Fin tmpfsMaxFiles) (file : TmpfsFile) :
    (t.store i file).files i = file :=
  Function.update_self ..

theorem Tmpfs.store_of_ne {i j : Fin tmpfsMaxFiles} (file : TmpfsFile) (hj : j ≠ i) :
    (t.store i file).files j = t.files j :=
  Function.update_of_ne hj ..

theorem entries_store (i : Fin tmpfsMaxFiles) (file : TmpfsFile) :
    (t.store i file).entries = Function.update t.entries i file.entry := by
  funext j
  by_cases hj : j = i
  · rw [hj, Function.update_self, Tmpfs.entries, Tmpfs.store_same]
  · rw [Function.update_of_ne hj, Tmpfs.entries, Tmpfs.store_of_ne file hj, Tmpfs.entries]

theorem size_store {i : Fin tmpfsMaxFiles} {file : TmpfsFile}
    (hsize : ∀ i, (t.files i).size ≤ tmpfsDataSize) (hfile : file.size ≤ tmpfsDataSize)
    (j : Fin tmpfsMaxFiles) : ((t.store i file).files j).size ≤ tmpfsDataSize := by
  by_cases hj : j = i
  · rw [hj, Tmpfs.store_same]
    exact hfile
  · rw [Tmpfs.store_of_ne file hj]
    exact hsize j

theorem keys_insert_of_mem (hmem : name ∈ m) (content : List UInt8) :
    (m.insert name content).keys = m.keys := by
  ext other
  rw [Finmap.mem_keys, Finmap.mem_keys, Finmap.mem_insert]
  exact or_iff_right_of_imp fun heq => heq ▸ hmem

theorem card_keys_insert (habsent : name ∉ m) (content : List UInt8) :
    (m.insert name content).keys.card = m.keys.card + 1 := by
  have hkeys : (m.insert name content).keys = insert name m.keys := by
    ext other
    rw [Finmap.mem_keys, Finmap.mem_insert, Finset.mem_insert, Finmap.mem_keys]
  rw [hkeys, Finset.card_insert_of_notMem fun hmem => habsent (Finmap.mem_keys.1 hmem)]

theorem card_keys_erase (hmem : name ∈ m) : ((m.erase name).keys.card : Int) = m.keys.card - 1 := by
  have hkey := Finmap.mem_keys.2 hmem
  have hpos := Finset.card_pos.2 ⟨name, hkey⟩
  rw [Finmap.keys_erase, Finset.card_erase_of_mem hkey]
  omega

/-! ## Steps -/

/-- A call answers as the map does. -/
def TmpfsRefines (op : TmpfsOp) (t : Tmpfs) (m : FileMap) : Prop :=
  ∃ answer t' m', stepTmpfs op t = some (answer, t') ∧ stepFiles op m = some (answer, m') ∧
    TmpfsInv t' m'

/-- The file that `tmpfs_create` puts in a slot. -/
def createdFile (name : CString) (file : TmpfsFile) : TmpfsFile where
  name := (strncpy file.name name (tmpfsNameLen - 1)).storeByte (tmpfsNameLen - 1) 0
  size := 0
  used := true
  data := memset file.data 0 0 tmpfsDataSize

/-- Everything that `tmpfs_create` can do. -/
theorem tmpfsCreate_cases (name : CString) (t : Tmpfs) :
    (findFile name t ≠ none ∧ tmpfsCreate name t = (0, t)) ∨
    (findFile name t = none ∧ (32 ≤ t.fileCount ∨ ∀ i, (t.files i).used = true) ∧
      tmpfsCreate name t = (-1, t)) ∨
    (findFile name t = none ∧ t.fileCount < 32 ∧ ∃ i, (t.files i).used = false ∧
      tmpfsCreate name t = (0, { t.store i (createdFile name (t.files i)) with
        fileCount := t.fileCount + 1 })) := by
  rw [tmpfsCreate]
  by_cases hfind : findFile name t = none
  · rw [if_neg (by rw [hfind]; simp)]
    by_cases hcount : 32 ≤ t.fileCount
    · exact Or.inr (Or.inl ⟨hfind, Or.inl hcount, if_pos hcount⟩)
    · rw [if_neg (show ¬ (tmpfsMaxFiles : Int) ≤ t.fileCount from hcount)]
      cases hslot : (List.finRange tmpfsMaxFiles).find? fun i => !(t.files i).used with
      | none =>
          refine Or.inr (Or.inl ⟨hfind, Or.inr fun i => ?_, rfl⟩)
          simpa using List.find?_eq_none.1 hslot i (List.mem_finRange i)
      | some i =>
          have hfree : (t.files i).used = false := by simpa using List.find?_some hslot
          exact Or.inr (Or.inr ⟨hfind, not_le.1 hcount, i, hfree, rfl⟩)
  · exact Or.inl ⟨hfind, if_pos (Option.isSome_iff_ne_none.2 hfind)⟩

/-- The name is cut to what the buffer holds. -/
theorem createdFile_string (name : CString) (file : TmpfsFile) :
    (createdFile name file).string.bytes = name.bytes.take 63 :=
  ofBuffer_strncpy file.name name 63

theorem entry_created (hshort : name.bytes.length ≤ 63) (file : TmpfsFile) :
    (createdFile name file).entry = some (name, []) := by
  have hname : (createdFile name file).string = name :=
    CString.ext ((createdFile_string name file).trans (List.take_of_length_le hshort))
  rw [TmpfsFile.entry, if_pos (show (createdFile name file).used = true from rfl), hname]
  rfl

/-- What `tmpfs_create` does for a name that is not there. -/
theorem tmpfsCreate_absent (hinv : TmpfsInv t m) (hshort : name.bytes.length ≤ 63)
    (habsent : name ∉ m) :
    (m.keys.card < 32 ∧ (tmpfsCreate name t).1 = 0 ∧
      TmpfsInv (tmpfsCreate name t).2 (m.insert name [])) ∨
    (¬ m.keys.card < 32 ∧ tmpfsCreate name t = (-1, t)) := by
  rcases tmpfsCreate_cases name t with ⟨hfound, -⟩ | ⟨-, hfull, heq⟩ |
    ⟨-, hcount, i, hfree, heq⟩
  · exact absurd ((isSome_findFile hinv).1 (Option.isSome_iff_ne_none.2 hfound)) habsent
  · refine Or.inr ⟨fun hroom => ?_, heq⟩
    rcases hfull with hfull | hused
    · rw [hinv.count] at hfull
      omega
    · obtain ⟨i, hnone⟩ := hinv.represents.card_lt_iff.1 (by rwa [Fintype.card_fin])
      simp [Tmpfs.entries, TmpfsFile.entry, hused i] at hnone
  · rw [hinv.count] at hcount
    have hnone : t.entries i = none := by simp [Tmpfs.entries, TmpfsFile.entry, hfree]
    rw [heq]
    refine Or.inl ⟨by omega, rfl, ?_, ?_, size_store hinv.size (Nat.zero_le _)⟩
    · have hstore := hinv.represents.store [] (Or.inl ⟨hnone, habsent⟩)
      rw [← entry_created hshort (t.files i), ← entries_store] at hstore
      exact hstore
    · rw [card_keys_insert habsent, Nat.cast_succ, ← hinv.count]

theorem tmpfsCreate_refines (hinv : TmpfsInv t m) (hshort : name.bytes.length ≤ 63) :
    TmpfsRefines (.create name) t m := by
  by_cases hmem : name ∈ m
  · refine ⟨(0, []), t, m, ?_, ?_, hinv⟩
    · rw [stepTmpfs, tmpfsCreate, if_pos ((isSome_findFile hinv).2 hmem)]
    · rw [stepFiles, if_pos hmem]
  · rcases tmpfsCreate_absent hinv hshort hmem with ⟨hroom, hret, hinv'⟩ | ⟨hroom, heq⟩
    · refine ⟨(0, []), _, _, ?_, ?_, hinv'⟩
      · rw [stepTmpfs, ← hret]
      · rw [stepFiles, if_neg hmem, if_pos hroom]
    · refine ⟨(-1, []), t, m, ?_, ?_, hinv⟩
      · rw [stepTmpfs, heq]
      · rw [stepFiles, if_neg hmem, if_neg hroom]

theorem storeData_eq (data : Memory) (size : Nat) (i : Fin tmpfsMaxFiles) (t : Tmpfs) :
    storeData data size i t = (((min size 4096 : Nat) : Int), t.store i { t.files i with
      data := (t.files i).data.overwrite 0 (min size 4096) data
      size := min size 4096 }) := by
  have hsize : (if size > tmpfsDataSize then tmpfsDataSize else size) = min size 4096 := by
    rw [Nat.min_comm, min_def_lt]
    rfl
  unfold storeData
  rw [hsize]

theorem entry_stored {file : TmpfsFile} (hused : file.used = true) (data : Memory) (size : Nat) :
    TmpfsFile.entry { file with data := file.data.overwrite 0 size data, size } =
      some (file.string, data.loadList 0 size) := by
  rw [TmpfsFile.entry, if_pos hused, Memory.loadList_overwrite_same]
  rfl

/-- The data goes to the file that was found. -/
theorem storeData_inv (hinv : TmpfsInv t m) {i : Fin tmpfsMaxFiles} {old : List UInt8}
    (hentry : t.entries i = some (name, old)) (data : Memory) (size : Nat) :
    (storeData data size i t).1 = (min size 4096 : Nat) ∧
      TmpfsInv (storeData data size i t).2
        (m.insert name (data.loadList 0 (min size 4096))) := by
  obtain ⟨hused, hname, -⟩ := entries_eq_some.1 hentry
  have hnew := entry_stored hused data (min size 4096)
  rw [hname] at hnew
  have hmem := hinv.represents.mem_iff.2 ⟨i, old, hentry⟩
  rw [storeData_eq]
  refine ⟨rfl, ?_, ?_, size_store hinv.size (Nat.min_le_right _ _)⟩
  · rw [entries_store, hnew]
    exact hinv.represents.store _ (Or.inr ⟨old, hentry⟩)
  · rw [keys_insert_of_mem hmem]
    exact hinv.count

theorem tmpfsWrite_refines (hinv : TmpfsInv t m) (hshort : name.bytes.length ≤ 63)
    (data : Memory) (size : Nat) : TmpfsRefines (.write name data size) t m := by
  rcases findFile_cases hinv name with ⟨i, hfind, hentry, hlookup⟩ | ⟨hfind, hlookup⟩
  · obtain ⟨hret, hinv'⟩ := storeData_inv hinv hentry data size
    refine ⟨((min size 4096 : Nat), []), _, _, ?_, ?_, hinv'⟩
    · rw [stepTmpfs, tmpfsWrite, hfind, ← hret]
      rfl
    · rw [stepFiles, if_pos (Or.inl (Finmap.mem_of_lookup_eq_some hlookup))]
  · have habsent := Finmap.lookup_eq_none.1 hlookup
    rcases tmpfsCreate_absent hinv hshort habsent with ⟨hroom, hret, hinv'⟩ | ⟨hroom, heq⟩
    · rcases findFile_cases hinv' name with ⟨i, hfind', hentry, -⟩ | ⟨-, hlookup'⟩
      · obtain ⟨hstored, hinv''⟩ := storeData_inv hinv' hentry data size
        rw [Finmap.insert_insert] at hinv''
        refine ⟨((min size 4096 : Nat), []), _, _, ?_, ?_, hinv''⟩
        · rw [stepTmpfs, tmpfsWrite, hfind]
          dsimp only
          rw [if_neg (not_not.2 hret), hfind', ← hstored]
          rfl
        · rw [stepFiles, if_pos (Or.inr hroom)]
      · rw [Finmap.lookup_insert] at hlookup'
        exact absurd hlookup' (by simp)
    · refine ⟨(-1, []), t, m, ?_, ?_, hinv⟩
      · rw [stepTmpfs, tmpfsWrite, hfind, heq]
        rfl
      · rw [stepFiles, if_neg (not_or.2 ⟨habsent, hroom⟩)]

theorem tmpfsRead_refines (hinv : TmpfsInv t m) (maxSize : Nat) :
    TmpfsRefines (.read name maxSize) t m := by
  refine ⟨tmpfsRead name maxSize t, t, m, rfl, ?_, hinv⟩
  rcases findFile_cases hinv name with ⟨i, hfind, -, hlookup⟩ | ⟨hfind, hlookup⟩
  · have hlen : (if (t.files i).size > maxSize then maxSize else (t.files i).size) =
        min maxSize (t.files i).size := (min_def_lt _ _).symm
    rw [stepFiles, hlookup, tmpfsRead, hfind]
    simp only [hlen, Memory.loadList_length, Memory.loadList_take, Nat.min_comm]
  · rw [stepFiles, hlookup, tmpfsRead, hfind]

theorem tmpfsDelete_refines (hinv : TmpfsInv t m) : TmpfsRefines (.delete name) t m := by
  rcases findFile_cases hinv name with ⟨i, hfind, hentry, hlookup⟩ | ⟨hfind, hlookup⟩
  · have hmem := Finmap.mem_of_lookup_eq_some hlookup
    refine ⟨(0, []), { t.store i { t.files i with used := false } with
      fileCount := t.fileCount - 1 }, m.erase name, ?_, ?_, ?_⟩
    · rw [stepTmpfs, tmpfsDelete, hfind]
    · rw [stepFiles, if_pos hmem]
    · refine ⟨?_, ?_, size_store hinv.size (hinv.size i)⟩
      · have hclear := hinv.represents.clear hentry
        rw [show none = TmpfsFile.entry { t.files i with used := false } from rfl,
          ← entries_store] at hclear
        exact hclear
      · rw [card_keys_erase hmem, ← hinv.count]
  · refine ⟨(-1, []), t, m, ?_, ?_, hinv⟩
    · rw [stepTmpfs, tmpfsDelete, hfind]
    · rw [stepFiles, if_neg (Finmap.lookup_eq_none.1 hlookup)]

theorem tmpfsExists_refines (hinv : TmpfsInv t m) : TmpfsRefines (.queryExists name) t m := by
  refine ⟨(tmpfsExists name t, []), t, m, rfl, ?_, hinv⟩
  rw [stepFiles, tmpfsExists]
  simp only [isSome_findFile hinv]

theorem stepTmpfs_refines (hinv : TmpfsInv t m) {op : TmpfsOp}
    (hshort : op.name.bytes.length ≤ 63) : TmpfsRefines op t m := by
  cases op with
  | create name => exact tmpfsCreate_refines hinv hshort
  | write name data size => exact tmpfsWrite_refines hinv hshort data size
  | read name maxSize => exact tmpfsRead_refines hinv maxSize
  | delete name => exact tmpfsDelete_refines hinv
  | queryExists name => exact tmpfsExists_refines hinv

theorem stepFiles_lookup_of_ne {op : TmpfsOp} {answer : Int × List UInt8} {m' : FileMap}
    (hstep : stepFiles op m = some (answer, m')) {other : CString} (hother : other ≠ op.name) :
    m'.lookup other = m.lookup other := by
  cases op with
  | create name =>
      simp only [stepFiles] at hstep
      split_ifs at hstep <;> obtain ⟨-, rfl⟩ := Prod.mk.inj (Option.some.inj hstep)
      · rfl
      · exact Finmap.lookup_insert_of_ne m hother
      · rfl
  | write name data size =>
      simp only [stepFiles] at hstep
      split_ifs at hstep <;> obtain ⟨-, rfl⟩ := Prod.mk.inj (Option.some.inj hstep)
      · exact Finmap.lookup_insert_of_ne m hother
      · rfl
  | read name maxSize =>
      simp only [stepFiles] at hstep
      split at hstep <;> obtain ⟨-, rfl⟩ := Prod.mk.inj (Option.some.inj hstep) <;> rfl
  | delete name =>
      simp only [stepFiles] at hstep
      split_ifs at hstep <;> obtain ⟨-, rfl⟩ := Prod.mk.inj (Option.some.inj hstep)
      · exact Finmap.lookup_erase_ne hother
      · rfl
  | queryExists name =>
      obtain ⟨-, rfl⟩ := Prod.mk.inj (Option.some.inj hstep)
      rfl

/-- The contents of a file, as `find_file` finds it. -/
def Tmpfs.content (t : Tmpfs) (name : CString) : Option (List UInt8) :=
  (findFile name t).map fun i => (t.files i).data.loadList 0 (t.files i).size

theorem TmpfsInv.content_eq (hinv : TmpfsInv t m) (name : CString) :
    t.content name = m.lookup name := by
  rcases findFile_cases hinv name with ⟨i, hfind, -, hlookup⟩ | ⟨hfind, hlookup⟩
  · rw [Tmpfs.content, hfind, hlookup]
    rfl
  · rw [Tmpfs.content, hfind, hlookup]
    rfl

theorem TmpfsInv.length_le (hinv : TmpfsInv t m) {content : List UInt8}
    (hlookup : m.lookup name = some content) : content.length ≤ 4096 := by
  obtain ⟨i, hentry⟩ := (hinv.represents.lookup name content).1 hlookup
  obtain ⟨-, -, rfl⟩ := entries_eq_some.1 hentry
  rw [Memory.loadList_length]
  exact hinv.size i

theorem TmpfsInv.used_card (hinv : TmpfsInv t m) :
    m.keys.card = (Finset.univ.filter fun i => (t.files i).used = true).card := by
  rw [hinv.represents.card_keys, SlotTable.used]
  congr 1
  ext i
  simp [Tmpfs.entries, TmpfsFile.entry]

theorem TmpfsInv.distinct_names (hinv : TmpfsInv t m) (i j : Fin tmpfsMaxFiles)
    (hi : (t.files i).used = true) (hj : (t.files j).used = true)
    (hname : (t.files i).string = (t.files j).string) : i = j :=
  hinv.represents.distinct i j _ _ _ (entries_eq_some.2 ⟨hi, rfl, rfl⟩)
    (entries_eq_some.2 ⟨hj, hname.symm, rfl⟩)

/-- After `tmpfs_init` and any run with names of at most 63 bytes the slots are a
finite map from names to at most 4096 bytes, with at most 32 keys. Every call
answers as the map does and leaves the other files alone. -/
theorem tmpfs_refines_map (ops : List TmpfsOp)
    (hshort : ∀ op ∈ ops, op.name.bytes.length ≤ 63) :
    ∃ answers t m, runAll stepTmpfs ops tmpfsInit = some (answers, t) ∧
      runAll stepFiles ops ∅ = some (answers, m) ∧
      (∀ name, t.content name = m.lookup name) ∧
      (∀ name content, m.lookup name = some content → content.length ≤ 4096) ∧
      m.keys.card ≤ 32 ∧
      (∀ i j, (t.files i).used = true → (t.files j).used = true →
        (t.files i).string = (t.files j).string → i = j) ∧
      t.fileCount = (Finset.univ.filter fun i => (t.files i).used = true).card ∧
      ∀ op answer t', op.name.bytes.length ≤ 63 → stepTmpfs op t = some (answer, t') →
        ∀ other ≠ op.name, t'.content other = t.content other := by
  obtain ⟨answers, t, m, hrun, hfiles, hinv⟩ :=
    runAll_simulates TmpfsInv ops
      (fun op hop t m hinv => show TmpfsRefines op t m from
        stepTmpfs_refines hinv (hshort op hop)) tmpfsInit_inv
  refine ⟨answers, t, m, hrun, hfiles, hinv.content_eq, fun _ _ => hinv.length_le, ?_,
    hinv.distinct_names, ?_, ?_⟩
  · rw [hinv.used_card]
    exact (Finset.card_le_univ _).trans_eq (Fintype.card_fin 32)
  · rw [hinv.count, hinv.used_card]
  · intro op answer t' hname hstep other hother
    obtain ⟨answer', t'', m', hstep', hfiles', hinv'⟩ := stepTmpfs_refines hinv hname
    obtain ⟨-, rfl⟩ := Prod.mk.inj (Option.some.inj (hstep.symm.trans hstep'))
    rw [hinv'.content_eq, hinv.content_eq, stepFiles_lookup_of_ne hfiles' hother]

theorem tmpfs_refines_map_sample :
    ∃ answers t m, runAll stepTmpfs
        [.write ⟨[0x41], by simp⟩ (fun _ => 7) 3, .read ⟨[0x41], by simp⟩ 2] tmpfsInit =
          some (answers, t) ∧
      runAll stepFiles [.write ⟨[0x41], by simp⟩ (fun _ => 7) 3, .read ⟨[0x41], by simp⟩ 2] ∅ =
        some (answers, m) ∧
      ∀ name, t.content name = m.lookup name := by
  obtain ⟨answers, t, m, hrun, hfiles, hcontent, -⟩ :=
    tmpfs_refines_map [.write ⟨[0x41], by simp⟩ (fun _ => 7) 3, .read ⟨[0x41], by simp⟩ 2]
      (by simp [TmpfsOp.name])
  exact ⟨answers, t, m, hrun, hfiles, hcontent⟩

end Dosfs
