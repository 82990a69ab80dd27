import Dosfs.Fs.TmpfsSlots

/-!
# Long names in the temporary file system

`tmpfs_create` cuts the name that it stores to 63 bytes, and `find_file` compares
the whole one. While there is room, a longer name is created and not found again:
`tmpfs_write` then writes through a null pointer, and creating it again fills
another slot with the same stored name.
-/

namespace Dosfs

open Foundation

/-- What a call is to do with its name: what was created is found again, a write
has a file to write to, and no two used slots carry the same name afterwards. -/
structure HandlesNames (op : TmpfsOp) (t : Tmpfs) : Prop where
  found : ∀ name, op = .create name → (tmpfsCreate name t).1 = 0 →
    tmpfsExists name (tmpfsCreate name t).2 = 1
  hasFile : stepTmpfs op t ≠ none
  distinct : ∀ answer t', stepTmpfs op t = some (answer, t') →
    ∀ i j, (t'.files i).used = true → (t'.files j).used = true →
      (t'.files i).string = (t'.files j).string → i = j

/-- A name of more than 63 bytes is created or written only when all slots are
in use. -/
def NameFits : TmpfsOp → Tmpfs → Prop
  | .create name, t | .write name _ _, t => name.bytes.length ≤ 63 ∨ 32 ≤ t.fileCount
  | _, _ => True

variable {t t' : Tmpfs} {name : CString} {op : TmpfsOp}

/-- While there is room, a name that is too long is created but not found. -/
theorem tmpfsCreate_long (hsound : TmpfsSound t) (hlong : 63 < name.bytes.length)
    (hroom : t.fileCount < 32) :
    (tmpfsCreate name t).1 = 0 ∧ findFile name (tmpfsCreate name t).2 = none := by
  refine ⟨?_, findFile_of_long (tmpfsCreate_sound hsound name) hlong⟩
  rcases tmpfsCreate_cases name t with ⟨hfound, -⟩ | ⟨-, hfull, -⟩ | ⟨-, -, i, -, heq⟩
  · exact absurd (findFile_of_long hsound hlong) hfound
  · rcases hfull with hfull | hall
    · exact absurd hroom (not_lt.2 hfull)
    · exact absurd hall (hsound.not_all_used hroom)
  · rw [heq]

/-- A write under such a name goes through the null pointer. -/
theorem tmpfsWrite_long (hsound : TmpfsSound t) (hlong : 63 < name.bytes.length)
    (hroom : t.fileCount < 32) (data : Memory) (size : Nat) :
    tmpfsWrite name data size t = none := by
  obtain ⟨hret, hlost⟩ := tmpfsCreate_long hsound hlong hroom
  rw [tmpfsWrite, findFile_of_long hsound hlong]
  dsimp only
  rw [if_neg (not_not.2 hret), hlost]
  rfl

/-- A call whose name fits keeps the slots a map. -/
theorem stepTmpfs_fits {m : FileMap} (hinv : TmpfsInv t m) (hfits : NameFits op t) :
    ∃ answer t' m', stepTmpfs op t = some (answer, t') ∧ TmpfsInv t' m' := by
  have hrefines (h : TmpfsRefines op t m) :
      ∃ answer t' m', stepTmpfs op t = some (answer, t') ∧ TmpfsInv t' m' := by
    obtain ⟨answer, t', m', hstep, -, hinv'⟩ := h
    exact ⟨answer, t', m', hstep, hinv'⟩
  cases op with
  | create name =>
      by_cases hfind : findFile name t = none
      · rcases hfits with hshort | hfull
        · exact hrefines (tmpfsCreate_refines hinv hshort)
        · exact ⟨(-1, []), t, m, by rw [stepTmpfs, tmpfsCreate_full hfind hfull], hinv⟩
      · refine ⟨(0, []), t, m, ?_, hinv⟩
        rw [stepTmpfs, tmpfsCreate, if_pos (Option.isSome_iff_ne_none.2 hfind)]
  | write name data size =>
      by_cases hfind : findFile name t = none
      · rcases hfits with hshort | hfull
        · exact hrefines (tmpfsWrite_refines hinv hshort data size)
        · refine ⟨(-1, []), t, m, ?_, hinv⟩
          rw [stepTmpfs, tmpfsWrite_full (findFile_eq_none_iff.1 hfind) hfull]
          rfl
      · obtain ⟨i, hfound⟩ := Option.ne_none_iff_exists'.1 hfind
        have hstored := storeData_inv hinv (entries_of_findFile hfound) data size
        refine ⟨((storeData data size i t).1, []), (storeData data size i t).2, _, ?_, hstored.2⟩
        rw [stepTmpfs, tmpfsWrite, hfound]
        rfl
  | read name maxSize => exact hrefines (tmpfsRead_refines hinv maxSize)
  | delete name => exact hrefines (tmpfsDelete_refines hinv)
  | queryExists name => exact hrefines (tmpfsExists_refines hinv)

theorem handlesNames_of_fits {m : FileMap} (hsound : TmpfsSound t) (hinv : TmpfsInv t m)
    (hfits : NameFits op t) : HandlesNames op t := by
  obtain ⟨answer, t', m', hstep, hinv'⟩ := stepTmpfs_fits hinv hfits
  refine ⟨?_, ?_, ?_⟩
  · rintro name rfl hret
    have hfound : findFile name (tmpfsCreate name t).2 ≠ none := by
      rcases hfits with hshort | hfull
      · exact tmpfsCreate_found hsound hshort hret
      · by_cases hfind : findFile name t = none
        · rw [tmpfsCreate_full hfind hfull] at hret
          exact absurd hret (by simp)
        · rwa [tmpfsCreate, if_pos (Option.isSome_iff_ne_none.2 hfind)]
    rw [tmpfsExists, if_pos (Option.isSome_iff_ne_none.2 hfound)]
  · rw [hstep]
    exact Option.some_ne_none _
  · intro answer'' t'' hstep''
    obtain ⟨-, rfl⟩ := Prod.mk.inj (Option.some.inj (hstep.symm.trans hstep''))
    exact hinv'.distinct_names

theorem fits_of_handlesNames (hsound : TmpfsSound t) (hhandles : HandlesNames op t) :
    NameFits op t := by
  cases op with
  | create name =>
      refine or_iff_not_imp_left.2 fun hlong => not_lt.1 fun hroom => ?_
      obtain ⟨hret, hlost⟩ := tmpfsCreate_long hsound (not_le.1 hlong) hroom
      have hfound := hhandles.found name rfl hret
      rw [tmpfsExists, hlost] at hfound
      exact absurd hfound (by simp)
  | write name data size =>
      refine or_iff_not_imp_left.2 fun hlong => not_lt.1 fun hroom => hhandles.hasFile ?_
      rw [stepTmpfs, tmpfsWrite_long hsound (not_le.1 hlong) hroom]
      rfl
  | read name maxSize => trivial
  | delete name => trivial
  | queryExists name => trivial

/-- In every run from `tmpfs_init`, all calls handle their names exactly when no
name of more than 63 bytes is created or written while a slot is free. -/
theorem names_handled_iff (ops : List TmpfsOp) :
    Throughout stepTmpfs HandlesNames ops tmpfsInit ↔
      Throughout stepTmpfs NameFits ops tmpfsInit := by
  refine Throughout.congr_of_inv (fun t => TmpfsSound t ∧ ∃ m, TmpfsInv t m) ?_ ?_
    ⟨tmpfsInit_sound, ∅, tmpfsInit_inv⟩
  · rintro op t ⟨hsound, m, hinv⟩
    exact ⟨fits_of_handlesNames hsound, handlesNames_of_fits hsound hinv⟩
  · rintro op t answer t' ⟨hsound, m, hinv⟩ hhandles hstep
    obtain ⟨answer', t'', m', hstep', hinv'⟩ :=
      stepTmpfs_fits hinv (fits_of_handlesNames hsound hhandles)
    obtain ⟨-, rfl⟩ := Prod.mk.inj (Option.some.inj (hstep.symm.trans hstep'))
    exact ⟨stepTmpfs_sound hsound hstep, m', hinv'⟩

/-- A name of 64 bytes. -/
def longName : CString := ⟨List.replicate 64 0x61, by simp⟩

/-- `touch` with a name of 64 bytes reports a file that nothing finds, the second
one fills a second slot with the same name, and a write has no file to go to. -/
theorem long_name_lost :
    ¬ Throughout stepTmpfs HandlesNames [.create longName] tmpfsInit ∧
      (tmpfsCreate longName tmpfsInit).1 = 0 ∧
      tmpfsExists longName (tmpfsCreate longName tmpfsInit).2 = 0 ∧
      tmpfsWrite longName (fun _ => 7) 1 tmpfsInit = none ∧
      ∃ t, tmpfsCreate longName (tmpfsCreate longName tmpfsInit).2 = (0, t) ∧
        ∃ i j, i ≠ j ∧ (t.files i).used = true ∧ (t.files j).used = true ∧
          (t.files i).string = (t.files j).string := by
  have hlong : 63 < longName.bytes.length := by simp [longName]
  obtain ⟨hret, hlost⟩ := tmpfsCreate_long tmpfsInit_sound hlong (by decide)
  have hexists : tmpfsExists longName (tmpfsCreate longName tmpfsInit).2 = 0 := by
    rw [tmpfsExists, hlost]
    rfl
  refine ⟨fun hrun => ?_, hret, hexists,
    tmpfsWrite_long tmpfsInit_sound hlong (by decide) _ 1, _, rfl, ⟨0, by decide⟩, ⟨1, by decide⟩,
    ?_⟩
  · have hfound := hrun.1.found longName rfl hret
    rw [hexists] at hfound
    exact absurd hfound (by simp)
  · decide

end Dosfs
